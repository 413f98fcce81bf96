import Bmd.Correctness.Ledger

/-!
# `Correctness.Output` — the log of a VM

`write_err_log` copies what a child prints to the log of its VM. In its loop the result of `write` is overwritten
with `0` before it is looked at, and `0` is taken for an error: the log is closed after the first `write`, however
much that took. So the log gets a beginning of the first chunk and nothing of what follows.
-/

namespace Bmd

open Lib Lib.Prog

variable {s t t' : Daemon} {a : Addr} {fd log : Fd} {r : ReadResult} {n : Int}

/-! ## One call -/

/-- The bytes of a read. -/
def ReadResult.bytes : ReadResult → List UInt8
  | .data bytes _ => bytes
  | _ => []

/-- What a call with an open log puts there. -/
def ReadResult.logged : ReadResult → List UInt8
  | .data bytes write => (writeLoop write bytes bytes.length 0 0).1
  | _ => []

/-- Every `write` takes something or is to be tried again. -/
def ReadResult.Writable : ReadResult → Prop
  | .data _ write => ∀ k, write k = .again ∨ ∃ n, 0 < n ∧ write k = .wrote n
  | _ => True

/-- The loop closes the log unless the first `write` fails. -/
theorem writeLoop_closes {write : Nat → WriteResult} {buf : List UInt8} (hbuf : buf ≠ []) (hw : write 0 ≠ .error) :
    writeLoop write buf buf.length 0 0 = ((write 0).taken buf, false) := by
  cases buf with
  | nil => exact absurd rfl hbuf
  | cons b rest =>
    rw [List.length_cons, writeLoop, if_neg (by simp), if_neg hw]
    rfl

theorem ReadResult.logged_nil (h : r.bytes = []) : r.logged = [] := by
  cases r with
  | data bytes write =>
    have hnil : bytes = [] := h
    subst hnil
    rfl
  | _ => rfl

/-- The descriptor of the log of the VM at `a`. -/
def Daemon.logfd? (s : Daemon) (a : Addr) : Option Fd := (s.vm? a).map (·.logfd)

theorem modVm_logfd {f : VmEntry → VmEntry} {u : Unit} (h : modVm a f t = .ok (u, t')) (hf : ∀ v, (f v).addr = v.addr) :
    t'.logfd? a = (t.vm? a).map fun v => (f v).logfd := by
  rw [Daemon.logfd?, of_modify h, vm?_modVm hf, Option.map_map]
  rfl

theorem endOfOutput_logfd (h : endOfOutput fd a t = .ok (n, t')) : t'.logfd? a = t.logfd? a := by
  obtain ⟨u, t₁, h₁, h⟩ := of_bind h
  obtain ⟨u, t₂, h₂, h⟩ := of_bind h
  obtain ⟨-, rfl⟩ := pure_ok.mp h
  rw [modVm_logfd h₂ fun _ => rfl, of_modify h₁]
  rfl

theorem writeErrLog_returns (fd : Fd) (a : Addr) (r : ReadResult) (t : Daemon) :
    ∃ n t', writeErrLog fd a r t = .ok (n, t') := by
  cases r with
  | data bytes write =>
    rw [writeErrLog]
    by_cases hnil : bytes.length = 0
    · rw [if_pos hnil]
      exact ⟨_, _, rfl⟩
    · rw [if_neg hnil]
      by_cases hlog : (t.vmOf a).logfd ≠ -1 ∧ (writeLoop write bytes bytes.length 0 0).2 = false
      · exact ⟨_, _, bind_ok.mpr ⟨_, _, rfl, by rw [if_pos hlog]; rfl⟩⟩
      · exact ⟨_, _, bind_ok.mpr ⟨_, _, rfl, by rw [if_neg hlog]; rfl⟩⟩
  | _ => exact ⟨_, _, rfl⟩

/-- A call that reads something closes the log. -/
theorem writeErrLog_logfd (hlog : t.logfd? a = some log) (hw : r.Writable) (h : writeErrLog fd a r t = .ok (n, t')) :
    t'.logfd? a = some (if r.bytes = [] then log else -1) := by
  cases r with
  | eof => exact (endOfOutput_logfd h).trans hlog
  | error =>
    obtain ⟨-, rfl⟩ := pure_ok.mp h
    exact hlog
  | data bytes write =>
    by_cases hnil : bytes = []
    · subst hnil
      exact (endOfOutput_logfd h).trans hlog
    · have hfirst : write 0 ≠ .error := by
        rcases hw 0 with hagain | ⟨n, -, hwrote⟩
        · simp [hagain]
        · simp [hwrote]
      rw [writeErrLog, if_neg (by simpa using hnil), writeLoop_closes hnil hfirst] at h
      replace h := getVm_bind h
      obtain ⟨v, hv, rfl⟩ := Option.map_eq_some_iff.mp hlog
      rw [vmOf_of_vm? hv] at h
      show t'.logfd? a = some (if bytes = [] then v.logfd else -1)
      rw [if_neg hnil]
      split at h
      · obtain ⟨u, t₂, h₂, h⟩ := of_bind h
        obtain ⟨u, t₃, h₃, h⟩ := of_bind h
        obtain ⟨-, rfl⟩ := pure_ok.mp h
        rw [modVm_logfd h₃ fun _ => rfl, of_modify h₂]
        exact congrArg (Option.map _) hv
      · next hclosed =>
        -- the log was closed before
        obtain ⟨-, rfl⟩ := pure_ok.mp h
        have hminus : v.logfd = -1 := by simpa using hclosed
        rw [hlog, hminus]

/-! ## The calls for one VM -/

/-- A call of `write_err_log`: what it reads and what it puts in the log. -/
structure LogCall where
  read : List UInt8
  logged : List UInt8

/-- The call for a read, with this descriptor of the log. -/
def ReadResult.logCall (r : ReadResult) (log : Fd) : LogCall where
  read := r.bytes
  logged := if log ≠ -1 then r.logged else []

/-- The calls for the VM at `a` from `s` on. Between them the daemon does whatever leaves the log of the VM as it
    is; no `write` fails. -/
inductive LogCalls (a : Addr) (s : Daemon) : List LogCall → Daemon → Prop where
  | start : LogCalls a s [] s
  | other {cs : List LogCall} {t t' : Daemon} (h : LogCalls a s cs t) (hlog : t'.logfd? a = t.logfd? a) :
      LogCalls a s cs t'
  | call {cs : List LogCall} {t t' : Daemon} {fd log : Fd} {r : ReadResult} {n : Int} (h : LogCalls a s cs t)
      (hlog : t.logfd? a = some log) (hw : r.Writable) (hc : writeErrLog fd a r t = .ok (n, t')) :
      LogCalls a s (cs ++ [r.logCall log]) t'

variable {cs : List LogCall}

/-- All that was read. -/
def outputRead (cs : List LogCall) : List UInt8 := (cs.map (·.read)).flatten

/-- All that went to the log. -/
def outputLogged (cs : List LogCall) : List UInt8 := (cs.map (·.logged)).flatten

theorem outputRead_append (c : LogCall) : outputRead (cs ++ [c]) = outputRead cs ++ c.read := by
  simp [outputRead]

theorem outputLogged_append (c : LogCall) : outputLogged (cs ++ [c]) = outputLogged cs ++ c.logged := by
  simp [outputLogged]

/-- The log is open exactly as long as nothing was read. -/
theorem LogCalls.logfd? (h : LogCalls a s cs t) (hlog : s.logfd? a = some log) :
    t.logfd? a = some (if outputRead cs = [] then log else -1) := by
  induction h with
  | start => exact hlog
  | other _ hsame ih => exact hsame.trans ih
  | @call cs t t' fd log' r n _ hlog' hw hc ih =>
    rw [writeErrLog_logfd hlog' hw hc, outputRead_append]
    rw [hlog'] at ih
    have hread : (r.logCall log').read = r.bytes := rfl
    rw [hread, Option.some.inj ih]
    by_cases hcs : outputRead cs = []
    · simp [hcs]
    · simp [hcs]

theorem LogCalls.logged_nil (h : LogCalls a s cs t) (hread : outputRead cs = []) : outputLogged cs = [] := by
  induction h with
  | start => rfl
  | other _ _ ih => exact ih hread
  | @call cs t t' fd log' r n _ hlog' hw hc ih =>
    rw [outputRead_append] at hread
    obtain ⟨hcs, hr⟩ := List.append_eq_nil_iff.mp hread
    rw [outputLogged_append, ih hcs, ReadResult.logCall, ReadResult.logged_nil hr]
    simp

/-- The output is in the log, in order, and the log is still open. -/
structure LoggedCompletely (a : Addr) (log : Fd) (cs : List LogCall) (t : Daemon) : Prop where
  bytes : outputLogged cs = outputRead cs
  kept : t.logfd? a = some log

/-- **The output of a VM is logged completely exactly as long as there is none.** -/
theorem output_logged_iff (hlog : s.logfd? a = some log) (hopen : log ≠ -1) (h : LogCalls a s cs t) :
    LoggedCompletely a log cs t ↔ outputRead cs = [] := by
  have hfd := h.logfd? hlog
  constructor
  · intro hall
    by_contra hread
    rw [if_neg hread, hall.kept] at hfd
    exact hopen (Option.some.inj hfd)
  · intro hread
    rw [if_pos hread] at hfd
    exact ⟨(h.logged_nil hread).trans hread.symm, hfd⟩

/-- A VM with a log. -/
def loggedVm : LoadedConf := VmConf.load { VmConf.section "a" "csm" .yes with errLogfile := some "/var/log/a" }

theorem exists_logged : ∃ s log, Reach (bmd .ideal) anyStep s ∧ s.logfd? 5 = some log ∧ log ≠ -1 := by
  obtain ⟨s, hr, h⟩ : ∃ s, Reach (bmd .ideal) anyStep s ∧ ((s.logfd? 5).any fun log => log != -1) = true :=
    exists_reach [loggedVm] [] (by decide +kernel)
  obtain ⟨log, hlog, hopen⟩ := (Option.any_eq_true _ _).mp h
  exact ⟨s, log, hr, hlog, by simpa using hopen⟩

/-- The output ends without a word. -/
theorem output_logged_iff_silent : ∃ s log, Reach (bmd .ideal) anyStep s ∧ s.logfd? 5 = some log ∧ log ≠ -1 ∧
    ∃ cs t, LogCalls 5 s cs t ∧ cs.length = 1 ∧ LoggedCompletely 5 log cs t := by
  obtain ⟨s, log, hr, hlog, hopen⟩ := exists_logged
  have hread : writeErrLog 3 5 .error s = .ok (-1, s) := rfl
  have hw : ReadResult.error.Writable := trivial
  have hcalls := LogCalls.start.call hlog hw hread
  exact ⟨s, log, hr, hlog, hopen, _, _, hcalls, rfl, (output_logged_iff hlog hopen hcalls).mpr rfl⟩

/-- **Output is lost.** A VM prints three bytes and then two. The first `write` takes one of them; then the log is
    closed, and nothing more is written. -/
theorem output_lost : ∃ s log, Reach (bmd .ideal) anyStep s ∧ s.logfd? 5 = some log ∧ log ≠ -1 ∧
    ∃ cs t, LogCalls 5 s cs t ∧ outputRead cs = [1, 2, 3, 4, 5] ∧ outputLogged cs = [1] ∧ t.logfd? 5 = some (-1) := by
  obtain ⟨s, log, hr, hlog, hopen⟩ := exists_logged
  have hone : (ReadResult.data [1, 2, 3] fun _ => .wrote 1).Writable := fun _ => .inr ⟨1, by decide, rfl⟩
  have htwo : (ReadResult.data [4, 5] fun _ => .wrote 2).Writable := fun _ => .inr ⟨2, by decide, rfl⟩
  obtain ⟨n₁, t₁, h₁⟩ := writeErrLog_returns 3 5 (.data [1, 2, 3] fun _ => .wrote 1) s
  obtain ⟨n₂, t₂, h₂⟩ := writeErrLog_returns 3 5 (.data [4, 5] fun _ => .wrote 2) t₁
  have hclosed : t₁.logfd? 5 = some (-1) := writeErrLog_logfd hlog hone h₁
  have hcalls := (LogCalls.start.call hlog hone h₁).call hclosed htwo h₂
  refine ⟨s, log, hr, hlog, hopen, _, _, hcalls, rfl, ?_, writeErrLog_logfd hclosed htwo h₂⟩
  simp [outputLogged, ReadResult.logCall, ReadResult.logged, hopen, writeLoop, WriteResult.taken]

end Bmd
