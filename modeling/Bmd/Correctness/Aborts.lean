import Bmd.Correctness.Runs

/-!
# `Correctness.Aborts` — requests that abort the daemon

`nvlist_get_string` aborts the process when there is no string element of that name. It is the only function that
does, and it is called for `command` and, by every command but `list`, for `name`.
-/

namespace Bmd

open Lib Lib.Prog

variable {s s' : Daemon} {a : Addr} {env : Env} {ucred : Xucred}

/-! ## Functions that never abort -/

instance : Allows (· ≠ Halt.abort) (.exit 1) := ⟨by decide⟩

instance : Allows (· ≠ Halt.abort) .hang := ⟨by decide⟩

instance (f : SockBuf → SockBuf) : Avoids Halt.abort (modSock a f) := .modify fun _ => trivial

instance (reason : String) : Avoids Halt.abort (respondError env a reason) := by
  unfold respondError
  split <;> infer_instance

instance (res : NvList) : Avoids Halt.abort (respond env a res) := by
  refine .bind inferInstance fun _ => ?_
  split <;> infer_instance

/-! ## Requests -/

/-- The function of the command reads the element `name`. -/
def Command.readsName : Command → Bool
  | .list => false
  | _ => true

/-- The strings that are read of the request are there. -/
def NvList.readable (nv : NvList) : Bool :=
  match nv.getString? "command" with
  | none => false
  | some cmd => (getCommandFunction cmd).all fun func => !func.readsName || (nv.getString? "name").isSome

/-- The request has no command that can be run. -/
def NvList.malformed (nv : NvList) : Bool :=
  match (nv.getString? "command").bind getCommandFunction with
  | none => true
  | some func => func.readsName && (nv.getString? "name").isNone

theorem requestedVm_aborts {nv : NvList} (h : nv.getString? "name" = none) (s : Daemon) :
    requestedVm nv ucred s = .error .abort := by
  show (nvlistGetString nv "name" s >>= _) = _
  unfold nvlistGetString
  rw [h]
  rfl

/-- **Every command function** that gets the string it reads does not abort. -/
theorem runCommand_avoids {nv : NvList} {load : Option (List LoadedConf)} {func : Command}
    (h : func.readsName = true → (nv.getString? "name").isSome) : Avoids Halt.abort (runCommand env nv ucred load func) := by
  cases hr : func.readsName with
  | false =>
    cases func with
    | list => exact inferInstanceAs (Avoids Halt.abort (listCommand env ucred))
    | _ => cases hr
  | true =>
    obtain ⟨name, hname⟩ := Option.isSome_iff_exists.mp (h hr)
    have hget : Avoids Halt.abort (nvlistGetString nv "name") := by
      unfold nvlistGetString
      rw [hname]
      infer_instance
    infer_instance

/-- Without the string it reads, a command function aborts. -/
theorem runCommand_aborts {nv : NvList} {load : Option (List LoadedConf)} {func : Command}
    (hr : func.readsName = true) (h : nv.getString? "name" = none) (s : Daemon) :
    runCommand env nv ucred load func s = .error .abort := by
  have hvm : ∀ f : Option VmEntry → Bmd.Prog NvList, (requestedVm nv ucred >>= f) s = .error .abort := by
    intro f
    show (requestedVm nv ucred s >>= _) = _
    rw [requestedVm_aborts h]
    rfl
  cases func with
  | list => cases hr
  | boot | install | poweroff | reset | showcomport | showvgaport | shutdown => exact hvm _

/-- The request was answered with `error = true`. -/
def Rejected (env : Env) (sb : SockBuf) (load : Option (List LoadedConf)) (s : Daemon) : Prop :=
  ∃ s' res bytes, recvCommand env sb load s = .ok (0, s') ∧ res.find? "error" .bool = some (.bool true) ∧
    env.nvlistPack res = some bytes ∧ (s'.sock? sb.addr).map (·.resBuf) = some bytes

/-- In no state does the request abort the daemon, and it is answered with an error if it is malformed. -/
def Tolerates (env : Env) (sb : SockBuf) (nv : NvList) : Prop :=
  ∀ load s, recvCommand env sb load s ≠ .error .abort ∧
    (nv.malformed = true → (s.sock? sb.addr).isSome → Rejected env sb load s)

section Request

variable {sb : SockBuf} {nv : NvList} {load : Option (List LoadedConf)} {cmd : String}

/-- `recv_command` on a request that was unpacked. -/
theorem recvCommand_eq (hu : env.nvlistUnpack (sb.buf.take sb.bufSize) = some nv) (hc : nv.getString? "command" = some cmd) :
    recvCommand env sb load = match getCommandFunction cmd with
      | none => respondError env sb.addr "unknown command"
      | some func => runCommand env nv sb.peer load func >>= respond env sb.addr := by
  unfold recvCommand
  rw [hu]
  cases hf : getCommandFunction cmd with
  | none | some => simp only [nvlistGetString, hc, pure_bind, hf]

theorem recvCommand_no_command (hu : env.nvlistUnpack (sb.buf.take sb.bufSize) = some nv)
    (hc : nv.getString? "command" = none) (s : Daemon) : recvCommand env sb load s = .error .abort := by
  unfold recvCommand
  rw [hu]
  simp only [nvlistGetString, hc]
  rfl

/-- A request that can be read does not abort the daemon. -/
theorem recvCommand_avoids (hu : env.nvlistUnpack (sb.buf.take sb.bufSize) = some nv) (h : nv.readable = true) :
    Avoids Halt.abort (recvCommand env sb load) := by
  unfold NvList.readable at h
  split at h
  · cases h
  · next cmd hc =>
    rw [recvCommand_eq hu hc]
    split
    · infer_instance
    · next func hf =>
      rw [hf, Option.all_some] at h
      have hrun : Avoids Halt.abort (runCommand env nv sb.peer load func) := by
        refine runCommand_avoids fun hr => ?_
        rwa [hr, Bool.not_true, Bool.false_or] at h
      infer_instance

/-- A malformed request that can be read has an unknown command, which is answered. -/
theorem rejected_of_malformed (hpack : ∀ reason, (env.nvlistPack (errorResponse reason)).isSome)
    (hu : env.nvlistUnpack (sb.buf.take sb.bufSize) = some nv) (h : nv.readable = true) (hm : nv.malformed = true)
    (hsock : (s.sock? sb.addr).isSome) : Rejected env sb load s := by
  obtain ⟨cmd, hc⟩ : ∃ cmd, nv.getString? "command" = some cmd := by
    cases hc : nv.getString? "command" with
    | none => simp [NvList.readable, hc] at h
    | some cmd => exact ⟨cmd, rfl⟩
  have hf : getCommandFunction cmd = none := by
    cases hf : getCommandFunction cmd with
    | none => rfl
    | some func =>
      simp only [NvList.readable, hc, hf, Option.all_some] at h
      simp only [NvList.malformed, hc, hf, Option.bind_some, Bool.and_eq_true] at hm
      rw [hm.1, Bool.not_true, Bool.false_or] at h
      simp [Option.isNone_iff_eq_none.mp hm.2] at h
  obtain ⟨bytes, hbytes⟩ := Option.isSome_iff_exists.mp (hpack "unknown command")
  obtain ⟨sb', hsb⟩ := Option.isSome_iff_exists.mp hsock
  have hrun : recvCommand env sb load s = .ok (0, s.modSock sb.addr (·.setResponse bytes)) := by
    rw [recvCommand_eq hu hc, hf]
    simp only [respondError, hbytes]
    rfl
  refine ⟨_, errorResponse "unknown command", bytes, hrun, rfl, hbytes, ?_⟩
  have hkey : (s.modSock sb.addr (·.setResponse bytes)).sock? sb.addr = (s.sock? sb.addr).map (·.setResponse bytes) :=
    Keyed.find?_update_self (k := SockBuf.addr) (f := (·.setResponse bytes)) (fun _ => rfl) s.sockList sb.addr
  rw [hkey, hsb]
  rfl

/-- **Which requests abort the daemon.** A request is tolerated in every state exactly if the strings that are read of
    it are there: `command`, and `name` when the command is known and not `list`. -/
theorem request_tolerated_iff (hpack : ∀ reason, (env.nvlistPack (errorResponse reason)).isSome)
    (hu : env.nvlistUnpack (sb.buf.take sb.bufSize) = some nv) : Tolerates env sb nv ↔ nv.readable = true := by
  constructor
  · intro h
    have hne : recvCommand env sb none (.empty 0) ≠ .error .abort := (h none (.empty 0)).1
    unfold NvList.readable
    split
    · next hc => exact (hne (recvCommand_no_command hu hc _)).elim
    · next cmd hc =>
      cases hf : getCommandFunction cmd with
      | none => rfl
      | some func =>
        rw [Option.all_some, Bool.or_eq_true, Bool.not_eq_true']
        rcases hr : func.readsName with _ | _
        · exact .inl rfl
        · -- without the name, the command function aborts in any state
          refine .inr (Option.isSome_iff_ne_none.mpr fun hname => hne ?_)
          rw [recvCommand_eq hu hc, hf]
          show (runCommand env nv sb.peer none func (.empty 0) >>= _) = _
          rw [runCommand_aborts hr hname]
          rfl
  · intro h load s
    exact ⟨(recvCommand_avoids hu h).ne s, rejected_of_malformed hpack hu h⟩

end Request

/-- A system in which all requests unpack to one nvlist. -/
def Env.unpacking (nv : NvList) : Env := { Env.ideal with nvlistUnpack := fun _ => some nv }

/-- A command that is not known is answered with an error. -/
theorem request_tolerated_iff_unknown :
    (NvList.nil.add "command" (.string "reboot")).malformed = true ∧
      Tolerates (.unpacking (.add "command" (.string "reboot") .nil)) (mkSockBuf 11 5 0 none)
        (.add "command" (.string "reboot") .nil) :=
  ⟨by decide +kernel, (request_tolerated_iff (fun _ => rfl) rfl).mpr (by decide +kernel)⟩

/-- The client sends an empty nvlist; the last byte of it ends the daemon. -/
theorem request_aborts : ∃ s, Reach (bmd (.unpacking .nil)) anyStep s ∧
    onRecvSockBuf (.unpacking .nil) 11 { recv := .data [0] } s = .error .abort := by
  obtain ⟨s, hr, h⟩ : ∃ s, Reach (bmd (.unpacking .nil)) anyStep s ∧
      (match onRecvSockBuf (.unpacking .nil) 11 { recv := .data [0] } s with
        | .error .abort => true
        | _ => false) = true :=
    exists_reach [csmVm] [.event 10 { accept := some (some { uid := 1001, groups := [] }) },
      .event 12 { recv := .data [0, 0, 0, 1] }] (by decide +kernel)
  split at h
  · next hab => exact ⟨s, hr, hab⟩
  · cases h

end Bmd
