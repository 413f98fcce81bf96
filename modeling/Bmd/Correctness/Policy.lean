import Bmd.Correctness.Timers

/-!
# `Correctness.Policy` — automatic restarts and the boot policy

Without a boot command and without a reload, a VM is started when the daemon starts (at once or by the timer of
`boot_delay`) and by `on_vm_exit`. So its life ends with the first exit that `on_vm_exit` does not answer with a start:
the VM is then *retired*. `Abides` carries this along the moves of a view, with how often the VM has been put in `RUN`.

The policy itself is another matter. `on_vm_exit` starts a `oneshot` VM again whose guest reboots, and an `always` VM
whose `bhyve` ends with an error. And a start that is given up after the fork leaves the VM in `TERMINATE` with the
timers it had, of which one starts it once more: that is why events must be registered without failure.
-/

namespace Bmd

open Lib Lib.Prog

variable {r : Exited}

/-! ## The policy -/

/-- The action is a boot command or a reload. -/
def Action.isOrder : Action → Bool
  | .boot _ | .reload => true
  | _ => false

/-- The VM at `a` is put in `RUN`. -/
def Action.entersRun (a : Addr) : Action → Bool
  | .state b _ new _ _ => new == .run && b == a
  | _ => false

/-- The number of a process that the VM at `a` gets. -/
def Action.spawned? (a : Addr) : Action → Option Nat
  | .spawn b n _ => if b = a then some n else none
  | _ => none

/-- How often the VM has been put in `RUN`. -/
def Daemon.runs (s : Daemon) (a : Addr) : Nat := (s.log.filter (·.entersRun a)).length

/-- The VM got a process after the exit. -/
def Daemon.StartedAfter (s : Daemon) (r : Exited) : Prop := ∃ n ∈ s.log.filterMap (·.spawned? r.vm), r.serial < n

instance (s : Daemon) (r : Exited) : Decidable (s.StartedAfter r) :=
  inferInstanceAs (Decidable (∃ n ∈ s.log.filterMap (·.spawned? r.vm), r.serial < n))

/-- The process exited by itself, and not with one of the exit codes that stand for an error. -/
def Exited.Success (isError : Nat → Bool) (r : Exited) : Prop :=
  wifexited r.status = true ∧ isError (wexitstatus r.status) = false

instance (isError : Nat → Bool) (r : Exited) : Decidable (r.Success isError) :=
  inferInstanceAs (Decidable (wifexited r.status = true ∧ isError (wexitstatus r.status) = false))

/-- **The documented boot policy.** -/
structure Daemon.FollowsPolicy (isError : Nat → Bool) (s : Daemon) : Prop where
  /-- It boots once and never reboots. -/
  oneshot : ∀ a, (s.vmConf a).boot = .oneshot → s.runs a ≤ 1
  /-- It does not reboot after an error. -/
  always : ∀ r ∈ s.exits, (s.vmConf r.vm).boot = .always → r.state = .run → s.StartedAfter r → r.Success isError
  /-- An installation ends with the exit. -/
  install : ∀ r ∈ s.exits, r.conf.install = true → r.state = .run → ¬s.StartedAfter r

/-- The exit of a running VM is one for which `on_vm_exit` decides as the policy does. -/
structure Daemon.Agrees (isError : Nat → Bool) (s : Daemon) (r : Exited) : Prop where
  oneshot : (s.vmConf r.vm).boot = .oneshot → r.again = false
  always : (s.vmConf r.vm).boot = .always → wifexited r.status = true → isError (wexitstatus r.status) = false

instance (isError : Nat → Bool) (s : Daemon) (r : Exited) : Decidable (s.Agrees isError r) :=
  decidable_of_iff (((s.vmConf r.vm).boot = .oneshot → r.again = false) ∧
      ((s.vmConf r.vm).boot = .always → wifexited r.status = true → isError (wexitstatus r.status) = false))
    ⟨fun h => ⟨h.1, h.2⟩, fun h => ⟨h.oneshot, h.always⟩⟩

theorem Exited.install_of_again (h : r.again = true) : r.conf.install = false := by
  simp only [Exited.again, VmConf.restarts, Bool.and_eq_true, Bool.not_eq_true'] at h
  exact h.1.1

theorem Exited.wifexited_of_again (h : r.again = true) : wifexited r.status = true := by
  simp only [Exited.again, VmConf.restarts, Bool.and_eq_true] at h
  exact h.1.2

/-! ## The invariant -/

/-- `on_vm_exit` does not answer the exit with a start. -/
def Exited.Final (r : Exited) : Prop := r.state = .stop ∨ (r.state = .run ∧ r.again = false)

theorem Exited.not_final (hs : r.state ≠ .stop) (hr : r.state = .run → r.again = true) : ¬r.Final := by
  rintro (h | ⟨h, hfalse⟩)
  · exact hs h
  · rw [hr h] at hfalse
    cases hfalse

namespace View

/-- Neither a boot command nor a reload. -/
def Quiet (v : View) : Prop := ∀ x ∈ v.log, x.isOrder = false

def runs (a : Addr) (v : View) : Nat := (v.log.filter (·.entersRun a)).length

def spawns (a : Addr) (v : View) : List Nat := v.log.filterMap (·.spawned? a)

/-- Nothing is left that starts the VM. -/
structure Retired (v : View) : Prop where
  state : v.state = some .terminate
  timers : v.timers = []
  last : ¬v.Commanded

/-- No exit of a running VM asks for a start. -/
def NeverAgain (v : View) : Prop := ∀ r ∈ v.exits, r.state = .run → r.again = false

/-- The VM is in none of the states that only a reload brings about. -/
def Modest (v : View) : Prop := v.state ≠ some .restart ∧ v.state ≠ some .remove

/-- What holds of every view without boot commands and reloads. -/
structure Abides (a : Addr) (v : View) : Prop where
  modest : v.Modest
  spawned : ∀ n ∈ v.spawns a, n ≤ v.serial
  final : ∀ r ∈ v.exits, r.Final → v.Retired ∧ v.serial ≤ r.serial
  once : v.NeverAgain → v.runs a ≤ 1 ∧
    (v.runs a ≠ 0 → v.state = some .run ∨ v.state = some .stop ∨ v.Retired)

/-- The same of a view that may still be started. -/
structure Open (a : Addr) (v : View) : Prop where
  modest : v.Modest
  spawned : ∀ n ∈ v.spawns a, n ≤ v.serial
  final : ∀ r ∈ v.exits, ¬r.Final
  once : v.NeverAgain → v.runs a ≤ 1 ∧ (v.runs a ≠ 0 → v.state = some .run ∨ v.state = some .stop)

variable {a : Addr} {v w : View}

theorem modest_of {st : State} (h : v.state = some st) (hres : st ≠ .restart) (hrem : st ≠ .remove) : v.Modest := by
  unfold Modest
  rw [h]
  exact ⟨fun h => hres (Option.some.inj h), fun h => hrem (Option.some.inj h)⟩

theorem Abides.to_open (h : v.Abides a) (hne : ¬v.Retired) : v.Open a where
  modest := h.modest
  spawned := h.spawned
  final r hr hf := hne (h.final r hr hf).1
  once hn := by
    obtain ⟨hle, hst⟩ := h.once hn
    refine ⟨hle, fun h0 => ?_⟩
    rcases hst h0 with hst | hst | hst
    · exact .inl hst
    · exact .inr hst
    · exact absurd hst hne

theorem Open.abides (h : v.Open a) : v.Abides a where
  modest := h.modest
  spawned := h.spawned
  final r hr hf := absurd hf (h.final r hr)
  once hn := by
    obtain ⟨hle, hst⟩ := h.once hn
    refine ⟨hle, fun h0 => ?_⟩
    rcases hst h0 with hst | hst
    · exact .inl hst
    · exact .inr (.inl hst)

/-- A move that starts nothing. -/
theorem Open.move (h : v.Open a) (hmod : w.Modest)
    (hsp : w.spawns a = v.spawns a) (hser : w.serial = v.serial) (hx : w.exits = v.exits)
    (hruns : w.runs a = v.runs a)
    (hst : v.state = some .run ∨ v.state = some .stop → w.state = some .run ∨ w.state = some .stop) : w.Open a where
  modest := hmod
  spawned n hn := by
    rw [hser]
    exact h.spawned n (hsp ▸ hn)
  final := hx ▸ h.final
  once hn := by
    have hn' : v.NeverAgain := fun r hr => hn r (hx ▸ hr)
    obtain ⟨hle, hst'⟩ := h.once hn'
    rw [hruns]
    exact ⟨hle, fun h0 => hst (hst' h0)⟩

/-- A move that does not change the state either. -/
theorem Open.of_same (h : v.Open a) (hst : w.state = v.state) (hsp : w.spawns a = v.spawns a)
    (hser : w.serial = v.serial) (hx : w.exits = v.exits) (hruns : w.runs a = v.runs a) : w.Open a :=
  h.move (by unfold Modest; rw [hst]; exact h.modest) hsp hser hx hruns (fun h => hst ▸ h)

/-- An exit that asks for a start. -/
theorem Open.exited (h : v.Open a) (hr : ¬r.Final) : (v.exited r).Open a where
  modest := h.modest
  spawned := h.spawned
  final := List.forall_mem_cons.mpr ⟨hr, h.final⟩
  once hn := h.once fun q hq => hn q (List.mem_cons_of_mem _ hq)

/-- An exit that does not: the VM retires. -/
theorem Open.retire (h : v.Open a) (hw : w.Retired) (hsp : w.spawns a = v.spawns a)
    (hser : w.serial = v.serial) (hx : w.exits = r :: v.exits) (hruns : w.runs a = v.runs a)
    (hr : v.serial = r.serial) : w.Abides a where
  modest := modest_of hw.state (by decide) (by decide)
  spawned n hn := by
    rw [hser]
    exact h.spawned n (hsp ▸ hn)
  final := by
    rw [hx]
    intro q hq hf
    rcases List.mem_cons.mp hq with rfl | hq
    · exact ⟨hw, Nat.le_of_eq (hser.trans hr)⟩
    · exact absurd hf (h.final q hq)
  once hn := by
    have hn' : v.NeverAgain := fun q hq => hn q (hx ▸ List.mem_cons_of_mem _ hq)
    rw [hruns]
    exact ⟨(h.once hn').1, fun _ => .inr (.inr hw)⟩

theorem Quiet.not_recalled (h : v.Quiet) : ¬v.Recalled := by
  intro hrec
  have := h _ (List.mem_of_find?_eq_some hrec)
  cases this

/-- After an event of the VM, nothing that the start of the daemon does is left. -/
theorem not_commanded_deliver {x : Action} (hlast : v.last = some x) (hx : ∀ b, x ≠ .boot b) (hr : x ≠ .reload) :
    ¬v.Commanded := by
  intro hc
  rcases hc x hlast with h | ⟨b, h⟩
  · exact hr h
  · exact hx b h

@[simp] theorem runs_poweroff {opened : Bool} : (v.poweroff a opened).runs a = v.runs a := by
  show (List.filter _ (v.force a opened :: .poweroff a v.serial :: v.log)).length = _
  rw [List.filter_cons_of_neg]
  · rfl
  · exact force_cases (P := fun x => ¬x.entersRun a = true) (fun _ => Bool.false_ne_true) (fun _ => Bool.false_ne_true)

@[simp] theorem spawns_poweroff {opened : Bool} : (v.poweroff a opened).spawns a = v.spawns a := by
  show List.filterMap _ (v.force a opened :: .poweroff a v.serial :: v.log) = _
  rw [List.filterMap_cons_none]
  · rfl
  · exact force_cases (P := fun x => x.spawned? a = none) (fun _ => rfl) (fun _ => rfl)

end View

open View

variable {env : Env} {theft : Prop} {a : Addr} {v w : View}

/-! ## Moves -/

/-- A start puts the VM in `RUN` at most once. -/
theorem Starts.abides (hreg : env.Registers) (h : Starts env a v w) (hv : v.Open a)
    (hst : v.NeverAgain → v.state ≠ some .run ∧ v.state ≠ some .stop) : w.Abides a := by
  have hnone : v.NeverAgain → v.runs a = 0 := by
    intro hn
    by_contra h0
    rcases (hv.once hn).2 h0 with hrun | hstop
    · exact (hst hn).1 hrun
    · exact (hst hn).2 hstop
  cases h with
  | refused => exact hv.abides
  | failed =>
    refine ⟨modest_of rfl (by decide) (by decide), hv.spawned, fun r hr hf => absurd hf (hv.final r hr), fun hn => ?_⟩
    have hzero : (v.setState a .terminate).runs a = 0 := hnone hn
    rw [hzero]
    exact ⟨Nat.zero_le 1, fun h0 => absurd rfl h0⟩
  | @started _ p st hp hst' hw =>
    -- the view with the new process, before it is supervised
    have hopen : ((v.spawn a p).setState a st).Open a := by
      have hspawns : ((v.spawn a p).setState a st).spawns a = p.serial :: v.spawns a := by
        show List.filterMap _ (.state a _ st _ _ :: .spawn a p.serial p.kind :: v.log) = _
        rw [List.filterMap_cons_none rfl, List.filterMap_cons_some (b := p.serial)]
        · rfl
        · simp [Action.spawned?]
      refine ⟨?_, ?_, hv.final, fun hn => ?_⟩
      · rcases hst' with ⟨rfl, -⟩ | ⟨rfl, -⟩ <;> exact modest_of rfl (by decide) (by decide)
      · rw [hspawns]
        exact List.forall_mem_cons.mpr
          ⟨Nat.le_refl _, fun n hn => Nat.le_of_lt (Nat.lt_of_le_of_lt (hv.spawned n hn) hp.serial)⟩
      · have hzero : v.runs a = 0 := hnone hn
        rcases hst' with ⟨rfl, -⟩ | ⟨rfl, -⟩
        · have hone : ((v.spawn a p).setState a .run).runs a = v.runs a + 1 := by
            show (List.filter _ (.state a _ .run _ _ :: .spawn a p.serial p.kind :: v.log)).length = _
            rw [List.filter_cons_of_pos (by simp [Action.entersRun])]
            rfl
          rw [hone, hzero]
          exact ⟨Nat.le_refl 1, fun _ => .inl rfl⟩
        · have hsame : ((v.spawn a p).setState a .load).runs a = v.runs a := rfl
          rw [hsame, hzero]
          exact ⟨Nat.zero_le 1, fun h0 => absurd rfl h0⟩
    cases hw with
    | waiting | timed =>
      apply Open.abides
      exact hopen.of_same rfl rfl rfl rfl rfl
    | abandoned h => exact absurd hreg h

theorem Fires.abides (hreg : env.Registers) (h : Fires env a v w) (hv : v.Open a) : w.Abides a := by
  cases h with
  | start hst h =>
    refine h.abides hreg hv fun _ => ?_
    rw [hst]
    exact ⟨by decide, by decide⟩
  | poweroff =>
    apply Open.abides
    exact hv.of_same rfl spawns_poweroff rfl rfl runs_poweroff
  | ignored => exact hv.abides

/-- The exit `r` is recorded in a view `v` whose last event it is. -/
theorem Exits.abides (hreg : env.Registers) (h : Exits env a (v.exited r) w) (hv : v.Open a)
    (hlast : ¬v.Commanded) (hst : v.state = some r.state) (hser : v.serial = r.serial) : w.Abides a := by
  have hstate : (v.exited r).state = some r.state := hst
  cases h with
  | loaded hload h =>
    rw [hstate] at hload
    have hr : r.state = .load := Option.some.inj hload
    have hnf : ¬r.Final := Exited.not_final (by rw [hr]; decide) (fun h => by rw [hr] at h; cases h)
    refine h.abides hreg (hv.exited hnf) fun _ => ?_
    rw [hstate, hr]
    exact ⟨by decide, by decide⟩
  | loadFailed hload =>
    rw [hstate] at hload
    have hr : r.state = .load := Option.some.inj hload
    have hnf : ¬r.Final := Exited.not_final (by rw [hr]; decide) (fun h => by rw [hr] at h; cases h)
    apply Open.abides
    refine (hv.exited hnf).move (modest_of rfl (by decide) (by decide)) rfl rfl rfl rfl fun h => ?_
    rw [hstate, hr] at h
    rcases h with h | h <;> cases h
  | rebooted hrun h hagain =>
    rw [hstate] at hrun
    have hr : r.state = .run := Option.some.inj hrun
    have hyes : r.again = true := hagain r rfl
    have hnf : ¬r.Final := Exited.not_final (by rw [hr]; decide) (fun _ => hyes)
    refine h.abides hreg (hv.exited hnf) fun hn => ?_
    -- the start is one that a VM without restarts does not get
    have hno := hn r List.mem_cons_self hr
    rw [hyes] at hno
    cases hno
  | stopped =>
    exact hv.retire ⟨rfl, rfl, hlast⟩ rfl rfl rfl rfl hser
  | restarting hres => exact absurd hres hv.modest.1
  | removed hrem => exact absurd hrem hv.modest.2
  | stale hterm =>
    rw [hstate] at hterm
    have hr : r.state = .terminate := Option.some.inj hterm
    have hnf : ¬r.Final := Exited.not_final (by rw [hr]; decide) (fun h => by rw [hr] at h; cases h)
    exact (hv.exited hnf).abides

/-- A retired VM stays so. -/
theorem Life.abides_retired (hq : w.Quiet) (h : Life env theft a v w) (hv : v.Retired) (ha : v.Abides a) : w.Abides a := by
  have hquiet : v.Quiet := fun x hx => hq x (h.suffix.subset hx)
  -- the state is neither `LOAD` nor `RUN`
  have hidle : ∀ {st : State}, ¬v.Active st := by
    rintro st ⟨hst, hor⟩
    rw [hv.state] at hst
    obtain rfl := Option.some.inj hst
    rcases hor with h | h <;> cases h
  -- a move after which the VM is retired as before
  have hkeep : ∀ {w : View}, w.Retired → w.spawns a = v.spawns a → w.serial = v.serial →
      (∀ r ∈ w.exits, r.Final → r ∈ v.exits) → (∀ r ∈ v.exits, r ∈ w.exits) → w.runs a = v.runs a → w.Abides a := by
    intro w hw hsp hser hfin hmem hruns
    refine ⟨modest_of hw.state (by decide) (by decide), fun n hn => ?_, fun r hr hf => ?_, fun hn => ?_⟩
    · rw [hser]
      exact ha.spawned n (hsp ▸ hn)
    · rw [hser]
      exact ⟨hw, (ha.final r (hfin r hr hf) hf).2⟩
    · rw [hruns]
      exact ⟨(ha.once fun r hr => hn r (hmem r hr)).1, fun _ => .inr (.inr hw)⟩
  have hsame : ∀ {w : View}, w.Retired → w.spawns a = v.spawns a → w.serial = v.serial → w.exits = v.exits →
      w.runs a = v.runs a → w.Abides a := by
    intro w hw hsp hser hx hruns
    exact hkeep hw hsp hser (fun r hr _ => hx ▸ hr) (fun r hr => hx ▸ hr) hruns
  cases h with
  | childExit | stolen => exact hsame ⟨hv.state, hv.timers, hv.last⟩ rfl rfl rfl rfl
  | timer hl =>
    rw [hv.timers] at hl
    exact absurd hl.symm (List.append_ne_nil_of_right_ne_nil _ (List.cons_ne_nil _ _))
  | @exit _ p pid l l' st x hl hst hdead hx r hr h =>
    have hterm : st = .terminate := Option.some.inj (hst.symm.trans hv.state)
    have hnew : ¬(((({ v with waits := l ++ l' }.note (.deliver a .onVmExit p st v.serial)).note
        (.wait a pid v.pid x)).reap v.pid).exited r).Commanded :=
      not_commanded_deliver rfl nofun nofun
    have hnf : ¬r.Final := by
      refine Exited.not_final ?_ ?_ <;> rw [hr.1, hterm]
      · decide
      · exact nofun
    cases h with
    | stale =>
      refine hkeep ⟨hv.state, hv.timers, hnew⟩ rfl rfl (fun q hq hf => ?_) (fun q hq => ?_) rfl
      · rcases List.mem_cons.mp hq with rfl | hq
        · exact absurd hf hnf
        · exact hq
      · exact List.mem_cons_of_mem _ hq
    | loaded hload | loadFailed hload => cases hv.state.symm.trans hload
    | rebooted hrun => cases hv.state.symm.trans hrun
    | stopped hst => rcases hst with hst | hst <;> cases hv.state.symm.trans hst
    | restarting hres => cases hv.state.symm.trans hres
    | removed hrem => cases hv.state.symm.trans hrem
  | output | downIdle =>
    exact hsame ⟨hv.state, hv.timers, not_commanded_deliver rfl nofun nofun⟩
      rfl rfl rfl rfl
  | create hu => cases hu.state.symm.trans hv.state
  | schedule hc | start hc => exact absurd hc hv.last
  | stopFor hc | redirect hc | drop hc => exact absurd hc hquiet.not_recalled
  | shutdown hst | poweroff hst | reset hst | terminating hst => exact absurd hst hidle
  | boot | reload =>
    have := hq _ List.mem_cons_self
    cases this

/-- A VM that may still be started. -/
theorem Life.abides_open (hreg : env.Registers) (hq : w.Quiet) (h : Life env theft a v w) (hv : v.Open a) : w.Abides a := by
  have hquiet : v.Quiet := fun x hx => hq x (h.suffix.subset hx)
  cases h with
  | childExit | stolen | output | schedule | downIdle | reset | terminating =>
    exact Open.abides (hv.of_same rfl rfl rfl rfl rfl)
  | timer _ _ h => exact h.abides hreg (hv.of_same rfl rfl rfl rfl rfl)
  | @exit _ p pid l l' st x hl hst hdead hx r hr h =>
    have hopen : ((({ v with waits := l ++ l' }.note (.deliver a .onVmExit p st v.serial)).note
        (.wait a pid v.pid x)).reap v.pid).Open a := hv.of_same rfl rfl rfl rfl rfl
    refine h.abides hreg hopen ?_ (hr.1 ▸ hst) hr.2.symm
    exact not_commanded_deliver rfl nofun nofun
  | create hu =>
    apply Open.abides
    refine hv.move (modest_of rfl (by decide) (by decide)) rfl rfl rfl rfl fun h => ?_
    rw [hu.state] at h
    rcases h with h | h <;> cases h
  | start _ hst h =>
    refine h.abides hreg hv fun _ => ?_
    rw [hst]
    exact ⟨by decide, by decide⟩
  | stopFor hc | redirect hc | drop hc => exact absurd hc hquiet.not_recalled
  | shutdown => exact Open.abides (hv.move (modest_of rfl (by decide) (by decide)) rfl rfl rfl rfl fun _ => .inr rfl)
  | @poweroff st opened hst =>
    have hoff : ((v.note (.down a st v.timers)).poweroff a opened).Open a :=
      hv.of_same rfl spawns_poweroff rfl rfl runs_poweroff
    exact Open.abides (hoff.move (modest_of rfl (by decide) (by decide)) rfl rfl rfl rfl fun _ => .inr rfl)
  | boot | reload =>
    have := hq _ List.mem_cons_self
    cases this

/-- **One move.** -/
theorem Life.abides (hreg : env.Registers) (hq : w.Quiet) (h : Life env theft a v w) (hv : v.Abides a) :
    w.Abides a := by
  by_cases hret : v.Retired
  · exact h.abides_retired hq hret hv
  · exact h.abides_open hreg hq (hv.to_open hret)

/-! ## Runs -/

variable {s : Daemon} {ok : Daemon → Input → Prop}

theorem reach_abides (hreg : env.Registers) (h : Reach (bmd env) ok s) (a : Addr) (hq : (s.view a).Quiet) :
    (s.view a).Abides a := by
  refine reach_life True (P := fun a v => v.Quiet → v.Abides a) (fun a _ => ?_) (fun a v w hv hl hq => ?_)
    (fun _ _ _ _ _ _ _ => trivial) h a hq
  · exact ⟨⟨by decide, by decide⟩, List.forall_mem_nil _, List.forall_mem_nil _,
      fun _ => ⟨Nat.zero_le 1, fun h0 => absurd rfl h0⟩⟩
  · exact hl.abides hreg hq (hv fun x hx => hq x (hl.suffix.subset hx))

theorem view_runs (a : Addr) : (s.view a).runs a = s.runs a := by
  show ((s.log.filter (·.about a)).filter (·.entersRun a)).length = (s.log.filter (·.entersRun a)).length
  rw [List.filter_filter]
  congr 1
  refine List.filter_congr fun x _ => ?_
  cases x <;> simp [Action.entersRun, Action.about, Action.vm?]

theorem view_spawns (a : Addr) : (s.view a).spawns a = s.log.filterMap (·.spawned? a) := by
  show (s.log.filter (·.about a)).filterMap (·.spawned? a) = _
  rw [List.filterMap_filter]
  refine List.filterMap_congr fun x _ => ?_
  cases x <;> simp [Action.spawned?, Action.about, Action.vm?]

/-- Every exit is in the view of its VM. -/
theorem mem_view_exits (h : r ∈ s.exits) : r ∈ (s.view r.vm).exits :=
  List.mem_filter.mpr ⟨h, beq_self_eq_true _⟩

/-- A VM is started after it ran only if `on_vm_exit` did so. -/
theorem again_of_startedAfter (hv : (s.view r.vm).Abides r.vm) (hr : r ∈ s.exits) (hrun : r.state = .run)
    (h : s.StartedAfter r) : r.again = true := by
  obtain ⟨n, hn, hlt⟩ := h
  by_contra hno
  have hfinal : r.Final := .inr ⟨hrun, (Bool.not_eq_true _).mp hno⟩
  have hle : (s.view r.vm).serial ≤ r.serial := (hv.final r (mem_view_exits hr) hfinal).2
  have hnum : n ≤ (s.view r.vm).serial := hv.spawned n (view_spawns r.vm ▸ hn)
  omega

/-- **The boot policy is followed** in every run without boot commands and reloads in which events can be registered and
    every exit of a running VM is one for which `on_vm_exit` decides as the policy does. -/
theorem boot_policy_followed {isError : Nat → Bool} (hreg : env.Registers) (h : Reach (bmd env) ok s)
    (hquiet : ∀ x ∈ s.log, x.isOrder = false) (hagree : ∀ r ∈ s.exits, r.state = .run → s.Agrees isError r) :
    s.FollowsPolicy isError := by
  have habides : ∀ a, (s.view a).Abides a := by
    intro a
    apply reach_abides hreg h a
    intro x hx
    exact hquiet x (List.mem_filter.mp hx).1
  constructor
  · intro a hboot
    have hnever : (s.view a).NeverAgain := by
      intro r hr hrun
      obtain ⟨hr, hvm⟩ := List.mem_filter.mp hr
      rw [← eq_of_beq hvm] at hboot
      exact (hagree r hr hrun).oneshot hboot
    rw [← view_runs]
    exact ((habides a).once hnever).1
  · intro r hr hboot hrun hlater
    have hagain := again_of_startedAfter (habides r.vm) hr hrun hlater
    have hexited := Exited.wifexited_of_again hagain
    exact ⟨hexited, (hagree r hr hrun).always hboot hexited⟩
  · intro r hr hinstall hrun hlater
    have hagain := again_of_startedAfter (habides r.vm) hr hrun hlater
    rw [Exited.install_of_again hagain] at hinstall
    cases hinstall

/-- A `oneshot` VM is powered off and stays down, an `always` VM is started again after it was halted. -/
theorem boot_policy_followed_poweroff : ∃ s, Reach (bmd .ideal) anyStep s ∧
    s.exits.map (fun r => ((s.vmConf r.vm).boot, wexitstatus r.status, decide (s.StartedAfter r))) =
      [(.always, 2, true), (.oneshot, 1, false)] ∧ s.FollowsPolicy (· == 4) := by
  obtain ⟨s, hr, hexits, hquiet, hagree⟩ : ∃ s, Reach (bmd .ideal) anyStep s ∧
      s.exits.map (fun r => ((s.vmConf r.vm).boot, wexitstatus r.status, decide (s.StartedAfter r))) =
        [(.always, 2, true), (.oneshot, 1, false)] ∧
      (∀ x ∈ s.log, x.isOrder = false) ∧ ∀ r ∈ s.exits, r.state = .run → s.Agrees (· == 4) r :=
    exists_reach [(VmConf.section "a" "csm" .oneshot).load, (VmConf.section "b" "csm" .always).load]
      [.procExit 1 256, .event 8 {}, .procExit 2 512, .event 13 {}] (by decide +kernel)
  exact ⟨s, hr, hexits, boot_policy_followed Env.ideal_reliable.toRegisters hr hquiet hagree⟩

/-- **The policy is violated** in three ways, each without a boot command and without a reload. A `oneshot` VM whose
    guest reboots is put in `RUN` again. An `always` VM is started again after its `bhyve` ended with exit code 4, an
    error. And if one `kevent` fails after `bhyve` was forked, the timer of the loader, which is over, starts a `oneshot`
    VM for the second time. -/
theorem boot_policy_violated :
    (∃ s, Reach (bmd .ideal) anyStep s ∧ (∀ x ∈ s.log, x.isOrder = false) ∧
      (s.vmConf 5).boot = .oneshot ∧ s.runs 5 = 2 ∧ ¬s.FollowsPolicy (· == 4)) ∧
    (∃ s, Reach (bmd .ideal) anyStep s ∧ (∀ x ∈ s.log, x.isOrder = false) ∧
      (∃ r ∈ s.exits, (s.vmConf r.vm).boot = .always ∧ wexitstatus r.status = 4 ∧ s.StartedAfter r) ∧
      ¬s.FollowsPolicy (· == 4)) ∧
    ∃ s, Reach (bmd { Env.ideal with kevent := (· != 33) }) anyStep s ∧ (∀ x ∈ s.log, x.isOrder = false) ∧
      (∀ r ∈ s.exits, r.state = .load) ∧ (s.vmConf 5).boot = .oneshot ∧ s.runs 5 = 2 ∧
      ¬s.FollowsPolicy (· == 4) := by
  have htwice : ∀ {s : Daemon}, (s.vmConf 5).boot = .oneshot → s.runs 5 = 2 → ¬s.FollowsPolicy (· == 4) := by
    intro s hboot hruns h
    have hle := h.oneshot 5 hboot
    rw [hruns] at hle
    exact absurd hle (by decide)
  refine ⟨?_, ?_, ?_⟩
  · obtain ⟨s, hr, hquiet, hboot, hruns⟩ : ∃ s, Reach (bmd .ideal) anyStep s ∧ (∀ x ∈ s.log, x.isOrder = false) ∧
        (s.vmConf 5).boot = .oneshot ∧ s.runs 5 = 2 :=
      exists_reach [(VmConf.section "a" "csm" .oneshot).load] [.procExit 1 0, .event 7 {}] (by decide +kernel)
    exact ⟨s, hr, hquiet, hboot, hruns, htwice hboot hruns⟩
  · obtain ⟨s, hr, hquiet, r, hmem, hrun, hboot, hcode, hlater⟩ : ∃ s, Reach (bmd .ideal) anyStep s ∧
        (∀ x ∈ s.log, x.isOrder = false) ∧ ∃ r ∈ s.exits, r.state = .run ∧ (s.vmConf r.vm).boot = .always ∧
          wexitstatus r.status = 4 ∧ s.StartedAfter r :=
      exists_reach [(VmConf.section "a" "csm" .always).load] [.procExit 1 1024, .event 7 {}] (by decide +kernel)
    refine ⟨s, hr, hquiet, ⟨r, hmem, hboot, hcode, hlater⟩, fun h => ?_⟩
    have herror := (h.always r hmem hboot hrun hlater).2
    rw [hcode] at herror
    cases herror
  · obtain ⟨s, hr, hquiet, hload, hboot, hruns⟩ : ∃ s,
        Reach (bmd { Env.ideal with kevent := (· != 33) }) anyStep s ∧ (∀ x ∈ s.log, x.isOrder = false) ∧
        (∀ r ∈ s.exits, r.state = .load) ∧ (s.vmConf 5).boot = .oneshot ∧ s.runs 5 = 2 :=
      exists_reach [(VmConf.section "a" "bhyveload" .oneshot).load]
        [.procExit 1 0, .event 7 {}, .event 10 {}, .procExit 1 0, .event 15 {}] (by decide +kernel)
    exact ⟨s, hr, hquiet, hload, hboot, hruns, htwice hboot hruns⟩

end Bmd
