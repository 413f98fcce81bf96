import Bmd.Correctness.Runs

/-!
# `Correctness.Poweroff` — what a forced power-off reaches

`poweroff_bhyve` looks at the state of the VM: in `LOAD` it kills the process, otherwise it suspends the guest, if the
device can be opened. That is right as long as the state tells the kind of the process. `Matched` holds of every view:
the un-reaped children of a VM are its process, in `LOAD` a loader and in `RUN` a `bhyve`. In `STOP`, `RESTART` and
`REMOVE`, which a shutdown command or a reload writes over `LOAD`, it may be either.
-/

namespace Bmd

open Lib Lib.Prog

variable {st : State} {f : Forced}

/-! ## Calls of `VM_POWEROFF` -/

/-- The call did what the kind of the running child asks for. -/
def Forced.Reaches (f : Forced) : Prop :=
  ∀ p ∈ f.children, (p.kind = .loader → f.sent = some (.kill f.vm p.pid .sigkill true)) ∧
    (p.kind = .bhyve → f.sent = some (.suspend f.vm .poweroff true))

instance (f : Forced) : Decidable f.Reaches :=
  inferInstanceAs (Decidable (∀ p ∈ f.children, (p.kind = .loader → f.sent = some (.kill f.vm p.pid .sigkill true)) ∧
    (p.kind = .bhyve → f.sent = some (.suspend f.vm .poweroff true))))

/-- The VM was being stopped. -/
def Forced.Overwritten (f : Forced) : Prop := f.state = .stop ∨ f.state = .restart ∨ f.state = .remove

instance (f : Forced) : Decidable f.Overwritten :=
  inferInstanceAs (Decidable (f.state = .stop ∨ f.state = .restart ∨ f.state = .remove))

/-- **The call can be right**: it finds no loader in a state that was written over `LOAD`, and if it finds `bhyve`, the
    device of the VM can be opened. -/
def Forced.Apt (f : Forced) : Prop :=
  (f.Overwritten → ∀ p ∈ f.children, p.kind ≠ .loader) ∧ ∀ p ∈ f.children, p.kind = .bhyve → f.opened = true

instance (f : Forced) : Decidable f.Apt :=
  inferInstanceAs (Decidable ((f.Overwritten → ∀ p ∈ f.children, p.kind ≠ .loader) ∧
    ∀ p ∈ f.children, p.kind = .bhyve → f.opened = true))

/-- What a call does in each state. -/
structure Forced.ByState (f : Forced) : Prop where
  busy : f.state ≠ .terminate
  load : f.state = .load →
    ∀ p ∈ f.children, p.kind = .loader ∧ f.sent = some (.kill f.vm p.pid .sigkill true)
  run : f.state = .run → ∀ p ∈ f.children, p.kind = .bhyve
  suspend : f.state ≠ .load → f.sent = some (.suspend f.vm .poweroff f.opened)

theorem Forced.ByState.reaches_iff (h : f.ByState) : f.Reaches ↔ f.Apt := by
  constructor
  · intro hr
    refine ⟨fun hst p hp hk => ?_, fun p hp hk => ?_⟩
    · have hne : f.state ≠ .load := by rcases hst with h | h | h <;> rw [h] <;> decide
      have hkill := (hr p hp).1 hk
      rw [h.suspend hne] at hkill
      cases hkill
    · have hne : f.state ≠ .load := by
        intro hload
        rw [(h.load hload p hp).1] at hk
        cases hk
      have hsent := (hr p hp).2 hk
      rw [h.suspend hne] at hsent
      injection hsent with hsent
      injection hsent
  · rintro ⟨hno, hopen⟩ p hp
    by_cases hload : f.state = .load
    · obtain ⟨hk, hsent⟩ := h.load hload p hp
      exact ⟨fun _ => hsent, fun hb => by rw [hk] at hb; cases hb⟩
    · refine ⟨fun hk => ?_, fun hk => by rw [h.suspend hload, hopen p hp hk]⟩
      by_cases hrun : f.state = .run
      · rw [h.run hrun p hp] at hk
        cases hk
      · have hst : f.Overwritten := by
          have hterm := h.busy
          unfold Forced.Overwritten
          cases hf : f.state <;> simp_all
        exact absurd hk (hno hst p hp)

/-! ## The invariant -/

namespace View

/-- **The children of a VM match its state**, as far as the state tells. -/
structure Matched (v : View) : Prop where
  pid : ∀ p ∈ v.procs, p.pid = v.pid
  load : v.state = some .load → ∀ p ∈ v.procs, p.kind = .loader
  run : v.state = some .run → ∀ p ∈ v.procs, p.kind = .bhyve
  idle : v.state = none ∨ v.state = some .terminate → v.procs = []
  forced : ∀ f ∈ v.forced, f.ByState

variable {a : Addr} {v w : View} {opened : Bool}

theorem Matched.of_vacant (hp : w.procs = []) (hf : ∀ f ∈ w.forced, f.ByState) : w.Matched where
  pid := by rw [hp]; exact List.forall_mem_nil _
  load _ := by rw [hp]; exact List.forall_mem_nil _
  run _ := by rw [hp]; exact List.forall_mem_nil _
  idle _ := hp
  forced := hf

/-- Children may go. -/
theorem Matched.of_subset (h : v.Matched) (hst : w.state = v.state) (hpid : w.pid = v.pid)
    (hp : w.procs ⊆ v.procs) (hf : w.forced = v.forced) : w.Matched where
  pid p hm := (h.pid p (hp hm)).trans hpid.symm
  load hs p hm := h.load (hst ▸ hs) p (hp hm)
  run hs p hm := h.run (hst ▸ hs) p (hp hm)
  idle hs := List.subset_nil.mp (h.idle (hst ▸ hs) ▸ hp)
  forced := hf ▸ h.forced

theorem Matched.of_same (h : v.Matched) (hst : w.state = v.state) (hpid : w.pid = v.pid)
    (hp : w.procs = v.procs) (hf : w.forced = v.forced) : w.Matched :=
  h.of_subset hst hpid (hp ▸ List.Subset.refl _) hf

/-- A state in which the process may be of either kind. -/
theorem Matched.overwrite (h : v.Matched) (hst : st = .stop ∨ st = .restart ∨ st = .remove) :
    (v.setState a st).Matched where
  pid := h.pid
  load hs := by cases hs; rcases hst with hst | hst | hst <;> cases hst
  run hs := by cases hs; rcases hst with hst | hst | hst <;> cases hst
  idle hs := by
    rcases hs with hs | hs
    · cases hs
    · cases hs
      rcases hst with hst | hst | hst <;> cases hst
  forced := h.forced

/-- Once its process is reaped, a VM has no child. -/
theorem Matched.reap_self (h : v.Matched) : (v.reap v.pid).procs = [] := by
  refine List.filter_eq_nil_iff.mpr fun p hp => ?_
  simp [h.pid p hp]

/-- The call that a matched view makes. -/
theorem Matched.forcing (h : v.Matched) (hst : v.state = some st) (hne : st ≠ .terminate) :
    (v.forcing a opened).ByState := by
  have hstate : (v.forcing a opened).state = st := by
    show v.state.getD .terminate = st
    rw [hst]
    rfl
  have hmem : ∀ {p}, p ∈ (v.forcing a opened).children → p ∈ v.procs := fun hp => (List.mem_filter.mp hp).1
  constructor
  · rw [hstate]
    exact hne
  · intro hload p hp
    have hl : v.state = some .load := by rw [hst, ← hstate, hload]
    refine ⟨h.load hl p (hmem hp), ?_⟩
    have hchild : v.isChild v.pid = true := List.any_eq_true.mpr ⟨p, hmem hp, by simp [h.pid p (hmem hp)]⟩
    show some (v.force a opened) = _
    rw [force, if_pos hl, hchild, h.pid p (hmem hp)]
    rfl
  · intro hrun p hp
    exact h.run (by rw [hst, ← hstate, hrun]) p (hmem hp)
  · intro hload
    have hl : v.state ≠ some .load := by
      rw [hst, ← hstate]
      simpa using hload
    show some (v.force a opened) = _
    rw [force, if_neg hl]
    simp only [View.forcing, hl, decide_false, Bool.false_or]

theorem Matched.poweroff (h : v.Matched) (hst : v.state = some st) (hne : st ≠ .terminate) :
    (v.poweroff a opened).Matched :=
  ⟨h.pid, h.load, h.run, h.idle, List.forall_mem_cons.mpr ⟨h.forcing hst hne, h.forced⟩⟩

end View

open View

variable {env : Env} {theft : Prop} {a : Addr} {v w : View}

/-! ## Moves -/

theorem Supervised.matched (h : Supervised env a v w) (hv : v.Matched) (hst : v.state = some st)
    (hne : st ≠ .terminate) : w.Matched := by
  cases h with
  | waiting | timed => exact hv.of_same rfl rfl rfl rfl
  | @abandoned wait opened _ =>
    have hwait : (v.waitIf wait v.pid).Matched := by cases wait <;> exact hv.of_same rfl rfl rfl rfl
    have hstate : (v.waitIf wait v.pid).state = some st := by cases wait <;> exact hst
    have hpid : (v.waitIf wait v.pid).pid = v.pid := by cases wait <;> rfl
    have hoff : ((v.waitIf wait v.pid).poweroff a opened).Matched := hwait.poweroff hstate hne
    have hreap : (((v.waitIf wait v.pid).poweroff a opened).reap (v.waitIf wait v.pid).pid).procs = [] := hoff.reap_self
    rw [hpid] at hreap
    exact .of_vacant hreap hoff.forced

/-- A start finds no process and leaves one that matches the state. -/
theorem Starts.matched (h : Starts env a v w) (hp : v.procs = []) (hf : ∀ f ∈ v.forced, f.ByState) : w.Matched := by
  cases h with
  | refused | failed => exact .of_vacant hp hf
  | @started _ p st _ hst hw =>
    have hprocs : ∀ {P : Proc → Prop}, P p → ∀ q ∈ p :: v.procs, P q := by
      intro P hP q hq
      rw [hp] at hq
      exact List.mem_singleton.mp hq ▸ hP
    have hne : st ≠ .terminate := by rcases hst with ⟨rfl, -⟩ | ⟨rfl, -⟩ <;> decide
    refine hw.matched ?_ rfl hne
    constructor
    · exact hprocs rfl
    · intro hs
      obtain rfl : st = .load := Option.some.inj hs
      rcases hst with ⟨hst, -⟩ | ⟨-, hk, -⟩
      · cases hst
      · exact hprocs hk
    · intro hs
      obtain rfl : st = .run := Option.some.inj hs
      rcases hst with ⟨-, hk⟩ | ⟨hst, -⟩
      · exact hprocs hk
      · cases hst
    · intro hs
      rcases hs with hs | hs
      · cases hs
      · exact absurd (Option.some.inj hs) hne
    · exact hf

theorem Fires.matched (h : Fires env a v w) (hv : v.Matched) : w.Matched := by
  cases h with
  | start hst h => exact h.matched (hv.idle (.inr hst)) hv.forced
  | poweroff hst hne => exact hv.poweroff hst hne
  | ignored => exact hv

/-- The process was reaped before. -/
theorem Exits.matched (h : Exits env a v w) (hp : v.procs = []) (hf : ∀ f ∈ v.forced, f.ByState) : w.Matched := by
  cases h with
  | loaded _ h | rebooted _ h => exact h.matched hp hf
  | loadFailed | stopped | restarting | removed | stale => exact .of_vacant hp hf

theorem Redirects.overwrites {st' : State} (h : Redirects st st') : st' = .stop ∨ st' = .restart ∨ st' = .remove := by
  cases st <;> cases st' <;> first | exact h.elim | decide

/-- **One move.** -/
theorem Life.matched (hv : v.Matched) (h : Life env theft a v w) : w.Matched := by
  cases h with
  | childExit pid status =>
    -- the exit status is all that changes
    have hmem : ∀ {P : Proc → Prop}, (∀ p : Proc, P p → P { p with status := some status }) →
        (∀ p ∈ v.procs, P p) → ∀ p ∈ v.procs.map fun p => if p.pid == pid then { p with status := some status } else p,
          P p := by
      intro P hP hall p hp
      obtain ⟨q, hq, rfl⟩ := List.mem_map.mp hp
      split
      · exact hP q (hall q hq)
      · exact hall q hq
    refine ⟨hmem (fun _ => id) hv.pid, fun hs => hmem (fun _ => id) (hv.load hs),
      fun hs => hmem (fun _ => id) (hv.run hs), fun hs => ?_, hv.forced⟩
    show v.procs.map _ = []
    rw [hv.idle hs]
    rfl
  | stolen pid => exact hv.of_subset rfl rfl (List.filter_subset_self _) rfl
  | timer _ _ h => exact h.matched (hv.of_same rfl rfl rfl rfl)
  | exit _ _ _ _ _ h => exact h.matched hv.reap_self hv.forced
  | output | schedule | downIdle | reset | terminating | boot | reload => exact hv.of_same rfl rfl rfl rfl
  | create hu => exact .of_vacant hu.procs hv.forced
  | start _ hst h => exact h.matched (hv.idle (.inr hst)) hv.forced
  | @stopFor st st' t ok _ hst hst' =>
    have hreq : (v.requestStop a t ok).Matched := hv.of_same rfl rfl rfl rfl
    exact hreq.overwrite hst'
  | @shutdown st t ok hst =>
    have hreq : ((v.note (.down a st v.timers)).requestStop a t ok).Matched := hv.of_same rfl rfl rfl rfl
    exact hreq.overwrite (.inl rfl)
  | @poweroff st opened hst =>
    have hnote : (v.note (.down a st v.timers)).Matched := hv.of_same rfl rfl rfl rfl
    have hne : st ≠ .terminate := by rcases hst.2 with rfl | rfl <;> decide
    exact (hnote.poweroff hst.1 hne).overwrite (.inl rfl)
  | redirect _ _ h => exact hv.overwrite h.overwrites
  | drop _ hst => exact .of_vacant (hv.idle (.inr hst)) hv.forced

/-! ## Runs -/

variable {s : Daemon} {ok : Daemon → Input → Prop}

theorem reach_matched (h : Reach (bmd env) ok s) (a : Addr) : (s.view a).Matched :=
  reach_life True (P := fun _ v => v.Matched) (fun _ => .of_vacant rfl (List.forall_mem_nil _))
    (fun _ _ _ hv hl => hl.matched hv) (fun _ _ _ _ _ _ _ => trivial) h a

/-- Every call is in the view of its VM. -/
theorem mem_view_forced (h : f ∈ s.forced) : f ∈ (s.view f.vm).forced :=
  List.mem_filter.mpr ⟨h, beq_self_eq_true _⟩

/-- **A forced power-off reaches the process that is running**, in every run and whatever the system answers, exactly
    if no call finds a loader running while the VM is in `STOP`, `RESTART` or `REMOVE`, and none that finds `bhyve`
    running fails to open the device. -/
theorem poweroff_reaches_iff (h : Reach (bmd env) ok s) :
    (∀ f ∈ s.forced, f.Reaches) ↔ ∀ f ∈ s.forced,
      (f.state = .stop ∨ f.state = .restart ∨ f.state = .remove → ∀ p ∈ f.children, p.kind ≠ .loader) ∧
        ∀ p ∈ f.children, p.kind = .bhyve → f.opened = true := by
  refine forall₂_congr fun f hf => ?_
  exact ((reach_matched h f.vm).forced f (mem_view_forced hf)).reaches_iff

/-- The timer of a loader expires and the loader is killed. -/
theorem poweroff_reaches_loader : ∃ s, Reach (bmd .ideal) anyStep s ∧
    s.forced.map (fun f => (f.state, f.children.map (·.kind))) = [(.load, [.loader])] ∧ ∀ f ∈ s.forced, f.Reaches := by
  obtain ⟨s, hr, hload, hapt⟩ : ∃ s, Reach (bmd .ideal) anyStep s ∧
      s.forced.map (fun f => (f.state, f.children.map (·.kind))) = [(.load, [.loader])] ∧ ∀ f ∈ s.forced, f.Apt :=
    exists_reach [(VmConf.section "a" "bhyveload" .yes).load] [.event 10 {}] (by decide +kernel)
  exact ⟨s, hr, hload, (poweroff_reaches_iff hr).mpr hapt⟩

/-- A VM that is still loading is shut down by a command, and the loader outlives the stop timer: the guest, which does
    not run yet, is suspended, and the loader is left alone. -/
theorem poweroff_misses_loader : ∃ s, Reach (bmd .ideal) anyStep s ∧
    ∃ f ∈ s.forced, f.children.map (·.kind) = [.loader] ∧ f.sent = some (.suspend f.vm .poweroff true) ∧ ¬f.Reaches :=
  exists_reach [(VmConf.section "a" "bhyveload" .yes).load] (clientSends 11 13 1 none ++ [.event 15 {}])
    (by decide +kernel)

end Bmd
