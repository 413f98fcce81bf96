import Bmd.Correctness.Runs
import Bmd.Lib.System

/-!
# `Correctness.Shutdown` — a shutdown sticks

`rest` reads the log of a VM and says where the last shutdown has got to: it is not in force (`free`), the
process is still there (`stopping`), or the VM is down (`ended`). A boot or install command and a reload end it.
A shutdown that finds the VM in `RESTART`, or in `TERMINATE` with a pending timer, is answered with success and
has no effect, so it does not count.

While a shutdown is in force, nothing starts the VM: `Restful` is kept by every move of `Life`, in any
environment.
-/

namespace Bmd

open Lib Lib.Prog

variable {env : Env} {theft : Prop} {a : Addr} {x : Action} {b : Addr}

/-! ## The monitor -/

/-- How far the last shutdown of a VM has got. -/
inductive Rest where
  | free | stopping | ended
  deriving DecidableEq, Repr

/-- What an action means for the shutdown in force. -/
def Action.rest : Action → Rest → Rest
  | .down _ .terminate [], _ => .ended
  | .down _ .terminate _, prev => prev
  | .down _ .restart _, prev => prev
  | .down .., prev => if prev = .ended then .ended else .stopping
  | .boot _, _ => .free
  | .reload, _ => .free
  | .wait .., prev => if prev = .stopping then .ended else prev
  | _, prev => prev

/-- The shutdown in force after a log. -/
def rest (log : List Action) : Rest := monitor Action.rest .free log

theorem rest_cons (x : Action) (r : List Action) : rest (x :: r) = x.rest (rest r) := rfl

/-- The shutdown is one that `vm_down_command` carries out. -/
def Sticks (st : State) (pend : List (Option Purpose)) : Prop := st ≠ .restart ∧ (st = .terminate → pend = [])

/-- The action does not end a shutdown. -/
def Action.keepsRest : Action → Prop
  | .boot _ => False
  | .reload => False
  | _ => True

theorem rest_down {st : State} {pend : List (Option Purpose)} (h : Sticks st pend) (prev : Rest) :
    (Action.down b st pend).rest prev ≠ .free := by
  obtain ⟨hr, ht⟩ := h
  cases st with
  | terminate => rw [ht rfl]; exact nofun
  | restart => exact (hr rfl).elim
  | _ => simp only [Action.rest]; split <;> decide

theorem Action.rest_ne_free (hx : x.keepsRest) {prev : Rest} (h : prev ≠ .free) : x.rest prev ≠ .free := by
  unfold Action.rest
  split <;> first | exact h | exact hx.elim | decide | (split <;> first | exact h | decide)

theorem Action.rest_ended (hx : x.keepsRest) : x.rest .ended = .ended := by
  unfold Action.rest
  split <;> first | rfl | exact hx.elim

/-- A command that was not a shutdown leaves none in force. -/
theorem rest_of_commanded {v : View} (h : v.Commanded) : rest v.log = .free := by
  suffices hlog : ∀ log : List Action, Ordered (log.find? (·.isOutside)) → rest log = .free from hlog v.log h
  intro log
  induction log with
  | nil => intro _; rfl
  | cons x r ih =>
    intro hfind
    cases x with
    | boot b => rfl
    | reload => rfl
    | down | deliver => rcases hfind _ rfl with h | ⟨_, h⟩ <;> cases h
    | _ =>
      have hr : rest r = .free := ih hfind
      rw [rest_cons, hr]
      rfl

/-! ## The invariant -/

/-- At every start of the VM, no shutdown was in force. -/
def SpawnsFree (a : Addr) : List Action → Prop := Always fun x r => ∀ n k, x = .spawn a n k → rest r = .free

/-- What a shutdown in force means for the VM. -/
structure View.Restful (a : Addr) (v : View) : Prop where
  stopping : rest v.log = .stopping → v.state = some .stop ∨ v.state = some .remove
  ended : rest v.log = .ended → (v.state = none ∨ v.state = some .terminate) ∧ v.timers = []
  spawns : SpawnsFree a v.log

variable {v w : View} {l' : List Action} {u : View}

theorem View.Restful.of_free (h : rest v.log = .free) (hs : SpawnsFree a v.log) : v.Restful a :=
  ⟨fun h' => (by rw [h] at h'; cases h'), fun h' => (by rw [h] at h'; cases h'), hs⟩

/-- A VM with a running process is not shut down. -/
theorem View.Restful.free_of_active {st : State} (h : v.Restful a) (hst : v.state = some st)
    (hne : st ≠ .stop ∧ st ≠ .remove ∧ st ≠ .terminate) : rest v.log = .free := by
  cases hr : rest v.log with
  | free => rfl
  | stopping =>
    rcases h.stopping hr with h' | h' <;> rw [hst] at h' <;> cases h'
    · exact (hne.1 rfl).elim
    · exact (hne.2.1 rfl).elim
  | ended =>
    rcases (h.ended hr).1 with h' | h' <;> rw [hst] at h' <;> cases h'
    exact (hne.2.2 rfl).elim

/-- Entries that are neither commands, nor exits, nor starts. -/
def Action.mild : Action → Prop
  | .boot _ | .reload | .down .. | .wait .. | .spawn .. => False
  | _ => True

theorem rest_mild (hx : x.mild) (r : List Action) : rest (x :: r) = rest r := by
  cases x <;> first | rfl | exact hx.elim

theorem SpawnsFree.cons {r : List Action} (h : SpawnsFree a r) (hx : x.mild) : SpawnsFree a (x :: r) :=
  ⟨fun n k heq => by subst heq; exact hx.elim, h⟩

theorem SpawnsFree.cons_wait {ident pid : Pid} {x : Bool} {r : List Action} (h : SpawnsFree a r) :
    SpawnsFree a (.wait b ident pid x :: r) :=
  ⟨fun n k heq => (by cases heq), h⟩

theorem SpawnsFree.cons_down {st : State} {pend : List (Option Purpose)} {r : List Action}
    (h : SpawnsFree a r) : SpawnsFree a (.down b st pend :: r) :=
  ⟨fun n k heq => (by cases heq), h⟩

theorem SpawnsFree.cons_spawn {n : Nat} {k : ProcKind} {r : List Action} (h : SpawnsFree a r)
    (hr : rest r = .free) : SpawnsFree a (.spawn b n k :: r) :=
  ⟨fun _ _ _ => hr, h⟩

/-- The same monitor state and the same starts. -/
structure MildFrom (a : Addr) (log log' : List Action) : Prop where
  rest : Bmd.rest log' = Bmd.rest log
  spawns : SpawnsFree a log → SpawnsFree a log'

theorem MildFrom.refl (log : List Action) : MildFrom a log log := ⟨rfl, id⟩

theorem MildFrom.cons {l : List Action} (hl : l' = x :: l) (hx : x.mild) : MildFrom a l l' := by
  subst hl
  exact ⟨rest_mild hx l, fun hs => hs.cons hx⟩

theorem MildFrom.trans {l l'' : List Action} (h : MildFrom a l l') (h' : MildFrom a l' l'') : MildFrom a l l'' :=
  ⟨h'.rest.trans h.rest, fun hs => h'.spawns (h.spawns hs)⟩

/-- The state and the timers are what they were. -/
theorem View.Restful.of_mild (h : v.Restful a) (hm : MildFrom a v.log w.log) (hst : w.state = v.state)
    (ht : w.timers = v.timers) : w.Restful a :=
  ⟨fun hr => by rw [hst]; exact h.stopping (hm.rest ▸ hr),
    fun hr => by rw [hst, ht]; exact h.ended (hm.rest ▸ hr), hm.spawns h.spawns⟩

/-- No shutdown was in force, and none is. -/
theorem View.Restful.of_mild_free {l : List Action} (hf : rest l = .free) (hs : SpawnsFree a l)
    (hm : MildFrom a l w.log) : w.Restful a :=
  .of_free (hm.rest.trans hf) (hm.spawns hs)

theorem mild_setState {st : State} : MildFrom a v.log (v.setState a st).log := .cons rfl trivial

theorem mild_poweroff {opened : Bool} : MildFrom a v.log (v.poweroff a opened).log := by
  have h1 : MildFrom a v.log (v.note (.poweroff a v.serial)).log := .cons rfl trivial
  have h2 : (v.force a opened).mild := View.force_cases (fun _ => trivial) fun _ => trivial
  exact h1.trans (.cons rfl h2)

theorem mild_requestStop {t : Int} {ok : Bool} : MildFrom a v.log (v.requestStop a t ok).log := by
  have h1 : MildFrom a v.log (v.note (.acpiPoweroff a v.serial)).log := .cons rfl trivial
  have h2 : MildFrom a v.log (v.acpiPoweroff a).log := h1.trans (.cons rfl trivial)
  exact h2.trans (.cons rfl trivial)

/-! ## Moves -/

theorem Starts.restful (h : Starts env a v w) (hf : rest v.log = .free) (hs : SpawnsFree a v.log) : w.Restful a := by
  cases h with
  | refused => exact .of_free hf hs
  | failed => exact .of_free hf (hs.cons trivial)
  | @started _ p st hp hst hw =>
    -- everything after the fork is mild
    have hs1 : SpawnsFree a (v.spawn a p).log := hs.cons_spawn hf
    have m1 : MildFrom a (v.spawn a p).log ((v.spawn a p).setState a st).log := mild_setState
    suffices hm : MildFrom a ((v.spawn a p).setState a st).log w.log from
      .of_mild_free (l := (v.spawn a p).log) hf hs1 (m1.trans hm)
    cases hw with
    | waiting => exact .refl _
    | timed _ _ _ => exact .cons rfl trivial
    | @abandoned wt opened _ =>
      have m2 : ∀ u : View, MildFrom a u.log ((u.waitIf wt u.pid).poweroff a opened).log := by
        intro u
        cases wt <;> exact mild_poweroff
      exact (m2 _).trans (.cons rfl trivial)

/-- After the exit of its process, a VM that was being shut down is down. -/
theorem Exits.restful (h : Exits env a u w) (hfree : rest u.log = .free ∨
    (rest u.log = .ended ∧ (u.state = some .stop ∨ u.state = some .remove ∨ (u.state = some .terminate ∧ u.timers = []))))
    (hs : SpawnsFree a u.log) : w.Restful a := by
  have hdown : ∀ {z : View}, MildFrom a u.log z.log → (z.state = none ∨ z.state = some .terminate) → z.timers = [] →
      z.Restful a := by
    intro z hm hst ht
    refine ⟨fun hr => ?_, fun _ => ⟨hst, ht⟩, hm.spawns hs⟩
    rw [hm.rest] at hr
    rcases hfree with h' | ⟨h', -⟩ <;> rw [hr] at h' <;> cases h'
  have hmild : MildFrom a u.log (u.stop a).log := mild_setState (v := u.drain)
  -- a start is possible only from a state that no shutdown leaves
  have hstart : ∀ {st : State}, u.state = some st → (st = .load ∨ st = .run ∨ st = .restart) → rest u.log = .free := by
    intro st hst hact
    rcases hfree with h' | ⟨-, h' | h' | ⟨h', -⟩⟩
    · exact h'
    all_goals
      rw [hst] at h'
      cases h'
      rcases hact with h | h | h <;> cases h
  cases h with
  | loaded hst h => exact h.restful (hstart hst (.inl rfl)) hs
  | loadFailed | stopped => exact hdown hmild (.inr rfl) rfl
  | rebooted hst h => exact h.restful (hstart hst (.inr (.inl rfl))) hs
  | restarting hst _ _ =>
    have m2 : MildFrom a u.log ((u.stop a).setState a .terminate).log := hmild.trans mild_setState
    exact .of_mild_free (hstart hst (.inr (.inr rfl))) hs (m2.trans (.cons rfl trivial))
  | removed => exact hdown hmild (.inl rfl) rfl
  | stale hst =>
    rcases hfree with h' | ⟨-, h' | h' | ⟨-, ht⟩⟩
    · exact .of_free h' hs
    · rw [hst] at h'; cases h'
    · rw [hst] at h'; cases h'
    · exact hdown (.refl _) (.inr hst) ht

theorem View.Restful.of_stopping (hr : rest v.log = .stopping) (hst : v.state = some .stop)
    (hs : SpawnsFree a v.log) : v.Restful a :=
  ⟨fun _ => .inl hst, fun h => (by rw [hr] at h; cases h), hs⟩

/-- A shutdown of an active VM is in force. -/
theorem rest_note_down {st : State} (hst : v.Active st) (hf : rest v.log = .free) :
    rest (v.note (.down a st v.timers)).log = .stopping := by
  show Action.rest _ (rest v.log) = _
  rw [hf]
  rcases hst.2 with h | h <;> rw [h] <;> rfl

/-- A shutdown of a VM that is not active changes nothing; it is in force when the VM is down or on its way. -/
theorem View.Restful.downIdle {st : State} (hv : v.Restful a) (hst : v.state = some st) (hl : st ≠ .load)
    (hr : st ≠ .run) : (v.note (.down a st v.timers)).Restful a := by
  have hs : SpawnsFree a (v.note (.down a st v.timers)).log := hv.spawns.cons_down
  have hnot : st ≠ .terminate → rest v.log ≠ .ended := by
    intro hne h
    rcases (hv.ended h).1 with h' | h' <;> rw [hst] at h' <;> cases h'
    exact hne rfl
  cases st with
  | load => exact (hl rfl).elim
  | run => exact (hr rfl).elim
  | restart => exact ⟨hv.stopping, hv.ended, hs⟩
  | terminate =>
    cases ht : v.timers with
    | nil =>
      rw [ht] at hs
      exact ⟨fun h => (by cases h), fun _ => ⟨.inr hst, ht⟩, hs⟩
    | cons p l =>
      rw [ht] at hs
      exact ⟨hv.stopping, hv.ended, hs⟩
  | stop =>
    refine ⟨fun _ => .inl hst, fun h => ?_, hs⟩
    have h' : (if rest v.log = .ended then Rest.ended else .stopping) = .ended := h
    rw [if_neg (hnot (by decide))] at h'
    cases h'
  | remove =>
    refine ⟨fun _ => .inr hst, fun h => ?_, hs⟩
    have h' : (if rest v.log = .ended then Rest.ended else .stopping) = .ended := h
    rw [if_neg (hnot (by decide))] at h'
    cases h'

theorem Fires.restful (h : Fires env a u w) (hu : u.Restful a)
    (hstart : u.state = some .terminate → rest u.log = .free) : w.Restful a := by
  cases h with
  | start hst h => exact h.restful (hstart hst) hu.spawns
  | poweroff _ _ _ => exact hu.of_mild mild_poweroff rfl rfl
  | ignored => exact hu

theorem Life.restful (hv : v.Restful a) (h : Life env theft a v w) : w.Restful a := by
  -- the moves of a reload, a boot command or the start of the daemon
  have hfree : v.Commanded → rest v.log = .free := rest_of_commanded
  have hactive : ∀ {st}, v.Active st → rest v.log = .free := fun h =>
    hv.free_of_active h.1 (by rcases h.2 with h | h <;> rw [h] <;> decide)
  cases h with
  | childExit | stolen => exact hv.of_mild (.refl _) rfl rfl
  | @timer _ p l l' st hl hst h =>
    -- a VM that is down has no timer
    have hne : rest v.log ≠ .ended := by
      intro hr
      have hnil := (hv.ended hr).2
      rw [hl] at hnil
      simp at hnil
    refine h.restful ⟨hv.stopping, fun hr => (hne hr).elim, hv.spawns.cons trivial⟩ fun hterm => ?_
    cases hr : rest v.log with
    | free => exact hr
    | stopping => rcases hv.stopping hr with h' | h' <;> rw [show v.state = _ from hterm] at h' <;> cases h'
    | ended => exact (hne hr).elim
  | @exit _ p pid l l' st x hl hst hdead hx rec _ h =>
    have hs : SpawnsFree a (.deliver a .onVmExit p st v.serial :: v.log) := hv.spawns.cons trivial
    refine h.restful ?_ hs.cons_wait
    have hwait : ∀ r : Rest, rest v.log = r →
        rest ((({ v with waits := l ++ l' }.note (.deliver a .onVmExit p st v.serial)).note
          (.wait a pid v.pid x)).reap v.pid).log = if r = .stopping then .ended else r := by
      rintro r rfl
      rfl
    cases hr : rest v.log with
    | free => exact .inl (hwait _ hr)
    | stopping =>
      refine .inr ⟨hwait _ hr, ?_⟩
      rcases hv.stopping hr with h' | h'
      · exact .inl h'
      · exact .inr (.inl h')
    | ended =>
      obtain ⟨hstate, ht⟩ := hv.ended hr
      refine .inr ⟨hwait _ hr, .inr (.inr ⟨?_, ht⟩)⟩
      rcases hstate with h' | h'
      · rw [hst] at h'; cases h'
      · exact h'
  | output | reset => exact hv.of_mild (.cons rfl trivial) rfl rfl
  | create hu =>
    have hr : rest v.log = .free := rest_of_commanded fun x hx => .inl (hu.log x (List.mem_of_find?_eq_some hx))
    exact .of_free hr hv.spawns
  | schedule hc => exact .of_mild_free (hfree hc) hv.spawns (.cons rfl trivial)
  | start hc _ h => exact h.restful (hfree hc) hv.spawns
  | stopFor hc => exact .of_mild_free (hfree hc.ordered) hv.spawns (mild_requestStop.trans mild_setState)
  | @shutdown st t ok hst _ =>
    have hr := rest_note_down (a := a) hst (hactive hst)
    have hm : MildFrom a (v.note (.down a st v.timers)).log
        (((v.note (.down a st v.timers)).requestStop a t ok).setState a .stop).log := mild_requestStop.trans mild_setState
    exact .of_stopping (hm.rest.trans hr) rfl (hm.spawns hv.spawns.cons_down)
  | @poweroff st opened hst =>
    have hr := rest_note_down (a := a) hst (hactive hst)
    have hm : MildFrom a (v.note (.down a st v.timers)).log
        (((v.note (.down a st v.timers)).poweroff a opened).setState a .stop).log := mild_poweroff.trans mild_setState
    exact .of_stopping (hm.rest.trans hr) rfl (hm.spawns hv.spawns.cons_down)
  | downIdle hst h h' => exact hv.downIdle hst h h'
  | terminating hst => exact .of_mild_free (hactive hst) hv.spawns mild_requestStop
  | redirect hc => exact .of_mild_free (hfree hc.ordered) hv.spawns mild_setState
  | drop hc => exact .of_free (hfree hc.ordered) hv.spawns
  | boot | reload => exact .of_free rfl ⟨fun n k heq => (by cases heq), hv.spawns⟩

/-! ## Runs -/

variable {s : Daemon}

theorem reach_restful (h : Reach (bmd env) anyStep s) (a : Addr) : (s.view a).Restful a :=
  reach_life True (P := fun a v => v.Restful a) (fun _ => .of_free rfl trivial)
    (fun _ _ _ hv hl => hl.restful hv) (fun _ _ _ _ _ _ _ => trivial) h a

section Since

variable {st : State} {pend : List (Option Purpose)} {l r : List Action}

/-- A shutdown that was carried out is in force until the next order. -/
theorem rest_since (h : Sticks st pend) (hl : ∀ x ∈ l, x.keepsRest) : rest (l ++ .down a st pend :: r) ≠ .free :=
  monitor_append (Q := (· ≠ Rest.free)) (fun x hx _ => Action.rest_ne_free (hl x hx)) (rest_down h (rest r))

theorem rest_ended_append (hl : ∀ x ∈ l, x.keepsRest) (hr : rest r = .ended) : rest (l ++ r) = .ended :=
  monitor_append (Q := (· = Rest.ended)) (fun x hx b hb => by rw [hb]; exact Action.rest_ended (hl x hx)) hr

/-- It is ended when the process has exited, or when there was none. -/
theorem rest_since_ended (h : Sticks st pend) (hl : ∀ x ∈ l, x.keepsRest)
    (hdone : st = .terminate ∨ ∃ ident pid x, .wait a ident pid x ∈ l) :
    rest (l ++ .down a st pend :: r) = .ended := by
  rcases hdone with rfl | ⟨ident, pid, x, hx⟩
  · refine rest_ended_append hl ?_
    rw [h.2 rfl]
    rfl
  · -- the exit came after the shutdown
    obtain ⟨l1, l2, rfl⟩ := List.append_of_mem hx
    have hne : rest (l2 ++ .down a st pend :: r) ≠ .free :=
      rest_since h fun y hy => hl y (List.mem_append_right _ (List.mem_cons_of_mem _ hy))
    have hover : rest (.wait a ident pid x :: (l2 ++ .down a st pend :: r)) = .ended := by
      rw [rest_cons]
      cases hr : rest (l2 ++ .down a st pend :: r) with
      | free => exact (hne hr).elim
      | stopping => rfl
      | ended => rfl
    rw [List.append_assoc]
    exact rest_ended_append (fun y hy => hl y (List.mem_append_left _ hy)) hover

end Since

/-- **A shutdown sticks**, in every run, when it found the VM neither in `RESTART` nor in `TERMINATE` with a pending
    timer: until the next boot or install command for the VM or the next reload, it is not started, and once its
    process has exited it is in `TERMINATE`, or removed if it was in `REMOVE`. -/
theorem shutdown_sticks {st : State} {pend : List (Option Purpose)} {l r : List Action}
    (h : Reach (bmd env) anyStep s) (hlog : s.log = l ++ .down a st pend :: r)
    (hl : ∀ x ∈ l, x ≠ .boot a ∧ x ≠ .reload) (hst : st ≠ .restart) (hpend : st = .terminate → pend = []) :
    (∀ n k, .spawn a n k ∉ l) ∧
      ∀ v, s.vm? a = some v → (v.state = .terminate ∨ v.state = .stop ∨ v.state = .remove) ∧
        (st = .terminate ∨ (∃ ident pid x, .wait a ident pid x ∈ l) → v.state = .terminate) := by
  have hv := reach_restful h a
  have hstick : Sticks st pend := ⟨hst, hpend⟩
  -- the part of the log about the VM
  have habout : ∀ x ∈ l.filter (·.about a), x.keepsRest := by
    intro x hx
    obtain ⟨hx, hxa⟩ := List.mem_filter.mp hx
    cases x with
    | boot b =>
      have hb : b = a := by simpa [Action.about, Action.vm?] using hxa
      exact ((hl _ hx).1 (by rw [hb])).elim
    | reload => exact ((hl _ hx).2 rfl).elim
    | _ => trivial
  have hview : (s.view a).log = l.filter (·.about a) ++ .down a st pend :: r.filter (·.about a) := by
    show s.log.filter _ = _
    rw [hlog, List.filter_append, List.filter_cons_of_pos (by simp [Action.about, Action.vm?])]
  have hstate : ∀ {v : VmEntry} {st' : State}, s.vm? a = some v → (s.view a).state = some st' → v.state = st' :=
    fun hvm h => Option.some.inj ((view_state hvm).symm.trans h)
  have hsome : ∀ {v : VmEntry}, s.vm? a = some v → (s.view a).state ≠ none := by
    intro v hvm h
    rw [view_state hvm] at h
    cases h
  refine ⟨fun n k hspawn => ?_, fun v hvm => ⟨?_, fun hdone => ?_⟩⟩
  · -- a start in between would have found no shutdown in force
    obtain ⟨l1, l2, hsplit⟩ := List.append_of_mem
      (List.mem_filter.mpr ⟨hspawn, show (Action.spawn a n k).about a = true by simp [Action.about, Action.vm?]⟩)
    have hfree := hv.spawns
    rw [hview, hsplit, List.append_assoc] at hfree
    have hkeep : ∀ x ∈ l2, x.keepsRest := fun x hx =>
      habout x (by rw [hsplit]; exact List.mem_append_right _ (List.mem_cons_of_mem _ hx))
    exact rest_since hstick hkeep (hfree.of_split n k rfl)
  · have hne : rest (s.view a).log ≠ .free := by
      rw [hview]
      exact rest_since hstick habout
    cases hr : rest (s.view a).log with
    | free => exact (hne hr).elim
    | stopping =>
      rcases hv.stopping hr with h' | h'
      · exact .inr (.inl (hstate hvm h'))
      · exact .inr (.inr (hstate hvm h'))
    | ended =>
      rcases (hv.ended hr).1 with h' | h'
      · exact (hsome hvm h').elim
      · exact .inl (hstate hvm h')
  · have hover : rest (s.view a).log = .ended := by
      rw [hview]
      refine rest_since_ended hstick habout (hdone.imp_right ?_)
      rintro ⟨ident, pid, x, hx⟩
      exact ⟨ident, pid, x, List.mem_filter.mpr ⟨hx, by simp [Action.about, Action.vm?]⟩⟩
    rcases (hv.ended hover).1 with h' | h'
    · exact (hsome hvm h').elim
    · exact hstate hvm h'

/-- A running VM is shut down and its process exits with status 0, which would otherwise be a reboot. -/
theorem shutdown_sticks_running : ∃ s l r, Reach (bmd .ideal) anyStep s ∧
    s.log = l ++ .down 5 .run [] :: r ∧ .wait 5 1 1 true ∈ l ∧ (∀ n k, .spawn 5 n k ∉ l) ∧
    ∀ v, s.vm? 5 = some v → v.state = .terminate := by
  obtain ⟨s, hr, hlog⟩ : ∃ s, Reach (bmd .ideal) anyStep s ∧ s.log =
      [.state 5 .stop .terminate 6 [], .wait 5 1 1 true, .deliver 5 .onVmExit none .stop 6,
        .state 5 .run .stop 6 [some (.stop 6)], .arm 5 (.stop 6) 300, .kill 5 1 .sigterm true, .acpiPoweroff 5 6]
      ++ .down 5 .run [] :: [.state 5 .terminate .run 6 [], .spawn 5 6 .bhyve] :=
    exists_reach [csmVm] (clientSends 10 12 1 ++ [.procExit 1 0, .event 7 {}])
      (by decide +kernel)
  obtain ⟨hspawn, hstate⟩ := shutdown_sticks hr hlog (by decide) (by decide) (by decide)
  exact ⟨s, _, _, hr, hlog, by decide, hspawn, fun v hv => (hstate v hv).2 (.inr ⟨1, 1, true, by decide⟩)⟩

/-- A VM waits for its `boot_delay` when it is shut down with success; then the timer starts it. -/
theorem shutdown_forgotten : ∃ s l r n k, Reach (bmd .ideal) anyStep s ∧
    s.log = l ++ .down 5 .terminate [some .bootDelay] :: r ∧ (∀ x ∈ l, x ≠ .boot 5 ∧ x ≠ .reload) ∧
    .spawn 5 n k ∈ l := by
  obtain ⟨s, hr, hlog⟩ : ∃ s, Reach (bmd .ideal) anyStep s ∧ s.log =
      [.state 5 .terminate .run 11 [], .spawn 5 11 .bhyve, .deliver 5 .onTimer (some .bootDelay) .terminate 0]
      ++ .down 5 .terminate [some .bootDelay] :: [.arm 5 .bootDelay 5] :=
    exists_reach [VmConf.load { VmConf.section "a" "csm" .yes with bootDelay := 5 } rfl rfl]
      (clientSends 7 9 1 ++ [.event 6 {}]) (by decide +kernel)
  exact ⟨s, _, _, 11, .bhyve, hr, hlog, by decide, by decide⟩

end Bmd
