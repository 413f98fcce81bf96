import Bmd.Correctness.Lists
import Bmd.Lib.System

/-!
# `Correctness.Life` — the life of one virtual machine

`Life` is the abstract machine of a single VM: the moves its view can make, whatever the daemon does and whatever the
outside world sends. A stop request together with the state change that follows it is one move. `Moves` says that a
piece of the daemon's code takes the view of every VM along such moves.

The parameter `theft` marks the one move that comes from another VM: its exit callback reaps a process of this one. The
moves of a boot command, a reload or the start of the daemon require that no event of the VM and no other command has
come since.
-/

namespace Bmd

open Lib Lib.Prog

/-- No VM has lived at the address: only reloads are in its log. -/
structure View.Unborn (v : View) : Prop where
  state : v.state = none
  timers : v.timers = []
  waits : v.waits = []
  procs : v.procs = []
  log : ∀ x ∈ v.log, x = .reload

/-- The VM has a process that a client may ask to stop. -/
def View.Active (v : View) (st : State) : Prop := v.state = some st ∧ (st = .load ∨ st = .run)

/-- The last thing from outside that concerned the VM. -/
def View.last (v : View) : Option Action := v.log.find? (·.isOutside)

/-- It was a boot command or a reload, or there is none yet. -/
def Ordered (o : Option Action) : Prop := ∀ x ∈ o, x = .reload ∨ ∃ b, x = .boot b

/-- It was a reload. -/
def Reloading (o : Option Action) : Prop := o = some .reload

theorem Reloading.ordered {o : Option Action} (h : Reloading o) : Ordered o := by
  intro x hx
  rw [h] at hx
  exact .inl (Option.some.inj hx).symm

/-- The VM may be started. -/
abbrev View.Commanded (v : View) : Prop := Ordered v.last

/-- The VM may be stopped and changed by a reload. -/
abbrev View.Recalled (v : View) : Prop := Reloading v.last

/-- The changes of state that a reload makes without asking the guest. -/
def Redirects : State → State → Prop
  | .stop, .restart => True
  | .restart, .stop => True
  | .stop, .remove => True
  | .restart, .remove => True
  | .remove, .remove => True
  | _, _ => False

/-- **The moves of a VM.** -/
inductive Life (env : Env) (theft : Prop) (a : Addr) : View → View → Prop where
  /-- A child exits. -/
  | childExit {v : View} (pid : Pid) (status : Nat) :
      Life env theft a v { v with
        procs := v.procs.map fun p => if p.pid == pid then { p with status := some status } else p }
  /-- A child is reaped by the exit callback of another VM. -/
  | stolen {v : View} (pid : Pid) (h : theft) : Life env theft a v (v.reap pid)
  /-- A timer expires. -/
  | timer {v w : View} {p : Option Purpose} {l l' : List (Option Purpose)} {st : State}
      (hl : v.timers = l ++ p :: l') (hst : v.state = some st)
      (h : Fires env a ({ v with timers := l ++ l' }.note (.deliver a .onTimer p st v.serial)) w) :
      Life env theft a v w
  /-- The exit of a child is delivered. -/
  | exit {v w : View} {p : Option Purpose} {pid : Pid} {l l' : List Int} {st : State} {x : Bool}
      (hl : v.waits = l ++ pid :: l') (hst : v.state = some st)
      (hdead : ∀ q ∈ v.procs, q.pid = pid → q.status ≠ none)
      (hx : (∃ q ∈ v.procs, q.pid = v.pid ∧ q.status ≠ none) → x = true)
      {r : Exited} (hr : r.state = st ∧ r.serial = v.serial)
      (h : Exits env a (((({ v with waits := l ++ l' }.note (.deliver a .onVmExit p st v.serial)).note
        (.wait a pid v.pid x)).reap v.pid).exited r) w) : Life env theft a v w
  /-- Output of a child is read. -/
  | output {v : View} (p : Option Purpose) (st : State) :
      Life env theft a v (v.note (.deliver a .onReadVmOutput p st v.serial))
  /-- The entry is created. -/
  | create {v : View} (h : v.Unborn) : Life env theft a v { v with state := some .terminate }
  /-- The start is put off. -/
  | schedule {v : View} {p : Purpose} {t : Int} {ok : Bool} (hc : v.Commanded) (hst : v.state = some .terminate)
      (hp : p = .bootDelay ∨ p = .restart) (hok : env.Reliable → 0 ≤ t → ok = true) :
      Life env theft a v (v.arm a p t ok)
  /-- The VM is started. -/
  | start {v w : View} (hc : v.Commanded) (hst : v.state = some .terminate) (h : Starts env a v w) :
      Life env theft a v w
  /-- A reload stops, restarts or removes the VM. -/
  | stopFor {v : View} {st st' : State} {t : Int} {ok : Bool} (hc : v.Recalled) (hst : v.Active st)
      (hst' : st' = .stop ∨ st' = .restart ∨ st' = .remove) (hok : env.Reliable → 0 ≤ t → ok = true) :
      Life env theft a v ((v.requestStop a t ok).setState a st')
  /-- A shutdown command. -/
  | shutdown {v : View} {st : State} {t : Int} {ok : Bool} (hst : v.Active st)
      (hok : env.Reliable → 0 ≤ t → ok = true) :
      Life env theft a v (((v.note (.down a st v.timers)).requestStop a t ok).setState a .stop)
  /-- A poweroff command. -/
  | poweroff {v : View} {st : State} {opened : Bool} (hst : v.Active st) :
      Life env theft a v (((v.note (.down a st v.timers)).poweroff a opened).setState a .stop)
  /-- A shutdown or poweroff command for a VM that is not active. -/
  | downIdle {v : View} {st : State} (hst : v.state = some st) (h : st ≠ .load) (h' : st ≠ .run) :
      Life env theft a v (v.note (.down a st v.timers))
  /-- A reset command. -/
  | reset {v : View} {st : State} {opened : Bool} (hst : v.Active st) :
      Life env theft a v (v.note (.suspend a .reset opened))
  /-- The daemon terminates. -/
  | terminating {v : View} {st : State} {t : Int} {ok : Bool} (hst : v.Active st)
      (hok : env.Reliable → 0 ≤ t → ok = true) : Life env theft a v (v.requestStop a t ok)
  /-- A reload changes what happens after the exit. -/
  | redirect {v : View} {st st' : State} (hc : v.Recalled) (hst : v.state = some st) (h : Redirects st st') :
      Life env theft a v (v.setState a st')
  /-- A reload removes a VM without a process. -/
  | drop {v : View} (hc : v.Recalled) (hst : v.state = some .terminate) : Life env theft a v v.gone
  /-- A boot or install command is accepted. -/
  | boot {v : View} : Life env theft a v (v.note (.boot a))
  /-- A reload begins. -/
  | reload {v : View} : Life env theft a v (v.note .reload)

/-- Any number of moves. -/
abbrev LifeStar (env : Env) (theft : Prop) (a : Addr) : View → View → Prop :=
  Relation.ReflTransGen (Life env theft a)

/-- The view of every VM makes moves, and the lists stay consistent. -/
def Moves (env : Env) (theft : Prop) (s s' : Daemon) : Prop :=
  WF s → Tidy s s' ∧ ∀ a, LifeStar env theft a (s.view a) (s'.view a)

/-- The same for code that a reload or the start of the daemon runs: nothing has come from outside since. -/
def Obeys (env : Env) (C : Option Action → Prop) (s s' : Daemon) : Prop :=
  WF s → (∀ a, C (s.view a).last) →
    Tidy s s' ∧ (∀ a, C (s'.view a).last) ∧ ∀ a, LifeStar env False a (s.view a) (s'.view a)

variable {env : Env} {theft : Prop} {C : Option Action → Prop} {s s' : Daemon} {a b : Addr}

instance : IsPreorder Daemon (Moves env theft) where
  refl _ := fun h => ⟨.refl h, fun _ => .refl⟩
  trans _ _ _ h h' := fun hw =>
    ⟨(h hw).1.trans (h' (h hw).1.wf).1, fun a => ((h hw).2 a).trans ((h' (h hw).1.wf).2 a)⟩

instance : IsPreorder Daemon (Obeys env C) where
  refl _ := fun h hc => ⟨.refl h, hc, fun _ => .refl⟩
  trans _ _ _ h h' := fun hw hc => by
    obtain ⟨t1, c1, l1⟩ := h hw hc
    obtain ⟨t2, c2, l2⟩ := h' t1.wf c1
    exact ⟨t1.trans t2, c2, fun a => (l1 a).trans (l2 a)⟩

theorem Life.mono {theft' : Prop} (h : theft → theft') {v w : View} (hl : Life env theft a v w) :
    Life env theft' a v w := by
  cases hl with
  | childExit pid status => exact .childExit pid status
  | stolen pid ht => exact .stolen pid (h ht)
  | timer hl hst hf => exact .timer hl hst hf
  | exit hl hst hd hx hr he => exact .exit hl hst hd hx hr he
  | output p st => exact .output p st
  | create hu => exact .create hu
  | schedule hc hst hp hok => exact .schedule hc hst hp hok
  | start hc hst hs => exact .start hc hst hs
  | stopFor hc hst hst' hok => exact .stopFor hc hst hst' hok
  | shutdown hst hok => exact .shutdown hst hok
  | poweroff hst => exact .poweroff hst
  | downIdle hst h1 h2 => exact .downIdle hst h1 h2
  | reset hst => exact .reset hst
  | terminating hst hok => exact .terminating hst hok
  | redirect hc hst hr => exact .redirect hc hst hr
  | drop hc hst => exact .drop hc hst
  | boot => exact .boot
  | reload => exact .reload

theorem LifeStar.mono {theft' : Prop} (h : theft → theft') {v w : View} (hl : LifeStar env theft a v w) :
    LifeStar env theft' a v w := by
  induction hl with
  | refl => exact .refl
  | tail _ hlast ih => exact ih.tail (hlast.mono h)

theorem Calm.moves (h : Calm s s') : Moves env theft s s' := fun hw =>
  ⟨(h hw).1, fun a => by rw [(h hw).2 a]⟩

theorem Calm.obeys (h : Calm s s') : Obeys env C s s' := fun hw hc =>
  ⟨(h hw).1, fun a => by rw [(h hw).2 a]; exact hc a, fun a => by rw [(h hw).2 a]⟩

theorem keeps_moves {α : Type} {m : Prog α} (h : Keeps Apart m) : Keeps (Moves env theft) m :=
  h.mono fun _ _ h => h.calm.moves

theorem keeps_obeys {α : Type} {m : Prog α} (h : Keeps Apart m) : Keeps (Obeys env C) m :=
  h.mono fun _ _ h => h.calm.obeys

/-! ## Work for one virtual machine -/

/-- Work for a VM records nothing from outside. -/
theorem Touch.last (h : Touch b s s') : (s'.view a).last = (s.view a).last := by
  obtain ⟨l, hl, hx⟩ := h.log
  have hnone : (l.filter (·.about a)).find? (·.isOutside) = none := by
    rw [List.find?_eq_none]
    intro x hmem
    rw [(hx x (List.mem_filter.mp hmem).1).2]
    decide
  have hlog : (s'.view a).log = l.filter (·.about a) ++ (s.view a).log := by
    show s'.log.filter _ = _
    rw [hl, List.filter_append]
    rfl
  rw [View.last, hlog, List.find?_append, hnone, Option.none_or]
  rfl

/-- What is done for the VM at `b`, seen from `b`. -/
structure ActsOn (env : Env) (theft : Prop) (b : Addr) (s s' : Daemon) : Prop where
  within : Within b s s'
  life : LifeStar env theft b (s.view b) (s'.view b)
  serial : (s'.view b).serial < s'.next

theorem ActsOn.moves (h : ActsOn env theft b s s') (hsome : (s.vm? b).isSome) : Moves env theft s s' := by
  intro hw
  refine ⟨h.within.tidy hsome h.serial hw, fun a => ?_⟩
  by_cases hab : a = b
  · subst hab
    exact h.life
  · rw [h.within.view hab]

theorem ActsOn.obeys (h : ActsOn env False b s s') (hsome : (s.vm? b).isSome) : Obeys env C s s' := by
  intro hw hc
  obtain ⟨t, l⟩ := h.moves hsome hw
  exact ⟨t, fun a => by rw [h.within.last]; exact hc a, l⟩

/-- A move that leaves the process of the VM alone. -/
theorem ActsOn.of_grow (g : Grow b s s') (hl : Life env theft b (s.view b) (s'.view b))
    (hser : (s.view b).serial < s.next) (heq : (s'.view b).serial = (s.view b).serial) :
    ActsOn env theft b s s' :=
  ⟨g.within, .single hl, by rw [heq]; exact Nat.lt_of_lt_of_le hser g.next⟩

theorem ActsOn.of_silent (q : Silent b s s') (hser : (s.view b).serial < s.next) : ActsOn env theft b s s' :=
  ⟨q.within, by rw [q.view], by rw [q.view]; exact Nat.lt_of_lt_of_le hser q.2⟩

theorem ActsOn.refl (hser : (s.view b).serial < s.next) : ActsOn env theft b s s :=
  ⟨refl_of (Within b) s, .refl, hser⟩

/-! ## The VM as a view shows it -/

/-- The view shows a state exactly when there is an entry. -/
theorem isSome_of_view {st : State} (h : (s.view a).state = some st) : (s.vm? a).isSome := by
  have h' : (s.vm? a).map (·.state) = some st := h
  cases hv : s.vm? a with
  | none => rw [hv] at h'; cases h'
  | some v => rfl

theorem vm?_of_view {st : State} (h : (s.view a).state = some st) : ∃ v, s.vm? a = some v ∧ v.state = st := by
  have h' : (s.vm? a).map (·.state) = some st := h
  cases hv : s.vm? a with
  | none => rw [hv] at h'; cases h'
  | some v =>
    rw [hv] at h'
    cases h'
    exact ⟨v, rfl, rfl⟩

theorem WF.view_serial (hw : WF s) (h : (s.vm? a).isSome) : (s.view a).serial < s.next := by
  obtain ⟨v, hv⟩ := Option.isSome_iff_exists.mp h
  exact (hw.ready hv).view_serial

/-- No VM has lived at an address not given out yet. -/
theorem WF.unborn (hw : WF s) (ha : s.next ≤ a) : (s.view a).Unborn where
  state := by
    show (s.vm? a).map _ = none
    cases hv : s.vm? a with
    | none => rfl
    | some v => exact absurd (hw.lt_next hv) (Nat.not_lt.mpr ha)
  timers := by
    show (s.eventList.filter _).map _ = []
    rw [List.map_eq_nil_iff, List.filter_eq_nil_iff]
    intro e he ht
    have hsome := hw.eventVms e he a (Event.isTimerOf_iff.mp ht).1
    obtain ⟨v, hv⟩ := Option.isSome_iff_exists.mp hsome
    exact absurd (hw.lt_next hv) (Nat.not_lt.mpr ha)
  waits := by
    show (s.eventList.filter _).map _ = []
    rw [List.map_eq_nil_iff, List.filter_eq_nil_iff]
    intro e he ht
    have hsome := hw.eventVms e he a (Event.isWaitOf_iff.mp ht).1
    obtain ⟨v, hv⟩ := Option.isSome_iff_exists.mp hsome
    exact absurd (hw.lt_next hv) (Nat.not_lt.mpr ha)
  procs := by
    show s.procs.filter _ = []
    rw [List.filter_eq_nil_iff]
    intro p hp hpo
    have h1 := hw.owners p hp
    rw [eq_of_beq hpo] at h1
    exact absurd h1 (Nat.not_lt.mpr ha)
  log := by
    intro x hx
    obtain ⟨hx, hab⟩ := List.mem_filter.mp hx
    have hne : x.vm? ≠ some a := fun hxa => absurd (hw.logged x hx a hxa) (Nat.not_lt.mpr ha)
    have hnone : x.vm? = none := by simpa [Action.about, hne] using hab
    cases x <;> first | rfl | cases hnone

/-! ## Records -/

theorem note_tidy {x : Action} (hx : ∀ a, x.vm? = some a → a < s.next) (hw : WF s) : Tidy s (s.note x) := by
  refine ⟨{ hw with owned := ⟨hw.owned.nodup, hw.owned.bound⟩, logged := fun y hy a hya => ?_ },
    SockKept.of_eq rfl rfl (Nat.le_refl _), Nat.le_refl _, .of_subset fun _ => id, fun _ => id, fun _ => id⟩
  rcases List.mem_cons.mp hy with rfl | hy
  · exact hx a hya
  · exact hw.logged y hy a hya

/-- A record about a VM of the list. -/
theorem note_tidy_vm {x : Action} (hw : WF s) (hv : s.vm? a = some v) (hx : x.vm? = some a) : Tidy s (s.note x) := by
  refine note_tidy (fun b hb => ?_) hw
  rw [hx] at hb
  cases hb
  exact hw.lt_next hv

theorem view_note_of_ne {x : Action} (hx : x.vm? = some b) (hab : a ≠ b) : (s.note x).view a = s.view a := by
  have hno : x.about a = false := by simp [Action.about, hx, Ne.symm hab]
  show ({ s.view a with log := (x :: s.log).filter (·.about a) } : View) = s.view a
  rw [List.filter_cons_of_neg (by simp [hno])]
  rfl

/-- The record of a command for one VM. -/
theorem note_moves {x : Action} (hx : x.vm? = some b) (hsome : (s.vm? b).isSome)
    (hl : Life env theft b (s.view b) ((s.view b).note x)) : Moves env theft s (s.note x) := by
  intro hw
  refine ⟨note_tidy (fun a ha => ?_) hw, fun a => ?_⟩
  · rw [hx] at ha
    cases ha
    obtain ⟨v, hv, rfl⟩ := vm?_isSome_iff.mp hsome
    exact hw.vmBound v hv
  · by_cases hab : a = b
    · subst hab
      rw [view_note hx]
      exact .single hl
    · rw [view_note_of_ne hx hab]

end Bmd
