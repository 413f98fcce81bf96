import Bmd.Correctness.Grow

/-!
# `Correctness.View` — the daemon as seen by one virtual machine

`s.view a` is all that the life of the VM at `a` depends on and all that is done to it: its state, its latest
process, its pending timers and exit notifications, its un-reaped children, and the part of the log about it.
Every operation on a VM is described by a function on views. An operation on another VM leaves the view as it
is (`Within.view`), so the daemon is, for each VM, a little machine whose moves are these functions.
-/

namespace Bmd

open Lib Lib.Prog

/-- The daemon as the VM at some address sees it. -/
structure View where
  state : Option State
  pid : Pid
  serial : Nat
  timers : List (Option Purpose)
  waits : List Int
  procs : List Proc
  log : List Action
  forced : List Forced
  exits : List Exited

/-- The view of the VM at `a`. -/
def Daemon.view (s : Daemon) (a : Addr) : View where
  state := (s.vm? a).map (·.state)
  pid := (s.vmOf a).pid
  serial := (s.vmOf a).serial
  timers := s.timersOf a
  waits := (s.eventList.filter (·.isWaitOf a)).map (·.ident)
  procs := s.procs.filter (·.owner == a)
  log := s.log.filter (·.about a)
  forced := s.forced.filter (·.vm == a)
  exits := s.exits.filter (·.vm == a)

namespace View

variable (a : Addr) (v : View)

/-- Record an action. -/
def note (act : Action) : View := { v with log := act :: v.log }

/-- Write `VM_STATE`. -/
def setState (st : State) : View :=
  { v with state := some st, log := .state a (v.state.getD .terminate) st v.serial v.timers :: v.log }

/-- Fork a child and make it the process of the VM. -/
def spawn (p : Proc) : View :=
  { v with
    procs := p :: v.procs, pid := p.pid, serial := p.serial, log := .spawn a p.serial p.kind :: v.log }

/-- Wait for the exit of a process. -/
def wait (pid : Pid) : View := { v with waits := pid :: v.waits }

/-- Call `set_timer`; `ok` says whether the timer was registered. -/
def arm (p : Purpose) (second : Int) (ok : Bool) : View :=
  { v with
    timers := if ok then some p :: v.timers else v.timers
    log := .arm a p second :: v.log }

/-- `pid` is an un-reaped child of the VM. -/
def isChild (pid : Pid) : Bool := v.procs.any (·.pid == pid)

/-- `VM_ACPI_POWEROFF`. -/
def acpiPoweroff : View :=
  (v.note (.acpiPoweroff a v.serial)).note (.kill a v.pid .sigterm (v.isChild v.pid))

/-- What `VM_POWEROFF` does. -/
def force (opened : Bool) : Action :=
  if v.state = some .load then .kill a v.pid .sigkill (v.isChild v.pid) else .suspend a .poweroff opened

/-- The record of `VM_POWEROFF`. -/
def forcing (opened : Bool) : Forced :=
  { vm := a, state := v.state.getD .terminate, children := v.procs.filter (·.status == none),
    opened := v.state = some .load || opened, sent := some (v.force a opened) }

/-- `VM_POWEROFF`. -/
def poweroff (opened : Bool) : View :=
  { (v.note (.poweroff a v.serial)).note (v.force a opened) with forced := v.forcing a opened :: v.forced }

/-- Ask the guest to shut down and arm the stop timer. -/
def requestStop (second : Int) (ok : Bool) : View := (v.acpiPoweroff a).arm a (.stop v.serial) second ok

/-- Drop the pending timers. -/
def drain : View := { v with timers := [] }

/-- `stop_virtual_machine`. -/
def stop : View := v.drain.setState a .terminate

/-- Reap a child. -/
def reap (pid : Pid) : View := { v with procs := v.procs.filter (·.pid != pid) }

/-- Record a call of `on_vm_exit`. -/
def exited (r : Exited) : View := { v with exits := r :: v.exits }

/-- The entry is taken out of `vm_list` and freed, with the events that refer to it. -/
def gone : View := { v with state := none, pid := -1, serial := 0, timers := [], waits := [] }

variable {a v} {opened : Bool}

/-- `VM_POWEROFF` is known by its two cases. -/
theorem force_cases {P : Action → Prop} (hload : v.state = some .load → P (.kill a v.pid .sigkill (v.isChild v.pid)))
    (helse : v.state ≠ some .load → P (.suspend a .poweroff opened)) : P (v.force a opened) := by
  unfold force
  split
  · next h => exact hload h
  · next h => exact helse h

end View

/-! ## What views depend on -/

theorem Event.isTimerOf_iff {a : Addr} {e : Event} :
    e.isTimerOf a = true ↔ e.data = .vm a ∧ e.filter = .timer ∧ e.armed = true := by
  simp [Event.isTimerOf, and_assoc]

theorem Event.isWaitOf_iff {a : Addr} {e : Event} :
    e.isWaitOf a = true ↔ e.data = .vm a ∧ e.filter = .proc ∧ e.armed = true := by
  simp [Event.isWaitOf, and_assoc]

theorem Event.isTimerOf_blank (a : Addr) (e : Event) : e.blank.isTimerOf a = e.isTimerOf a := by
  by_cases h : e.filter = .timer
  · rw [Event.blank_of_not_fd (by simp [h]) (by simp [h])]
  · rw [Bool.eq_iff_iff, isTimerOf_iff, isTimerOf_iff]
    simp [h]

theorem Event.isWaitOf_blank (a : Addr) (e : Event) : e.blank.isWaitOf a = e.isWaitOf a := by
  by_cases h : e.filter = .proc
  · rw [Event.blank_of_not_fd (by simp [h]) (by simp [h])]
  · rw [Bool.eq_iff_iff, isWaitOf_iff, isWaitOf_iff]
    simp [h]

/-- Timers and exit notifications can be read off the blanked events. -/
theorem timersOf_eq_blank (s : Daemon) (a : Addr) :
    s.timersOf a = ((s.eventList.map Event.blank).filter (·.isTimerOf a)).map (·.purpose) := by
  simp only [Daemon.timersOf, List.filter_map, List.map_map, Function.comp_def, Event.isTimerOf_blank,
    Event.blank_purpose]

theorem waits_eq_blank (s : Daemon) (a : Addr) :
    (s.view a).waits = ((s.eventList.map Event.blank).filter (·.isWaitOf a)).map (·.ident) := by
  simp only [Daemon.view, List.filter_map, List.map_map, Function.comp_def, Event.isWaitOf_blank,
    Event.blank_ident]

/-- What views depend on, but for the events. -/
def Daemon.seen (s : Daemon) : List VmEntry × List Proc × List Action × List Forced × List Exited :=
  (s.vmList, s.procs, s.log, s.forced, s.exits)

theorem view_of_seen {s s' : Daemon} {a : Addr} (h : s'.seen = s.seen) (ht : s'.timersOf a = s.timersOf a)
    (hw : (s'.view a).waits = (s.view a).waits) : s'.view a = s.view a := by
  simp only [Daemon.seen, Prod.mk.injEq] at h
  have hw' : (s'.eventList.filter (·.isWaitOf a)).map (·.ident) = (s.eventList.filter (·.isWaitOf a)).map (·.ident) := hw
  simp only [Daemon.view, Daemon.vm?, Daemon.vmOf, h, ht, hw']

/-- The entry of another VM can be read off the links. -/
theorem vm?_of_links {s : Daemon} {a b : Addr} (h : a ≠ b) : (s.links b).find? (·.addr == a) = s.vm? a := by
  have key := Keyed.find?_map (k := VmEntry.addr)
    (f := fun v : VmEntry => if v.addr == b then v.link else v)
    (fun v => by by_cases hv : v.addr = b <;> simp [hv, VmEntry.link]) s.vmList a
  rw [Daemon.links, key]
  show (s.vm? a).map _ = s.vm? a
  cases hv : s.vm? a with
  | none => rfl
  | some v =>
    have hva : v.addr = a := Keyed.key_of_find? (k := VmEntry.addr) hv
    simp [hva, h]

/-- The place of the VM itself can be read off the links. -/
theorem link_of_links (s : Daemon) (b : Addr) : (s.links b).find? (·.addr == b) = (s.vm? b).map VmEntry.link := by
  have key := Keyed.find?_update_self (k := VmEntry.addr) (f := VmEntry.link) (fun _ => rfl) s.vmList b
  exact key

/-- What was done to the VM is in its view. -/
theorem mem_view_log {s : Daemon} {x : Action} {a : Addr} (hx : x ∈ s.log) (ha : x.vm? = some a) : x ∈ (s.view a).log :=
  List.mem_filter.mpr ⟨hx, by simp [Action.about, ha]⟩

/-- What belongs to one address is found among what does not belong to another one. -/
theorem filter_filter_of_ne {α : Type} (owner : α → Addr) {a b : Addr} (hab : a ≠ b) (l : List α) :
    (l.filter (owner · != b)).filter (owner · == a) = l.filter (owner · == a) := by
  rw [List.filter_filter]
  refine List.filter_congr fun p _ => ?_
  by_cases hp : owner p = a <;> simp [hp, hab]

namespace Touch

variable {b : Addr} {s s' : Daemon}

theorem vm?_of_ne (h : Touch b s s') {a : Addr} (hab : a ≠ b) : s'.vm? a = s.vm? a := by
  rw [← vm?_of_links hab, h.links, vm?_of_links hab]

theorem link (h : Touch b s s') : (s'.vm? b).map VmEntry.link = (s.vm? b).map VmEntry.link := by
  rw [← link_of_links, h.links, link_of_links]

/-- The entry that is worked on stays in the list, with its configuration. -/
theorem vm?_self (h : Touch b s s') {v : VmEntry} (hv : s.vm? b = some v) :
    ∃ v', s'.vm? b = some v' ∧ v'.conf = v.conf ∧ v'.newConf = v.newConf := by
  have hl := h.link
  rw [hv] at hl
  cases hv' : s'.vm? b with
  | none => rw [hv'] at hl; cases hl
  | some v' =>
    rw [hv'] at hl
    have hlink : v'.link = v.link := Option.some.inj hl
    exact ⟨v', rfl, (congrArg VmEntry.conf hlink :), (congrArg VmEntry.newConf hlink :)⟩

theorem isSome (h : Touch b s s') (hv : (s.vm? b).isSome) : (s'.vm? b).isSome := by
  obtain ⟨v, hv⟩ := Option.isSome_iff_exists.mp hv
  obtain ⟨v', hv', -⟩ := h.vm?_self hv
  rw [hv']; rfl

theorem log_of_ne (h : Touch b s s') {a : Addr} (hab : a ≠ b) :
    s'.log.filter (·.about a) = s.log.filter (·.about a) := by
  obtain ⟨l, hl, hx⟩ := h.log
  have hnil : l.filter (·.about a) = [] := by
    rw [List.filter_eq_nil_iff]
    intro x hxl
    simp [Action.about, (hx x hxl).1, Ne.symm hab]
  rw [hl, List.filter_append, hnil, List.nil_append]

theorem procs_of_ne (h : Touch b s s') {a : Addr} (hab : a ≠ b) :
    s'.procs.filter (·.owner == a) = s.procs.filter (·.owner == a) := by
  rw [← filter_filter_of_ne Proc.owner hab, h.procs, filter_filter_of_ne Proc.owner hab]

theorem forced_of_ne (h : Touch b s s') {a : Addr} (hab : a ≠ b) :
    s'.forced.filter (·.vm == a) = s.forced.filter (·.vm == a) := by
  rw [← filter_filter_of_ne Forced.vm hab, h.forced, filter_filter_of_ne Forced.vm hab]

end Touch

/-- Filtering out what does not concern the VM at `a` forgets the changes around the VM at `b`. -/
theorem filter_events_of_ne {a b : Addr} (hab : a ≠ b) {lo hi : Nat} {new old : List Event}
    {keep q : Event → Bool} (hN : NewEvents b lo hi new)
    (hk : ∀ e : Event, e.data ≠ .vm b ∨ e.filter = .proc → keep e = true)
    (hq : ∀ e, q e = true → e.data = .vm a) : (new ++ old.filter keep).filter q = old.filter q := by
  have hnew : new.filter q = [] := by
    rw [List.filter_eq_nil_iff]
    intro e he hqe
    have h1 := hN.vm e he
    rw [hq e hqe] at h1
    exact hab (by cases h1; rfl)
  rw [List.filter_append, hnew, List.nil_append, List.filter_filter]
  refine List.filter_congr fun e _ => ?_
  cases hqe : q e with
  | false => simp
  | true =>
    have hd := hq e hqe
    have : keep e = true := hk e (.inl (by rw [hd]; intro h; cases h; exact hab rfl))
    simp [this]

/-- **Frame.** What is done for the VM at `b` does not change the view of another VM. -/
theorem Within.view {b : Addr} {s s' : Daemon} (h : Within b s s') {a : Addr} (hab : a ≠ b) : s'.view a = s.view a := by
  obtain ⟨new, keep, hev, hN, hk⟩ := h.events
  have hvm := h.vm?_of_ne hab
  have htimers : s'.timersOf a = s.timersOf a := by
    rw [timersOf_eq_blank, timersOf_eq_blank, hev, filter_events_of_ne hab hN hk]
    exact fun e he => (Event.isTimerOf_iff.mp he).1
  have hwaits : (s'.view a).waits = (s.view a).waits := by
    rw [waits_eq_blank, waits_eq_blank, hev, filter_events_of_ne hab hN hk]
    exact fun e he => (Event.isWaitOf_iff.mp he).1
  have hvmOf : s'.vmOf a = s.vmOf a := by simp only [Daemon.vmOf, hvm]
  have hw : (s'.eventList.filter (·.isWaitOf a)).map (·.ident) =
      (s.eventList.filter (·.isWaitOf a)).map (·.ident) := hwaits
  have hexits : s'.exits = s.exits := (congrArg Daemon.exits h.core :)
  simp only [Daemon.view, hvm, hvmOf, htimers, hw, h.procs_of_ne hab, h.log_of_ne hab,
    h.forced_of_ne hab, hexits]

theorem Grow.view {b : Addr} {s s' : Daemon} (h : Grow b s s') {a : Addr} (hab : a ≠ b) :
    s'.view a = s.view a := h.within.view hab

/-- A silent operation changes no view, not even that of its own VM. -/
theorem Silent.view {b : Addr} {s s' : Daemon} (h : Silent b s s') (a : Addr) : s'.view a = s.view a := by
  by_cases hab : a = b
  · subst hab
    have hev : s'.eventList.map Event.blank = s.eventList.map Event.blank :=
      (congrArg Daemon.eventList h.1 :)
    have hbl : ∀ t : Daemon, (t.blank a).vm? a = (t.vm? a).map VmEntry.blank := fun t =>
      Keyed.find?_update_self (k := VmEntry.addr) (f := VmEntry.blank) (fun _ => rfl) t.vmList a
    have hvm : (s'.vm? a).map VmEntry.blank = (s.vm? a).map VmEntry.blank := by
      rw [← hbl, ← hbl, h.1]
    have hst : (s'.vm? a).map (·.state) = (s.vm? a).map (·.state) := by
      have := congrArg (Option.map VmEntry.state) hvm
      simpa [Option.map_map, Function.comp_def] using this
    have hof : ∀ {γ : Type} (f : VmEntry → γ), (∀ v, f v.blank = f v) →
        f (s'.vmOf a) = f (s.vmOf a) := by
      intro γ f hf
      have hc := congrArg (Option.map f) hvm
      simp only [Option.map_map, Function.comp_def, hf] at hc
      cases h1 : s'.vm? a <;> cases h2 : s.vm? a <;> simp_all [Daemon.vmOf]
    have htimers : s'.timersOf a = s.timersOf a := by
      rw [timersOf_eq_blank, timersOf_eq_blank, hev]
    have hwaits : (s'.view a).waits = (s.view a).waits := by
      rw [waits_eq_blank, waits_eq_blank, hev]
    have hw : (s'.eventList.filter (·.isWaitOf a)).map (·.ident) =
        (s.eventList.filter (·.isWaitOf a)).map (·.ident) := hwaits
    have hp : s'.procs = s.procs := (congrArg Daemon.procs h.1 :)
    have hl : s'.log = s.log := (congrArg Daemon.log h.1 :)
    have hf : s'.forced = s.forced := (congrArg Daemon.forced h.1 :)
    have he : s'.exits = s.exits := (congrArg Daemon.exits h.1 :)
    simp only [Daemon.view, hst, hof (·.pid) (fun _ => rfl), hof (·.serial) (fun _ => rfl), htimers, hw,
      hp, hl, hf, he]
  · exact h.grow.view hab

end Bmd
