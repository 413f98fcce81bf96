import Bmd.Correctness.Frame

/-!
# `Correctness.Grow` — operations that change one virtual machine

`Touch b` says that every VM but the one at `b` is as it was; `Grow b` adds that events of the VM at `b` may
have been registered and none dropped; `Within b` allows events of that VM to be dropped, except the one that
waits for its process. Starting a VM grows, stopping it stays within.
-/

namespace Bmd

open Lib Lib.Prog

variable {s s' : Daemon} {b : Addr} {t u : Daemon}

/-- The entry without what the life of the VM changes: its place in the lists remains. -/
def VmEntry.link (v : VmEntry) : VmEntry := { v.blank with state := .terminate, pid := 0, serial := 0 }

/-- The entries of all VMs, that at `b` reduced to its place in the lists. -/
def Daemon.links (b : Addr) (s : Daemon) : List VmEntry :=
  s.vmList.map fun v => if v.addr == b then v.link else v

/-- Only the VM at `b` was touched. -/
structure Touch (b : Addr) (s s' : Daemon) : Prop where
  links : s'.links b = s.links b
  next : s.next ≤ s'.next
  procs : s'.procs.filter (·.owner != b) = s.procs.filter (·.owner != b)
  pids : (s.procs.map (·.pid)).Nodup → (s'.procs.map (·.pid)).Nodup
  forced : s'.forced.filter (·.vm != b) = s.forced.filter (·.vm != b)
  log : ∃ l, s'.log = l ++ s.log ∧ ∀ x ∈ l, x.vm? = some b ∧ x.isOutside = false

/-- New events of the VM at `b`, with addresses between `lo` and `hi`. -/
structure NewEvents (b : Addr) (lo hi : Nat) (l : List Event) : Prop where
  vm : ∀ e ∈ l, e.data = .vm b
  wf : ∀ e ∈ l, e.wf
  lower : ∀ e ∈ l, lo ≤ e.addr
  upper : ∀ e ∈ l, e.addr < hi
  armed : ∀ e ∈ l, e.armed = true
  nodup : (l.map (·.addr)).Nodup

/-- The state apart from the VMs, their processes and events, and the log. -/
def Daemon.rest (s : Daemon) : Daemon :=
  { s with
    vmList := [], eventList := [], memory := {}, procs := [], log := [], timerId := 0, fds := [], pipes := [], taps := [],
    files := [], launches := [], forced := [],
    next := 0, tick := 0 }

/-- The VM at `b` was worked on and no event was dropped. -/
structure Grow (b : Addr) (s s' : Daemon) : Prop extends Touch b s s' where
  rest : s'.rest = s.rest
  events : ∃ new, s'.eventList.map Event.blank = new ++ s.eventList.map Event.blank ∧
    NewEvents b s.next s'.next new

/-- Every event record is either in the list or was freed once. -/
structure Daemon.EventsOwned (s : Daemon) : Prop where
  nodup : (s.eventList.map (·.addr) ++ s.freedEvents).Nodup
  bound : ∀ x ∈ s.eventList.map (·.addr) ++ s.freedEvents, x < s.next

/-- The part of the state that stopping a VM leaves alone, up to the `install` flags. -/
def Daemon.core (s : Daemon) : Daemon :=
  { s.rest with confs := s.confs.map (·.setInstall false), freedEvents := [] }

/-- The VM at `b` was worked on; the event that waits for its process was not dropped. -/
structure Within (b : Addr) (s s' : Daemon) : Prop extends Touch b s s' where
  core : s'.core = s.core
  events : ∃ new keep, s'.eventList.map Event.blank = new ++ (s.eventList.map Event.blank).filter keep ∧
    NewEvents b s.next s'.next new ∧ ∀ e : Event, e.data ≠ .vm b ∨ e.filter = .proc → keep e = true
  owned : s.EventsOwned → s'.EventsOwned

/-! ## They are preorders -/

instance (b : Addr) : IsPreorder Daemon (Touch b) where
  refl _ := ⟨rfl, Nat.le_refl _, rfl, id, rfl, [], rfl, by simp⟩
  trans s t u h h' := by
    obtain ⟨l, hl, hP⟩ := h.log
    obtain ⟨l', hl', hP'⟩ := h'.log
    refine ⟨h'.links.trans h.links, Nat.le_trans h.next h'.next, h'.procs.trans h.procs,
      h'.pids ∘ h.pids, h'.forced.trans h.forced, l' ++ l, by rw [hl', hl, List.append_assoc], fun x hx => ?_⟩
    rcases List.mem_append.mp hx with hx | hx
    · exact hP' x hx
    · exact hP x hx

namespace NewEvents

variable {b : Addr} {lo mid hi : Nat} {l l' : List Event}

theorem nil : NewEvents b lo hi [] := ⟨by simp, by simp, by simp, by simp, by simp, List.nodup_nil⟩

theorem append (h : NewEvents b lo mid l) (h' : NewEvents b mid hi l') (hlo : lo ≤ mid) (hhi : mid ≤ hi) :
    NewEvents b lo hi (l' ++ l) where
  vm e he := (List.mem_append.mp he).elim (h'.vm e) (h.vm e)
  wf e he := (List.mem_append.mp he).elim (h'.wf e) (h.wf e)
  lower e he := by
    rcases List.mem_append.mp he with he | he
    · exact Nat.le_trans hlo (h'.lower e he)
    · exact h.lower e he
  upper e he := by
    rcases List.mem_append.mp he with he | he
    · exact h'.upper e he
    · exact Nat.lt_of_lt_of_le (h.upper e he) hhi
  armed e he := (List.mem_append.mp he).elim (h'.armed e) (h.armed e)
  nodup := nodup_of_ranges h.nodup h'.nodup (fun e he => ⟨h'.lower e he, h'.upper e he⟩)
    fun e he => ⟨h.lower e he, h.upper e he⟩

theorem filter (h : NewEvents b lo hi l) (keep : Event → Bool) : NewEvents b lo hi (l.filter keep) where
  vm e he := h.vm e (List.mem_filter.mp he).1
  wf e he := h.wf e (List.mem_filter.mp he).1
  lower e he := h.lower e (List.mem_filter.mp he).1
  upper e he := h.upper e (List.mem_filter.mp he).1
  armed e he := h.armed e (List.mem_filter.mp he).1
  nodup := h.nodup.sublist (List.filter_sublist.map _)

end NewEvents

instance (b : Addr) : IsPreorder Daemon (Grow b) where
  refl s := ⟨refl_of (Touch b) s, rfl, [], rfl, .nil⟩
  trans s t u h h' := by
    obtain ⟨new, hnew, hN⟩ := h.events
    obtain ⟨new', hnew', hN'⟩ := h'.events
    exact ⟨trans_of (Touch b) h.toTouch h'.toTouch, h'.rest.trans h.rest, new' ++ new,
      by rw [hnew', hnew, List.append_assoc], hN.append hN' h.next h'.next⟩

instance (b : Addr) : IsPreorder Daemon (Within b) where
  refl s := ⟨refl_of (Touch b) s, rfl, ⟨[], fun _ => true, by simp, .nil, by simp⟩, id⟩
  trans s t u h h' := by
    obtain ⟨new, keep, hnew, hN, hk⟩ := h.events
    obtain ⟨new', keep', hnew', hN', hk'⟩ := h'.events
    refine ⟨trans_of (Touch b) h.toTouch h'.toTouch, h'.core.trans h.core,
      ⟨new' ++ new.filter keep', fun e => keep e && keep' e, ?_, ?_, ?_⟩, h'.owned ∘ h.owned⟩
    · rw [hnew', hnew, List.filter_append, List.filter_filter, List.append_assoc]
      simp only [Bool.and_comm]
    · exact (hN.filter keep').append hN' h.next h'.next
    · intro e he
      simp [hk e he, hk' e he]

theorem Grow.trans (h : Grow b s t) (h' : Grow b t u) : Grow b s u :=
  trans_of (Grow b) h h'

theorem Within.trans (h : Within b s t) (h' : Within b t u) : Within b s u :=
  trans_of (Within b) h h'

/-! ## From finer to coarser -/

/-- An entry that is silent about the VM at `b` keeps its place. -/
theorem links_of_blank (b : Addr) (s : Daemon) : (s.blank b).links b = s.links b := by
  simp only [Daemon.links, Daemon.blank, List.map_map]
  refine List.map_congr_left fun v _ => ?_
  by_cases hv : v.addr = b <;> simp [hv, VmEntry.link, VmEntry.blank]

theorem Silent.touch (h : Silent b s s') : Touch b s s' where
  links := by rw [← links_of_blank, h.1, links_of_blank]
  next := h.2
  procs := congrArg (fun t => t.procs.filter (·.owner != b)) h.1
  pids := by
    have hp : s'.procs = s.procs := (congrArg Daemon.procs h.1 :)
    rw [hp]; exact id
  forced := congrArg (fun t => t.forced.filter (·.vm != b)) h.1
  log := ⟨[], (congrArg Daemon.log h.1 :), by simp⟩

theorem Silent.grow (h : Silent b s s') : Grow b s s' where
  toTouch := h.touch
  rest := (congrArg Daemon.rest h.1 :)
  events := ⟨[], (congrArg Daemon.eventList h.1 :), .nil⟩

/-- New events do not collide with the old ones. -/
theorem EventsOwned.of_new {new : List Event}
    (hev : s'.eventList.map Event.blank = new ++ s.eventList.map Event.blank)
    (hN : NewEvents b s.next s'.next new) (hnext : s.next ≤ s'.next)
    (hfreed : s'.freedEvents = s.freedEvents) (h : s.EventsOwned) : s'.EventsOwned := by
  have haddr : s'.eventList.map (·.addr) = new.map (·.addr) ++ s.eventList.map (·.addr) := by
    have := congrArg (List.map Event.addr) hev
    simpa [List.map_map, Function.comp_def] using this
  have hold : ∀ x ∈ s.eventList.map (·.addr) ++ s.freedEvents, x < s.next := h.bound
  constructor
  · rw [haddr, hfreed, List.append_assoc, List.nodup_append]
    refine ⟨hN.nodup, h.nodup, fun x hx y hy => ?_⟩
    obtain ⟨e, he, rfl⟩ := List.mem_map.mp hx
    have h1 := hN.lower e he
    have h2 := hold y hy
    omega
  · intro x hx
    rw [haddr, hfreed, List.append_assoc] at hx
    rcases List.mem_append.mp hx with hx | hx
    · obtain ⟨e, he, rfl⟩ := List.mem_map.mp hx
      exact hN.upper e he
    · exact Nat.lt_of_lt_of_le (hold x hx) hnext

theorem Grow.within (h : Grow b s s') : Within b s s' := by
  obtain ⟨new, hnew, hN⟩ := h.events
  refine ⟨h.toTouch, (congrArg Daemon.core h.rest :), ⟨new, fun _ => true, by rw [List.filter_true]; exact hnew,
    hN, by simp⟩, EventsOwned.of_new hnew hN h.next ((congrArg Daemon.freedEvents h.rest :))⟩

theorem Silent.within (h : Silent b s s') : Within b s s' := h.grow.within

/-- Events registered for the VM at `b`. -/
theorem Adds.grow {P : Event → Prop}
    (hP : ∀ e, P e → e.data = .vm b ∧ e.wf ∧ e.armed = true) (h : Adds P s s') : Grow b s s' := by
  obtain ⟨new, hnew, hnd, hmem⟩ := h.events
  have hblank : ∀ e : Event, e.blank.wf ↔ e.wf := fun e => by simp [Event.wf]
  refine ⟨⟨?_, h.next, ?_, ?_, ?_, [], ?_, by simp⟩, ?_, new.map Event.blank, ?_, ?_⟩
  · exact (congrArg (Daemon.links b) h.rest :)
  · exact congrArg (fun t => t.procs.filter (·.owner != b)) h.rest
  · have hp : s'.procs = s.procs := (congrArg Daemon.procs h.rest :)
    rw [hp]; exact id
  · exact congrArg (fun t => t.forced.filter (·.vm != b)) h.rest
  · exact (congrArg Daemon.log h.rest :)
  · exact (congrArg Daemon.rest h.rest :)
  · rw [hnew, List.map_append]
  · constructor
    · intro e he
      obtain ⟨e', he', rfl⟩ := List.mem_map.mp he
      simpa using (hP e' (hmem e' he').1).1
    · intro e he
      obtain ⟨e', he', rfl⟩ := List.mem_map.mp he
      exact (hblank e').mpr (hP e' (hmem e' he').1).2.1
    · intro e he
      obtain ⟨e', he', rfl⟩ := List.mem_map.mp he
      simpa using (hmem e' he').2.1
    · intro e he
      obtain ⟨e', he', rfl⟩ := List.mem_map.mp he
      simpa using (hmem e' he').2.2
    · intro e he
      obtain ⟨e', he', rfl⟩ := List.mem_map.mp he
      exact Event.blank_armed (hP e' (hmem e' he').1).2.2
    · simpa [List.map_map, Function.comp_def] using hnd

end Bmd
