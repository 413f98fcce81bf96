import Bmd.Daemon.Events
import Bmd.Lib.Prog

/-!
# `Correctness.Removal` — `stop_waiting_for`

Events are removed in one pass over `event_list`, and the kernel is told about them in batches: `kev` holds the
deletions that were not submitted yet. `Sweep.Swept` says what has become of the events that were visited; one visit
extends it by one event, whether or not the batch is full then.
-/

namespace Bmd

variable {fn : Event → Data → Bool} {data : Data} {seen : List Event} {w : Sweep}

/-- What the pass has done with the events in `seen`: the others are still linked, in their order, and of each of these
    a deletion was submitted or is in `kev`, which has room for one more. -/
structure Sweep.Swept (fn : Event → Data → Bool) (data : Data) (seen : List Event) (w : Sweep) : Prop where
  list : w.list = seen.filter fun e => !fn e data
  changes : w.sent.flatten ++ w.kev = (seen.filter fun e => fn e data).map Event.deletion
  room : w.kev.length < batchSize
  batches : ∀ kev ∈ w.sent, kev ≠ [] ∧ kev.length ≤ batchSize
  freed : w.freed = (seen.filter fun e => fn e data).map (·.addr)

theorem Sweep.flush_changes (w : Sweep) : w.flush.sent.flatten ++ w.flush.kev = w.sent.flatten ++ w.kev := by
  simp [Sweep.flush]

/-- A batch that is submitted is not empty, and fits into `kev`. -/
theorem Sweep.flush_batches (h : ∀ kev ∈ w.sent, kev ≠ [] ∧ kev.length ≤ batchSize) (hne : w.kev ≠ [])
    (hle : w.kev.length ≤ batchSize) : ∀ kev ∈ w.flush.sent, kev ≠ [] ∧ kev.length ≤ batchSize := by
  intro kev hkev
  obtain hkev | hkev := List.mem_append.mp hkev
  · exact h kev hkev
  · obtain rfl := List.mem_singleton.mp hkev
    exact ⟨hne, hle⟩

/-- **One visit.** -/
theorem Sweep.Swept.visit (h : Sweep.Swept fn data seen w) (ev : Event) :
    Sweep.Swept fn data (seen ++ [ev]) (w.visit fn data ev) := by
  unfold Sweep.visit
  cases hfn : fn ev data with
  | false =>
    refine ⟨?_, ?_, h.room, h.batches, ?_⟩
    · simp [h.list, hfn]
    · simp [h.changes, hfn]
    · simp [h.freed, hfn]
  | true =>
    have hlen : (w.kev ++ [ev.deletion]).length ≤ batchSize := by
      rw [List.length_append]
      exact h.room
    have hchanges : w.sent.flatten ++ (w.kev ++ [ev.deletion]) =
        ((seen ++ [ev]).filter fun e => fn e data).map Event.deletion := by
      rw [← List.append_assoc, h.changes]
      simp [hfn]
    have hlist : w.list = (seen ++ [ev]).filter fun e => !fn e data := by
      simp [h.list, hfn]
    have hfreed : w.freed ++ [ev.addr] = ((seen ++ [ev]).filter fun e => fn e data).map (·.addr) := by
      simp [h.freed, hfn]
    simp only [if_true]
    split
    · -- The batch is full: it is submitted before the next event.
      have hne : w.kev ++ [ev.deletion] ≠ [] := by simp
      refine ⟨hlist, (Sweep.flush_changes _).trans hchanges, Nat.zero_lt_succ _, ?_, hfreed⟩
      exact Sweep.flush_batches (w := { w with kev := w.kev ++ [ev.deletion] }) h.batches hne hlen
    · next hroom => exact ⟨hlist, hchanges, Nat.lt_of_not_ge hroom, h.batches, hfreed⟩

/-- **The whole pass.** -/
theorem Sweep.Swept.visits (h : Sweep.Swept fn data seen w) (l : List Event) :
    Sweep.Swept fn data (seen ++ l) (l.foldl (Sweep.visit fn data) w) := by
  induction l generalizing seen w with
  | nil => simpa using h
  | cons ev rest ih =>
    have hrest := ih (h.visit ev)
    rwa [List.append_assoc] at hrest

theorem sweepEvents_swept (fn : Event → Data → Bool) (data : Data) (l : List Event) :
    Sweep.Swept fn data l (sweepEvents fn data l) ∧ (sweepEvents fn data l).kev = [] := by
  have hinit : Sweep.Swept fn data [] { list := [], kev := [], sent := [], freed := [] } :=
    ⟨rfl, rfl, Nat.zero_lt_succ _, List.forall_mem_nil _, rfl⟩
  have hall := hinit.visits l
  rw [List.nil_append] at hall
  unfold sweepEvents
  generalize l.foldl (Sweep.visit fn data) { list := [], kev := [], sent := [], freed := [] } = w at hall
  simp only
  split
  · next hpos =>
    refine ⟨⟨hall.list, (Sweep.flush_changes w).trans hall.changes, Nat.zero_lt_succ _, ?_, hall.freed⟩, rfl⟩
    exact Sweep.flush_batches hall.batches (List.ne_nil_of_length_pos hpos) (Nat.le_of_lt hall.room)
  · next hzero => exact ⟨hall, List.eq_nil_of_length_eq_zero (Nat.eq_zero_of_not_pos hzero)⟩

/-- **Removal is exact.** The events that do not satisfy the predicate stay in the list, in their order; for each of the
    others exactly one deletion with its identifier and filter is submitted, in the order of the list, by calls that
    submit at least one change and no more than `kev` has room for. -/
theorem stop_waiting_for_exact (fn : Event → Data → Bool) (data : Data) (eventList : List Event) :
    (sweepEvents fn data eventList).list = eventList.filter (fun e => !fn e data) ∧
    (sweepEvents fn data eventList).sent.flatten = (eventList.filter fun e => fn e data).map Event.deletion ∧
    ∀ kev ∈ (sweepEvents fn data eventList).sent, kev ≠ [] ∧ kev.length ≤ batchSize := by
  obtain ⟨hswept, hempty⟩ := sweepEvents_swept fn data eventList
  refine ⟨hswept.list, ?_, hswept.batches⟩
  rw [← hswept.changes, hempty, List.append_nil]

/-- What the daemon gets to see of the pass. -/
theorem stopWaitingFor_sweep (fn : Event → Data → Bool) (data : Data) (s : Daemon) :
    stopWaitingFor (fn · data) s = .ok ((), { s with
      eventList := (sweepEvents fn data s.eventList).list
      freedEvents := (sweepEvents fn data s.eventList).freed ++ s.freedEvents
      memory := s.memory.sweep (fn · data) }) := by
  obtain ⟨hswept, -⟩ := sweepEvents_swept fn data s.eventList
  rw [hswept.list, hswept.freed]
  rfl

end Bmd
