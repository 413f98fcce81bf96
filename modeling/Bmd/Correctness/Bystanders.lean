import Bmd.Correctness.Connections

/-!
# `Correctness.Bystanders` — what leaves a connection alone

Of all that the daemon does, only the callbacks of a connection's own events, the acceptance that creates it and
the idle timeout touch its `sock_buf` or the flags of its events. `ConnKept a` says that the connection at `a` was
not touched; knotes are left out of it, since the kernel drops them when a descriptor is closed.
-/

namespace Bmd

open Lib Lib.Prog

variable {s s' : Daemon} {a b : Addr} {env : Env}

/-- The events of the connection at `a`, apart from their knotes. -/
def Daemon.linesOf (s : Daemon) (a : Addr) : List Event :=
  (s.eventList.filter (·.data == .sock a)).map ({ · with armed := true })

/-- The connection at `a` was not touched. -/
structure ConnKept (a : Addr) (s s' : Daemon) : Prop where
  sock : s'.sock? a = s.sock? a
  lines : s'.linesOf a = s.linesOf a
  next : s.next ≤ s'.next

instance (a : Addr) : IsPreorder Daemon (ConnKept a) where
  refl _ := ⟨rfl, rfl, Nat.le_refl _⟩
  trans _ _ _ h h' := ⟨h'.sock.trans h.sock, h'.lines.trans h.lines, Nat.le_trans h.next h'.next⟩

/-! ## Elementary operations -/

theorem ConnKept.of_eq (hev : s'.eventList = s.eventList) (hsock : s'.sockList = s.sockList) (hnext : s.next ≤ s'.next) :
    ConnKept a s s' :=
  ⟨by simp only [Daemon.sock?, hsock], by simp only [Daemon.linesOf, hev], hnext⟩

/-- The events are updated by a function that keeps the connection's ones but for their knotes. -/
theorem linesOf_map {f : Event → Event} (hd : ∀ e, (f e).data = e.data)
    (hf : ∀ e, e.data = .sock a → ({ f e with armed := true } : Event) = { e with armed := true }) (l : List Event) :
    ((l.map f).filter (·.data == .sock a)).map ({ · with armed := true }) =
      (l.filter (·.data == .sock a)).map (fun e : Event => ({ e with armed := true } : Event)) := by
  rw [List.filter_map, List.map_map]
  have hp : ((·.data == Data.sock a) ∘ f) = fun e : Event => e.data == .sock a := by
    funext e
    simp only [Function.comp_apply, hd]
  rw [hp]
  refine List.map_congr_left fun e he => ?_
  exact hf e (eq_of_beq (List.mem_filter.mp he).2)

theorem linesOf_blank : s.linesOf a = ((s.eventList.map Event.blank).filter (·.data == .sock a)).map
    ({ · with armed := true }) := by
  refine (linesOf_map Event.blank_data (fun e _ => ?_) s.eventList).symm
  unfold Event.blank
  split <;> rfl

theorem Silent.connKept (h : Silent b s s') : ConnKept a s s' := by
  have hev : s'.eventList.map Event.blank = s.eventList.map Event.blank := (congrArg Daemon.eventList h.1 :)
  have hsock : s'.sockList = s.sockList := (congrArg Daemon.sockList h.1 :)
  exact ⟨by simp only [Daemon.sock?, hsock], by rw [linesOf_blank, hev, ← linesOf_blank], h.2⟩

/-! ## What leaves a connection alone -/

instance (k : Store) : Changes (ConnKept a) k where
  change {s s'} h := by
    refine .of_eq ?_ ?_ (Nat.le_of_eq ?_)
    · rw [← sans_eventList s' k, h, sans_eventList s k]
    · rw [← sans_sockList s' k, h, sans_sockList s k]
    · rw [← sans_next s' k, h, sans_next s k]

instance : Counts (ConnKept a) := ⟨.of_eq rfl rfl (Nat.le_refl _), .of_eq rfl rfl (Nat.le_succ _)⟩

instance : Closes (ConnKept a) where
  close _ := (keeps (R := Silent 0)).mono fun _ _ => Silent.connKept

/-- Events of other objects are dropped. -/
theorem stopWaitingFor_conn {fn : Event → Bool} (h : ∀ e, e.data = .sock a → fn e = false) :
    Keeps (ConnKept a) (stopWaitingFor fn) := by
  refine .modify fun s => ⟨rfl, ?_, Nat.le_refl _⟩
  simp only [Daemon.linesOf, List.filter_filter]
  congr 1
  refine List.filter_congr fun e _ => ?_
  by_cases he : e.data = .sock a
  · simp [h e he]
  · simp [he]

instance : Watches (ConnKept a) where
  watch {s e} h := ⟨rfl, by simp [Daemon.linesOf, Daemon.watch, h a], Nat.le_refl _⟩
  unwatch h _ := stopWaitingFor_conn fun e => h e a

theorem Adds.connKept {P : Event → Prop} (hP : ∀ e, P e → e.data ≠ .sock a) (h : Adds P s s') : ConnKept a s s' := by
  obtain ⟨new, hnew, -, hmem⟩ := h.events
  have hsock : s'.sockList = s.sockList := (congrArg Daemon.sockList h.rest :)
  have hnone : new.filter (·.data == .sock a) = [] :=
    List.filter_eq_nil_iff.mpr fun e he => by simpa using hP e (hmem e he).1
  refine ⟨by simp only [Daemon.sock?, hsock], ?_, h.next⟩
  rw [Daemon.linesOf, hnew, List.filter_append, hnone]
  rfl

/-- Events of another connection are registered. -/
theorem registerEvents_conn {l : List (Kev × Callback × Data)} (h : ∀ x ∈ l, x.2.2 ≠ .sock a) :
    Keeps (ConnKept a) (registerEvents env l) :=
  (registerEvents_adds (P := fun e => e.data ≠ .sock a) fun x hx _ => h x hx).mono fun _ _ => Adds.connKept fun _ => id

end Bmd
