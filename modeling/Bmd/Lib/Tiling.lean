/-!
# `Lib.Tiling` — an interval that is filled from its beginning

Pieces are put one behind the other, from zero on. `Tiles l n` says that the pieces in `l`, the last one first, fill
the interval up to `n`: then no two of them overlap, and every number below `n` is in one of them.
-/

namespace Bmd.Lib

/-- An interval of natural numbers. -/
structure Piece where
  start : Nat
  size : Nat
  deriving DecidableEq, Repr

namespace Piece

/-- The end, which is no longer in the interval. -/
def stop (p : Piece) : Nat := p.start + p.size

/-- The number is in the interval. -/
def Has (p : Piece) (x : Nat) : Prop := p.start ≤ x ∧ x < p.stop

/-- The intervals do not overlap: one of them ends before the other begins. -/
def Apart (p q : Piece) : Prop := p.stop ≤ q.start ∨ q.stop ≤ p.start

end Piece

/-- The pieces, the last one first, fill the numbers below `n`. -/
def Tiles : List Piece → Nat → Prop
  | [], n => n = 0
  | p :: rest, n => p.stop = n ∧ Tiles rest p.start

namespace Tiles

variable {x k : Nat}

theorem stop_le : ∀ {l : List Piece} {n : Nat}, Tiles l n → ∀ p ∈ l, p.stop ≤ n
  | [], _, _, p, hp => by cases hp
  | q :: rest, n, h, p, hp => by
    have hq : q.start ≤ n := by
      rw [← h.1]
      exact Nat.le_add_right _ _
    obtain rfl | hp := List.mem_cons.mp hp
    · exact Nat.le_of_eq h.1
    · exact Nat.le_trans (stop_le h.2 p hp) hq

/-- No two pieces overlap. -/
theorem apart : ∀ {l : List Piece} {n : Nat}, Tiles l n → l.Pairwise Piece.Apart
  | [], _, _ => .nil
  | _ :: _, _, h => .cons (fun q hq => .inr (stop_le h.2 q hq)) (apart h.2)

/-- Every number below `n` is in a piece, and no other. -/
theorem covers : ∀ {l : List Piece} {n : Nat}, Tiles l n → (x < n ↔ ∃ p ∈ l, p.Has x)
  | [], n, h => by
    have hn : n = 0 := h
    simp [hn]
  | q :: rest, n, h => by
    simp only [List.mem_cons, exists_eq_or_imp]
    rw [← covers h.2, ← h.1]
    unfold Piece.Has Piece.stop
    omega

/-- If the sizes are multiples of `k`, then the pieces begin at multiples of `k`. -/
theorem dvd : ∀ {l : List Piece} {n : Nat}, Tiles l n → (∀ p ∈ l, k ∣ p.size) → k ∣ n ∧ ∀ p ∈ l, k ∣ p.start
  | [], n, h, _ => by
    have hn : n = 0 := h
    exact ⟨hn ▸ Nat.dvd_zero k, List.forall_mem_nil _⟩
  | q :: rest, n, h, hsize => by
    obtain ⟨hq, hrest⟩ := List.forall_mem_cons.mp hsize
    obtain ⟨hstart, hstarts⟩ := dvd h.2 hrest
    refine ⟨?_, List.forall_mem_cons.mpr ⟨hstart, hstarts⟩⟩
    rw [← h.1]
    exact Nat.dvd_add hstart hq

end Tiles

end Bmd.Lib
