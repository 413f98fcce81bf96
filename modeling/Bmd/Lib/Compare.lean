import Mathlib.Data.Prod.Lex
import Mathlib.Order.WithBot

/-!
# `Lib.Compare` — comparison functions in the manner of C

Such a function returns an integer whose sign says which of two values comes first. `Signed c x y` says that `c` has
the sign that belongs to `x` and `y` in a linear order. A function whose results are `Signed` with respect to a key of
its arguments is a total preorder (`Signed.preorder`), and lexicographic comparison and a missing value that comes last
are read off the key (`Signed.lex`, `Signed.top`).
-/

namespace Bmd.Lib

/-- What a sort asks of a comparison function on the elements of a list. -/
structure TotalPreorderOn {α : Type} (cmp : α → α → Int) (l : List α) : Prop where
  refl : ∀ a ∈ l, cmp a a = 0
  flip : ∀ a ∈ l, ∀ b ∈ l, cmp a b < 0 ↔ 0 < cmp b a
  trans : ∀ a ∈ l, ∀ b ∈ l, ∀ c ∈ l, cmp a b ≤ 0 → cmp b c ≤ 0 → cmp a c ≤ 0

variable {α ρ τ : Type} [LinearOrder ρ] [LinearOrder τ]

/-- The sign of `c` is the order of `x` and `y`. -/
structure Signed (c : Int) (x y : ρ) : Prop where
  lt : c < 0 ↔ x < y
  eq : c = 0 ↔ x = y

namespace Signed

variable {c d : Int} {x y : ρ} {u v : τ}

theorem le (h : Signed c x y) : c ≤ 0 ↔ x ≤ y := by
  rw [Int.le_iff_lt_or_eq, h.lt, h.eq, le_iff_lt_or_eq]

theorem pos (h : Signed c x y) : 0 < c ↔ y < x := by
  rw [← Int.not_le, h.le, not_le]

theorem sub (m n : Int) : Signed (m - n) m n := ⟨by omega, by omega⟩

/-- The second comparison decides where the first one finds no difference. -/
theorem lex (h : Signed c x y) (h' : Signed d u v) : Signed (if c ≠ 0 then c else d) (toLex (x, u)) (toLex (y, v)) := by
  by_cases hc : c = 0
  · rw [if_neg (not_not.mpr hc)]
    obtain rfl := h.eq.mp hc
    constructor
    · rw [h'.lt, Prod.Lex.toLex_lt_toLex]
      simp
    · rw [h'.eq, toLex_inj, Prod.mk.injEq]
      simp
  · rw [if_pos hc]
    have hne : x ≠ y := fun heq => hc (h.eq.mpr heq)
    constructor
    · rw [h.lt, Prod.Lex.toLex_lt_toLex]
      simp [hne]
    · rw [toLex_inj, Prod.mk.injEq]
      simp [hc, hne]

theorem coe (h : Signed c x y) : Signed c (x : WithTop ρ) (y : WithTop ρ) :=
  ⟨h.lt.trans WithTop.coe_lt_coe.symm, h.eq.trans WithTop.coe_inj.symm⟩

/-- What is missing comes last. -/
theorem coe_top (x : ρ) : Signed (-1) (x : WithTop ρ) ⊤ :=
  ⟨iff_of_true (by decide) (WithTop.coe_lt_top x), iff_of_false (by decide) (WithTop.coe_ne_top)⟩

theorem top_coe (x : ρ) : Signed 1 (⊤ : WithTop ρ) x :=
  ⟨iff_of_false (by decide) not_top_lt, iff_of_false (by decide) WithTop.top_ne_coe⟩

theorem refl (x : ρ) : Signed 0 x x := ⟨iff_of_false (by decide) (lt_irrefl x), iff_of_true rfl rfl⟩

/-- A comparison of keys is a total preorder. -/
theorem preorder {cmp : α → α → Int} {key : α → ρ} {l : List α}
    (h : ∀ a ∈ l, ∀ b ∈ l, Signed (cmp a b) (key a) (key b)) : TotalPreorderOn cmp l where
  refl a ha := (h a ha a ha).eq.mpr rfl
  flip a ha b hb := by rw [(h a ha b hb).lt, (h b hb a ha).pos]
  trans a ha b hb c hc hab hbc := by
    rw [(h a ha b hb).le] at hab
    rw [(h b hb c hc).le] at hbc
    exact (h a ha c hc).le.mpr (hab.trans hbc)

end Signed

end Bmd.Lib
