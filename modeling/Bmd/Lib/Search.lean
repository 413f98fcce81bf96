/-!
# `Lib.Search` — the first occurrence of a list in another one

`findSub` is the naive search from the left. It is known by `findSub_eq_some_iff`: the index is one at which the
pattern occurs, and there is none before it.
-/

namespace Bmd.Lib

variable {α : Type} [DecidableEq α] {pat l : List α} {i : Nat}

/-- The index of the first occurrence of `pat`; the empty list occurs at once. -/
def findSub (pat : List α) : List α → Option Nat
  | [] => if pat = [] then some 0 else none
  | c :: s => if pat.isPrefixOf (c :: s) then some 0 else (findSub pat s).map (· + 1)

/-- The pattern occurs behind the first `i` elements. -/
def OccursAt (pat l : List α) (i : Nat) : Prop := ∃ before after, l = before ++ pat ++ after ∧ before.length = i

omit [DecidableEq α] in
theorem occursAt_zero : OccursAt pat l 0 ↔ pat <+: l := by
  constructor
  · rintro ⟨before, after, rfl, hlen⟩
    obtain rfl := List.eq_nil_of_length_eq_zero hlen
    exact ⟨after, rfl⟩
  · rintro ⟨after, rfl⟩
    exact ⟨[], after, rfl, rfl⟩

omit [DecidableEq α] in
theorem occursAt_succ {c : α} : OccursAt pat (c :: l) (i + 1) ↔ OccursAt pat l i := by
  constructor
  · rintro ⟨before, after, heq, hlen⟩
    cases before with
    | nil => cases hlen
    | cons d before =>
      obtain ⟨-, heq⟩ := List.cons.inj heq
      exact ⟨before, after, heq, Nat.succ.inj hlen⟩
  · rintro ⟨before, after, rfl, rfl⟩
    exact ⟨c :: before, after, rfl, rfl⟩

omit [DecidableEq α] in
/-- An occurrence that ends early enough lies in the first part. -/
theorem OccursAt.of_append {x y : List α} (h : OccursAt pat (x ++ y) i) (hle : i + pat.length ≤ x.length) :
    OccursAt pat x i := by
  obtain ⟨before, after, heq, rfl⟩ := h
  have hwhole : before ++ pat <+: x ++ y := ⟨after, heq.symm⟩
  have hlength : (before ++ pat).length ≤ x.length := by
    rw [List.length_append]
    exact hle
  obtain ⟨rest, hrest⟩ := List.prefix_of_prefix_length_le hwhole (List.prefix_append x y) hlength
  exact ⟨before, rest, hrest.symm, rfl⟩

/-- **The search finds the first occurrence.** -/
theorem findSub_eq_some_iff : ∀ {l : List α} {i : Nat},
    findSub pat l = some i ↔ OccursAt pat l i ∧ ∀ j < i, ¬OccursAt pat l j
  | [], i => by
    have hnil : OccursAt pat [] i ↔ pat = [] ∧ i = 0 := by
      constructor
      · rintro ⟨before, after, heq, rfl⟩
        obtain ⟨hleft, -⟩ := List.append_eq_nil_iff.mp heq.symm
        obtain ⟨rfl, rfl⟩ := List.append_eq_nil_iff.mp hleft
        exact ⟨rfl, rfl⟩
      · rintro ⟨rfl, rfl⟩
        exact ⟨[], [], rfl, rfl⟩
    rw [findSub, hnil]
    split
    · next hpat =>
      constructor
      · intro h
        obtain rfl := Option.some.inj h
        exact ⟨⟨hpat, rfl⟩, fun j hj => absurd hj (Nat.not_lt_zero j)⟩
      · rintro ⟨⟨-, rfl⟩, -⟩
        rfl
    · next hpat => exact ⟨fun h => (by cases h), fun h => absurd h.1.1 hpat⟩
  | c :: s, i => by
    rw [findSub]
    split
    · next hprefix =>
      have hzero : OccursAt pat (c :: s) 0 := occursAt_zero.mpr (List.isPrefixOf_iff_prefix.mp hprefix)
      constructor
      · intro h
        obtain rfl := Option.some.inj h
        exact ⟨hzero, fun j hj => absurd hj (Nat.not_lt_zero j)⟩
      · rintro ⟨-, hfirst⟩
        obtain rfl : i = 0 := Nat.eq_zero_of_not_pos fun hpos => hfirst 0 hpos hzero
        rfl
    · next hprefix =>
      have hzero : ¬OccursAt pat (c :: s) 0 := fun h => hprefix (List.isPrefixOf_iff_prefix.mpr (occursAt_zero.mp h))
      cases i with
      | zero =>
        constructor
        · intro h
          obtain ⟨j, -, hj⟩ := Option.map_eq_some_iff.mp h
          cases hj
        · intro h
          exact absurd h.1 hzero
      | succ i =>
        rw [occursAt_succ, Option.map_eq_some_iff]
        constructor
        · rintro ⟨j, hj, hji⟩
          obtain rfl := Nat.succ.inj hji
          obtain ⟨hocc, hfirst⟩ := findSub_eq_some_iff.mp hj
          refine ⟨hocc, fun k hk => ?_⟩
          cases k with
          | zero => exact hzero
          | succ k => exact fun h => hfirst k (Nat.lt_of_succ_lt_succ hk) (occursAt_succ.mp h)
        · rintro ⟨hocc, hfirst⟩
          refine ⟨i, findSub_eq_some_iff.mpr ⟨hocc, fun k hk h => ?_⟩, rfl⟩
          exact hfirst (k + 1) (Nat.succ_lt_succ hk) (occursAt_succ.mpr h)

/-- The search is in vain if there is no occurrence. -/
theorem findSub_eq_none_iff : findSub pat l = none ↔ ∀ i, ¬OccursAt pat l i := by
  constructor
  · intro hnone i hocc
    -- The least index with an occurrence would have been found.
    induction i using Nat.strongRecOn with
    | ind i ih =>
      have hsome := findSub_eq_some_iff.mpr ⟨hocc, ih⟩
      rw [hnone] at hsome
      cases hsome
  · intro h
    cases hsome : findSub pat l with
    | none => rfl
    | some i => exact absurd (findSub_eq_some_iff.mp hsome).1 (h i)

end Bmd.Lib
