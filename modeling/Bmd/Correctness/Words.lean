import Bmd.Inspect.Grub

/-!
# `Correctness.Words` — looking for a file in a directory listing

`look_for_filename` asks `strstr` for the name and then looks at what stands before and behind it. `strstr` only tells
the *first* occurrence, so the name has to be a word there: in a listing `bsd.rd bsd` the file `bsd` is not found.
-/

namespace Bmd

open Lib

variable {buf name : List Char} {i : Nat}

/-- The text before index `i` ends a word. -/
def StartsWord (buf : List Char) (i : Nat) : Prop := i = 0 ∨ buf[i - 1]? = some ' '

/-- The text from index `i` on does not go on with a word. -/
def EndsWord (buf : List Char) (i : Nat) : Prop := ∀ c, buf[i]? = some c → c = ' ' ∨ c = '\r' ∨ c = '\n'

/-- The name is a complete word of the text. -/
structure WordAt (name buf : List Char) (i : Nat) : Prop where
  occurs : OccursAt name buf i
  starts : StartsWord buf i
  ends : EndsWord buf (i + name.length)

theorem startsWord_iff : (i == 0 || buf[i - 1]? == some ' ') = true ↔ StartsWord buf i := by
  rw [Bool.or_eq_true, beq_iff_eq, beq_iff_eq, StartsWord]

theorem endsWord_iff : (buf[i]?.all fun c => c == ' ' || c == '\r' || c == '\n') = true ↔ EndsWord buf i := by
  unfold EndsWord
  cases buf[i]? with
  | none => simp
  | some c => simp [or_assoc]

/-- `look_for_filename` succeeds where the first occurrence is a word. -/
theorem lookForFilename_eq_true :
    lookForFilename buf name = true ↔ ∃ j, WordAt name buf j ∧ ∀ k < j, ¬OccursAt name buf k := by
  unfold lookForFilename
  cases hfind : findSub name buf with
  | none =>
    have hnone := findSub_eq_none_iff.mp hfind
    constructor
    · intro h
      cases h
    · rintro ⟨j, hword, -⟩
      exact absurd hword.occurs (hnone j)
  | some i =>
    obtain ⟨hocc, hfirst⟩ := findSub_eq_some_iff.mp hfind
    simp only [Bool.and_eq_true, startsWord_iff, endsWord_iff]
    constructor
    · rintro ⟨hstarts, hends⟩
      exact ⟨i, ⟨hocc, hstarts, hends⟩, hfirst⟩
    · rintro ⟨j, hword, hleast⟩
      -- There is only one first occurrence.
      have hij : i ≤ j := Nat.le_of_not_lt fun hlt => hfirst j hlt hword.occurs
      have hji : j ≤ i := Nat.le_of_not_lt fun hlt => hleast i hlt hocc
      obtain rfl := Nat.le_antisymm hij hji
      exact ⟨hword.starts, hword.ends⟩

/-- **The search is for whole words exactly where no other occurrence hides them:** if the name is a word of the text
at all, its first occurrence has to be one. -/
theorem lookForFilename_exact_iff (buf name : List Char) :
    (lookForFilename buf name = true ↔ ∃ i, WordAt name buf i) ↔
      ((∃ i, WordAt name buf i) → ∃ j, WordAt name buf j ∧ ∀ k < j, ¬OccursAt name buf k) := by
  rw [lookForFilename_eq_true]
  constructor
  · intro h hword
    exact h.mpr hword
  · intro h
    constructor
    · rintro ⟨j, hword, -⟩
      exact ⟨j, hword⟩
    · exact h

/-- `bsd.rd` hides `bsd`. -/
theorem lookForFilename_hidden :
    WordAt "bsd".toList "bsd.rd bsd".toList 7 ∧ lookForFilename "bsd.rd bsd".toList "bsd".toList = false := by
  refine ⟨⟨⟨"bsd.rd ".toList, [], by decide, by decide⟩, .inr (by decide), ?_⟩, by decide⟩
  intro c hc
  cases hc

end Bmd
