import Mathlib.Data.Int.ModEq

/-!
# `Lib.Long` — the C type `long` and `strtol(3)`

Values of a 64-bit `long` are integers between `longMin` and `longMax`. `wrap64` is what two's-complement arithmetic
makes of an integer; it is congruent to the integer modulo 2⁶⁴, and congruent values in the range are equal.
`scanInt` reads the integer that a text begins with, as far as it goes; `strtol` clips it to the range.
-/

namespace Bmd.Lib

/-! ## The range -/

def longMin : Int := -2 ^ 63

def longMax : Int := 2 ^ 63 - 1

/-- The values of a `long`. -/
def inLong (v : Int) : Prop := longMin ≤ v ∧ v ≤ longMax

instance : DecidablePred inLong := fun v => inferInstanceAs (Decidable (longMin ≤ v ∧ v ≤ longMax))

/-- The integer if it is a `long`. -/
def within (v : Int) : Option Int := if inLong v then some v else none

variable {v w a : Int}

theorem within_eq_some : within v = some w ↔ v = w ∧ inLong v := by
  unfold within
  split
  · next h => exact ⟨fun hw => ⟨Option.some.inj hw, h⟩, fun hw => by rw [hw.1]⟩
  · next h => exact ⟨nofun, fun hw => (h hw.2).elim⟩

/-- Two's complement. -/
def wrap64 (v : Int) : Int := Int.bmod v (2 ^ 64)

theorem wrap64_inLong (v : Int) : inLong (wrap64 v) := by
  have hlo := Int.le_bmod (x := v) (m := 2 ^ 64) (by decide)
  have hhi := Int.bmod_lt (x := v) (m := 2 ^ 64) (by decide)
  unfold inLong longMin longMax wrap64
  omega

theorem wrap64_modEq (v : Int) : wrap64 v ≡ v [ZMOD 2 ^ 64] := Int.bmod_emod

/-- Congruent values of a `long` are equal. -/
theorem eq_of_modEq (hv : inLong v) (hw : inLong w) (h : v ≡ w [ZMOD 2 ^ 64]) : v = w := by
  unfold inLong longMin longMax at hv hw
  have hm : v % 2 ^ 64 = w % 2 ^ 64 := h
  omega

theorem wrap64_of_inLong (h : inLong v) : wrap64 v = v := eq_of_modEq (wrap64_inLong v) h (wrap64_modEq v)

/-- A remainder of a `long` is one. -/
theorem tmod_inLong (ha : inLong a) (b : Int) : inLong (a.tmod b) := by
  have habs : (a.tmod b).natAbs ≤ a.natAbs := by
    rw [Int.natAbs_tmod]
    exact Nat.mod_le _ _
  unfold inLong longMin longMax at *
  rcases Int.le_total 0 a with h | h
  · have := Int.tmod_nonneg b h
    omega
  · have := Int.tmod_nonneg b (Int.neg_nonneg_of_nonpos h)
    rw [Int.neg_tmod] at this
    omega

/-- The only quotient that is no `long`. -/
theorem tdiv_inLong_iff {b : Int} (ha : inLong a) : inLong (a.tdiv b) ↔ ¬(a = longMin ∧ b = -1) := by
  constructor
  · rintro hq ⟨rfl, rfl⟩
    revert hq
    decide
  · intro hne
    have habs : (a.tdiv b).natAbs = a.natAbs / b.natAbs := Int.natAbs_tdiv a b
    have hle : a.natAbs / b.natAbs ≤ a.natAbs := Nat.div_le_self _ _
    unfold inLong longMin longMax at *
    rcases Int.lt_or_le b (-1) with hb | hb
    · have hhalf : a.natAbs / b.natAbs ≤ a.natAbs / 2 := Nat.div_le_div_left (by omega) (by decide)
      omega
    · by_cases hb1 : b = -1
      · subst hb1
        omega
      · rcases Int.le_total 0 a with h | h
        · omega
        · have hq := Int.tdiv_nonneg (Int.neg_nonneg_of_nonpos h) (show 0 ≤ b by omega)
          rw [Int.neg_tdiv] at hq
          omega

/-! ## Reading integers -/

/-- `isspace`. -/
def isSpace (c : Char) : Bool := c == ' ' || ('\t' ≤ c && c ≤ '\r')

/-- The value of a digit or a letter. -/
def digitVal (c : Char) : Option Nat :=
  if '0' ≤ c ∧ c ≤ '9' then some (c.toNat - '0'.toNat)
  else if 'A' ≤ c ∧ c ≤ 'Z' then some (c.toNat - 'A'.toNat + 10)
  else if 'a' ≤ c ∧ c ≤ 'z' then some (c.toNat - 'a'.toNat + 10)
  else none

/-- A digit of the base. -/
def isDigitOf (base : Nat) (c : Char) : Bool := (digitVal c).any (· < base)

/-- The digits at the beginning, after `acc`. -/
def scanDigits (base acc : Nat) : List Char → Nat × List Char
  | [] => (acc, [])
  | c :: s => if isDigitOf base c then scanDigits base (acc * base + (digitVal c).getD 0) s else (acc, c :: s)

/-- The sign at the beginning. -/
def scanSign : List Char → Bool × List Char
  | '-' :: s => (true, s)
  | '+' :: s => (false, s)
  | s => (false, s)

/-- The base that base 0 stands for, and the text behind `0x`. -/
def scanBase (base : Nat) : List Char → Nat × List Char
  | '0' :: x :: c :: s =>
    if (base = 0 ∨ base = 16) ∧ (x = 'x' ∨ x = 'X') ∧ isDigitOf 16 c then (16, c :: s)
    else (if base = 0 then 8 else base, '0' :: x :: c :: s)
  | '0' :: s => (if base = 0 then 8 else base, '0' :: s)
  | s => (if base = 0 then 10 else base, s)

/-- The integer at the beginning of a text and the rest; `none` when there is no digit. -/
def scanInt (base : Nat) (text : List Char) : Option (Int × List Char) :=
  let (neg, s) := scanSign (text.dropWhile isSpace)
  let (base, s) := scanBase base s
  if (s.head?).any (isDigitOf base) then
    let (n, rest) := scanDigits base 0 s
    some (if neg then -(n : Int) else n, rest)
  else none

/-- The nearest `long`. -/
def clamp (v : Int) : Int := max longMin (min v longMax)

theorem clamp_of_inLong (h : inLong v) : clamp v = v := by
  unfold inLong at h
  unfold clamp
  omega

/-- `strtol(text, &p, base)`: the value and the text at `p`. -/
def strtol (base : Nat) (text : List Char) : Int × List Char :=
  match scanInt base text with
  | none => (0, text)
  | some (v, rest) => (clamp v, rest)

/-- `n = strtol(text, &p, base)` with the test `*p == '\0'`. -/
def strtolAll (base : Nat) (text : String) : Option Int :=
  match strtol base text.toList with
  | (v, []) => some v
  | _ => none

/-- The integer that a text denotes; the empty text stands for zero. -/
def intOf (base : Nat) (text : String) : Option Int :=
  match scanInt base text.toList with
  | none => if text.toList = [] then some 0 else none
  | some (v, []) => some v
  | some _ => none

/-- The integer that the whole text denotes. -/
def denoted (base : Nat) (text : String) : Option Int :=
  match scanInt base text.toList with
  | some (v, []) => some v
  | _ => none

/-- A text without digits is read as zero if nothing is left of it, that is if it is empty. -/
theorem strtolAll_eq (base : Nat) (text : String) :
    strtolAll base text = if text = "" then some 0 else (denoted base text).map clamp := by
  by_cases hempty : text = ""
  · rw [if_pos hempty, hempty]
    rfl
  · rw [if_neg hempty]
    have hlist : text.toList ≠ [] := fun h => hempty (String.toList_inj.mp h)
    unfold strtolAll strtol denoted
    cases hscan : scanInt base text.toList with
    | none =>
      cases htext : text.toList with
      | nil => exact absurd htext hlist
      | cons c rest => rfl
    | some p =>
      obtain ⟨v, rest⟩ := p
      cases rest with
      | nil => rfl
      | cons c rest => rfl

theorem denoted_empty (base : Nat) : denoted base "" = none := rfl

/-- `strtol` reads what is in the range. -/
theorem strtolAll_of_intOf {base : Nat} {text : String} (h : intOf base text = some v) (hv : inLong v) :
    strtolAll base text = some v := by
  unfold intOf at h
  unfold strtolAll strtol
  split at h
  · next hnone =>
    split at h
    · next hempty =>
      rw [hnone, hempty]
      exact h
    · cases h
  · next w hsome =>
    rw [hsome]
    cases h
    show some (clamp v) = some v
    rw [clamp_of_inLong hv]
  · cases h

end Bmd.Lib
