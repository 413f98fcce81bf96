import Mathlib.Data.List.Basic

/-!
# `Lib.Getopt` — `getopt(3)`

`getopt` is called in a loop on the elements of an argument vector behind the first one. The count it is given may be
larger than the vector; the difference is the `slack`. Behind the vector stands a null pointer, so a call that goes on
where the elements end uses that pointer.

`getopt_words` is the rule for option lists that a program writes out: they are read back as they are.
-/

namespace Bmd.Lib

/-- The letters of an option string, and whether one takes an argument. -/
abbrev OptString := Char → Option Bool

/-- An option with its argument. -/
structure Opt where
  letter : Char
  arg : Option String
  deriving DecidableEq, Repr

/-- How a loop over `getopt` ends: with the operands, at a letter that is not known, at a missing argument, or behind
    the vector. -/
inductive Scan where
  | done (opts : List Opt) (operands : List String)
  | illegal
  | missing
  | overrun
  deriving DecidableEq, Repr

/-- More options come before. -/
def Scan.after (opts : List Opt) : Scan → Scan
  | .done os operands => .done (opts ++ os) operands
  | s => s

/-- The letters of one element: the options, and a last letter that takes its argument from the next element. -/
def letters (spec : OptString) : List Char → Option (List Opt × Option Char)
  | [] => some ([], none)
  | c :: cs =>
    match spec c with
    | none => none
    | some false => (letters spec cs).map fun r => (⟨c, none⟩ :: r.1, r.2)
    | some true => if cs = [] then some ([], some c) else some ([⟨c, some (String.ofList cs)⟩], none)

/-- The loop over `getopt`. -/
def getopt (spec : OptString) (slack : Nat) : List String → Scan
  | [] => if slack = 0 then .done [] [] else .overrun
  | e :: rest =>
    match e.toList with
    | '-' :: c :: cs =>
      if c = '-' ∧ cs = [] then .done [] rest
      else
        match letters spec (c :: cs) with
        | none => .illegal
        | some (os, none) => (getopt spec slack rest).after os
        | some (os, some l) =>
          match rest with
          | [] => if slack = 0 then .missing else .overrun
          | arg :: rest => (getopt spec slack rest).after (os ++ [⟨l, some arg⟩])
    | _ => .done [] (e :: rest)

/-- The element is an operand wherever it stands: it has no minus, or nothing behind it. -/
def isOperand (e : String) : Bool :=
  match e.toList with
  | '-' :: _ :: _ => false
  | _ => true

section

variable {spec : OptString} {slack : Nat} {rest : List String}

theorem Scan.after_nil (s : Scan) : s.after [] = s := by
  cases s <;> rfl

theorem Scan.after_after (os os' : List Opt) (s : Scan) : (s.after os').after os = s.after (os ++ os') := by
  cases s with
  | done opts operands =>
    show Scan.done (os ++ (os' ++ opts)) operands = .done (os ++ os' ++ opts) operands
    rw [List.append_assoc]
  | illegal | missing | overrun => rfl

theorem Scan.after_eq_done {os opts : List Opt} {operands : List String} {s : Scan} (h : s.after os = .done opts operands) :
    ∃ os', s = .done os' operands ∧ opts = os ++ os' := by
  cases s with
  | done os' operands' =>
    obtain ⟨rfl, rfl⟩ := Scan.done.inj h
    exact ⟨os', rfl, rfl⟩
  | illegal | missing | overrun => cases h

variable {e : String}

theorem exists_dashed (h : isOperand e = false) : ∃ c cs, e.toList = '-' :: c :: cs := by
  unfold isOperand at h
  split at h
  · next c cs heq => exact ⟨c, cs, heq⟩
  · cases h

theorem getopt_operand (h : isOperand e = true) : getopt spec slack (e :: rest) = .done [] (e :: rest) := by
  unfold isOperand at h
  unfold getopt
  split
  · next heq =>
    rw [heq] at h
    cases h
  · rfl

/-- The elements that a program writes for an option. -/
def Opt.words (o : Opt) : List String := String.ofList ['-', o.letter] :: o.arg.toList

/-- The option string knows the option in this form. -/
def Opt.Known (spec : OptString) (o : Opt) : Prop := o.letter ≠ '-' ∧ spec o.letter = some o.arg.isSome

theorem getopt_opt {o : Opt} (h : o.Known spec) :
    getopt spec slack (o.words ++ rest) = (getopt spec slack rest).after [o] := by
  obtain ⟨c, arg⟩ := o
  obtain ⟨hc, hspec⟩ := h
  have hdash : ¬(c = '-' ∧ True) := fun hend => hc hend.1
  cases arg with
  | none =>
    show getopt spec slack (String.ofList ['-', c] :: rest) = _
    simp only [getopt, String.toList_ofList, if_neg hdash, letters, show spec c = some false from hspec, Option.map_some]
  | some a =>
    show getopt spec slack (String.ofList ['-', c] :: a :: rest) = _
    simp only [getopt, String.toList_ofList, if_neg hdash, letters, show spec c = some true from hspec, if_true,
      List.nil_append]

/-- **Options that are written out are read back.** -/
theorem getopt_words : ∀ {opts : List Opt}, (∀ o ∈ opts, o.Known spec) →
    getopt spec slack (opts.flatMap Opt.words ++ rest) = (getopt spec slack rest).after opts
  | [], _ => (Scan.after_nil _).symm
  | o :: opts, h => by
    obtain ⟨ho, hopts⟩ := List.forall_mem_cons.mp h
    rw [List.flatMap_cons, List.append_assoc, getopt_opt ho, getopt_words hopts, Scan.after_after]
    rfl

/-- An element that is no operand is not left over as one. -/
theorem getopt_dashed (h : isOperand e = false) (opts : List Opt) : getopt spec 0 [e] ≠ .done opts [e] := by
  obtain ⟨c, cs, heq⟩ := exists_dashed h
  simp only [getopt, heq]
  split
  · nofun
  · split
    · nofun
    · nofun
    · nofun

/-! ## The arguments of options -/

/-- The arguments of the options with a letter. -/
def argsOf (c : Char) (opts : List Opt) : List String := opts.filterMap fun o => if o.letter = c then o.arg else none

variable {c : Char}

theorem argsOf_append (l l' : List Opt) : argsOf c (l ++ l') = argsOf c l ++ argsOf c l' := List.filterMap_append

theorem argsOf_cons (o : Opt) (l : List Opt) :
    argsOf c (o :: l) = (if o.letter = c then o.arg.toList else []) ++ argsOf c l := by
  rw [argsOf, List.filterMap_cons]
  by_cases h : o.letter = c
  · rw [if_pos h, if_pos h]
    cases o.arg <;> rfl
  · rw [if_neg h, if_neg h]
    rfl

theorem argsOf_flags {l : List Opt} (h : ∀ o ∈ l, o.arg = none) : argsOf c l = [] := by
  refine List.filterMap_eq_nil_iff.mpr fun o ho => ?_
  rw [h o ho, ite_self]

theorem argsOf_map (d : Char) (f : String → String) (l : List String) :
    argsOf c (l.map fun a => ⟨d, some (f a)⟩) = if d = c then l.map f else [] := by
  induction l with
  | nil => exact (ite_self _).symm
  | cons a l ih =>
    rw [List.map_cons, argsOf_cons, ih]
    by_cases h : d = c
    · rw [if_pos h, if_pos h, if_pos h]
      rfl
    · rw [if_neg h, if_neg h, if_neg h]
      rfl

/-! ## Option strings without arguments -/

/-- The element consists of known letters. -/
def isFlags (spec : OptString) (e : String) : Bool :=
  match e.toList with
  | '-' :: c :: cs => (c :: cs).all fun c => (spec c).isSome
  | _ => false

theorem isFlags_operand (h : isOperand e = true) : isFlags spec e = false := by
  unfold isOperand at h
  unfold isFlags
  split
  · next heq =>
    rw [heq] at h
    cases h
  · rfl

theorem letters_flags (hspec : ∀ c, spec c ≠ some true) : ∀ cs : List Char,
    (cs.all (fun c => (spec c).isSome) = true ∧ ∃ os, letters spec cs = some (os, none)) ∨
      (cs.all (fun c => (spec c).isSome) = false ∧ letters spec cs = none)
  | [] => .inl ⟨rfl, [], rfl⟩
  | c :: cs => by
    unfold letters
    rw [List.all_cons]
    cases hc : spec c with
    | none => exact .inr ⟨rfl, rfl⟩
    | some arg =>
      cases arg with
      | true => exact absurd hc (hspec c)
      | false =>
        obtain ⟨hall, os, hos⟩ | ⟨hall, hnone⟩ := letters_flags hspec cs
        · exact .inl ⟨hall, ⟨c, none⟩ :: os, by simp only [hos, Option.map_some]⟩
        · exact .inr ⟨hall, by simp only [hnone, Option.map_none]⟩

/-- **With too large a count, the loop runs over the end exactly when there are only options**; otherwise the count makes
    no difference. -/
theorem getopt_slack (hspec : ∀ c, spec c ≠ some true) (hdash : spec '-' = none) (hslack : slack ≠ 0) :
    ∀ args : List String, getopt spec slack args = if args.all (isFlags spec) then .overrun else getopt spec 0 args
  | [] => by
    unfold getopt
    rw [if_neg hslack]
    rfl
  | e :: rest => by
    have ih := getopt_slack hspec hdash hslack rest
    rw [List.all_cons]
    cases hop : isOperand e with
    | true => rw [getopt_operand hop, getopt_operand hop, isFlags_operand hop, Bool.false_and, if_neg Bool.false_ne_true]
    | false =>
      obtain ⟨c, cs, heq⟩ := exists_dashed hop
      have hflags : isFlags spec e = (c :: cs).all fun c => (spec c).isSome := by simp only [isFlags, heq]
      simp only [getopt, heq, hflags]
      by_cases hend : c = '-' ∧ cs = []
      · rw [if_pos hend, if_pos hend, hend.1, List.all_cons, hdash]
        rfl
      · rw [if_neg hend, if_neg hend]
        obtain ⟨hall, os, hos⟩ | ⟨hall, hnone⟩ := letters_flags hspec (c :: cs)
        · rw [hos, hall, Bool.true_and]
          show (getopt spec slack rest).after os = if _ then _ else (getopt spec 0 rest).after os
          rw [ih]
          split
          · rfl
          · rfl
        · rw [hnone, hall]
          rfl

/-- With the right count, nothing behind the vector is used. -/
theorem getopt_ne_overrun (hspec : ∀ c, spec c ≠ some true) : ∀ args : List String, getopt spec 0 args ≠ .overrun
  | [] => nofun
  | e :: rest => by
    have ih := getopt_ne_overrun hspec rest
    cases hop : isOperand e with
    | true =>
      rw [getopt_operand hop]
      nofun
    | false =>
      obtain ⟨c, cs, heq⟩ := exists_dashed hop
      simp only [getopt, heq]
      split
      · nofun
      · obtain ⟨-, os, hos⟩ | ⟨-, hnone⟩ := letters_flags hspec (c :: cs)
        · rw [hos]
          intro h
          cases hrest : getopt spec 0 rest with
          | done opts operands => rw [hrest] at h; cases h
          | illegal | missing => rw [hrest] at h; cases h
          | overrun => exact ih hrest
        · rw [hnone]
          nofun

/-- There is no operand behind the options: an element has a letter that is not known, or nothing stands behind `--`. -/
def withoutOperand (spec : OptString) (args : List String) : Bool :=
  match args.dropWhile (isFlags spec) with
  | [] => true
  | e :: rest => !isOperand e && (e.toList != ['-', '-'] || rest.isEmpty)

theorem getopt_done_cons_iff (hspec : ∀ c, spec c ≠ some true) (hdash : spec '-' = none) : ∀ args : List String,
    (∃ opts name operands, getopt spec 0 args = .done opts (name :: operands)) ↔ withoutOperand spec args = false
  | [] => iff_of_false (by rintro ⟨opts, name, operands, h⟩; cases h) nofun
  | e :: rest => by
    have ih := getopt_done_cons_iff hspec hdash rest
    cases hop : isOperand e with
    | true =>
      have hfirst : (e :: rest).dropWhile (isFlags spec) = e :: rest := by
        rw [List.dropWhile_cons_of_neg (by rw [isFlags_operand hop]; nofun)]
      rw [getopt_operand hop, withoutOperand, hfirst]
      exact iff_of_true ⟨[], e, rest, rfl⟩ (by simp [hop])
    | false =>
      obtain ⟨c, cs, heq⟩ := exists_dashed hop
      have hflags : isFlags spec e = (c :: cs).all fun c => (spec c).isSome := by simp only [isFlags, heq]
      have hstop : isFlags spec e = false → withoutOperand spec (e :: rest) = (e.toList != ['-', '-'] || rest.isEmpty) := by
        intro h
        rw [withoutOperand, List.dropWhile_cons_of_neg (by rw [h]; nofun)]
        simp [hop]
      by_cases hend : c = '-' ∧ cs = []
      · obtain ⟨rfl, rfl⟩ := hend
        rw [hstop (by rw [hflags, List.all_cons, hdash]; rfl)]
        cases rest with
        | nil => exact iff_of_false (by simp [getopt, heq]) (by simp)
        | cons name operands => exact iff_of_true ⟨[], name, operands, by simp [getopt, heq]⟩ (by simp [heq])
      · obtain ⟨hall, os, hos⟩ | ⟨hall, hnone⟩ := letters_flags hspec (c :: cs)
        · have hskip : withoutOperand spec (e :: rest) = withoutOperand spec rest := by
            rw [withoutOperand, List.dropWhile_cons_of_pos (hflags.trans hall)]
            rfl
          have hget : getopt spec 0 (e :: rest) = (getopt spec 0 rest).after os := by
            simp only [getopt, heq, if_neg hend, hos]
          rw [hskip, ← ih, hget]
          constructor
          · rintro ⟨opts, name, operands, h⟩
            obtain ⟨os', h, -⟩ := Scan.after_eq_done h
            exact ⟨os', name, operands, h⟩
          · rintro ⟨opts, name, operands, h⟩
            exact ⟨os ++ opts, name, operands, by rw [h]; rfl⟩
        · have hget : getopt spec 0 (e :: rest) = .illegal := by simp only [getopt, heq, if_neg hend, hnone]
          rw [hget, hstop (hflags.trans hall), heq]
          refine iff_of_false (by rintro ⟨opts, name, operands, h⟩; cases h) ?_
          simpa using fun hc hcs => absurd ⟨hc, hcs⟩ hend

end

end Bmd.Lib
