import Mathlib.Data.List.TakeWhile
import Bmd.Conf.Lexer

/-!
# `Correctness.Unescape` — backslash escapes in the texts of the scanner

`unescape` is the meaning of a text: it reads it from the left, one character or one escape at a time, up to an
unescaped `$` if variables are looked for. The loop of `text2lval` moves two pointers instead. What connects the two is
`remaining`, the part of the text that the source pointer has before it: the target pointer never gets further than
there is room for the remaining characters and a NUL.
-/

namespace Bmd

open Lib

variable {c : Char} {digit : Char → Option Nat}

/-! ## The meaning of a text -/

/-- The value of digits. -/
def numeral (digit : Char → Option Nat) (base : Nat) (ds : List Char) (v : Nat) : Nat :=
  ds.foldl (fun v c => base * v + (digit c).getD 0) v

/-- The digits that belong to an escape: at most `n`. -/
def escapeDigits (digit : Char → Option Nat) (n : Nat) (t : List Char) : List Char :=
  (t.take n).takeWhile fun c => (digit c).isSome

theorem numeral_cons {k : Nat} (h : digit c = some k) (base : Nat)
    (ds : List Char) (v : Nat) : numeral digit base (c :: ds) v = numeral digit base ds (base * v + k) := by
  rw [numeral, List.foldl_cons, h]
  rfl

theorem escapeDigits_cons (n : Nat) (t : List Char) :
    escapeDigits digit (n + 1) (c :: t) = if (digit c).isSome then c :: escapeDigits digit n t else [] := by
  rw [escapeDigits, List.take_succ_cons, List.takeWhile_cons]
  rfl

/-- What a backslash and `c` stand for, with the text `t` behind them; and what is left of it. -/
def escapeOf (c : Char) (t : List Char) : Option Char × List Char :=
  if (octalDigit c).isSome then
    let ds := escapeDigits octalDigit 2 t
    (some (byteOf (numeral octalDigit 8 (c :: ds) 0)), t.drop ds.length)
  else if c = '\n' then (none, t)
  else if c = 'x' then
    let ds := escapeDigits hexDigit 2 t
    (some (byteOf (numeral hexDigit 16 ds 0)), t.drop ds.length)
  else (some (controlChar c), t)

theorem escapeOf_length (c : Char) (t : List Char) : (escapeOf c t).2.length ≤ t.length := by
  unfold escapeOf
  split
  · exact (List.drop_suffix ..).length_le
  · split
    · exact Nat.le_refl _
    · split
      · exact (List.drop_suffix ..).length_le
      · exact Nat.le_refl _

/-- What a text stands for, and the rest of it from the first unescaped `$` on if variables are looked for. A backslash
at its end escapes the character `next` that follows the text. -/
def unescape (tovar : Bool) (next : Char) : List Char → List Char × List Char
  | [] => ([], [])
  | c :: t =>
    if c = '\\' then
      let e := escapeOf (t.headD next) t.tail
      let r := unescape tovar next e.2
      (e.1.toList ++ r.1, r.2)
    else if tovar && c == '$' then ([], c :: t)
    else
      let r := unescape tovar next t
      (c :: r.1, r.2)
termination_by t => t.length
decreasing_by
  · have hle := escapeOf_length (t.headD next) t.tail
    rw [List.length_tail] at hle
    rw [List.length_cons]
    omega
  · exact Nat.lt_succ_self _

theorem unescape_nil (tovar : Bool) (next : Char) : unescape tovar next [] = ([], []) := by
  rw [unescape]

theorem unescape_escape (tovar : Bool) (next : Char) (t : List Char) :
    unescape tovar next ('\\' :: t) =
      ((escapeOf (t.headD next) t.tail).1.toList ++ (unescape tovar next (escapeOf (t.headD next) t.tail).2).1,
        (unescape tovar next (escapeOf (t.headD next) t.tail).2).2) := by
  rw [unescape]
  simp only [if_true]

theorem unescape_dollar {tovar : Bool} (next : Char) (t : List Char) (h : tovar = true) :
    unescape tovar next ('$' :: t) = ([], '$' :: t) := by
  subst h
  rw [unescape]
  rfl

theorem unescape_char {tovar : Bool} (next : Char) (t : List Char) (hc : c ≠ '\\')
    (h : (tovar && c == '$') = false) :
    unescape tovar next (c :: t) = (c :: (unescape tovar next t).1, (unescape tovar next t).2) := by
  rw [unescape]
  simp only [if_neg hc, h, Bool.false_eq_true, if_false]

/-! ## What is left of the text -/

variable {yytext : List Char} {se : Nat}

/-- The part of the text from `s` on, without the characters that are left out at its end. -/
def remaining (yytext : List Char) (se s : Nat) : List Char := (yytext.take se).drop s

theorem remaining_length (hse : se ≤ yytext.length) (s : Nat) : (remaining yytext se s).length = se - s := by
  rw [remaining, List.length_drop, List.length_take, Nat.min_eq_left hse]

theorem remaining_drop (s n : Nat) : (remaining yytext se s).drop n = remaining yytext se (s + n) := by
  rw [remaining, remaining, List.drop_drop]

theorem remaining_end {s : Nat} (hs : se ≤ s) : remaining yytext se s = [] :=
  List.drop_eq_nil_of_le (Nat.le_trans (List.length_take_le ..) hs)

/-- Before the end, the next character is the one that is read. -/
theorem remaining_cons {s : Nat} (hs : s < se) (hse : se ≤ yytext.length) :
    ∃ c, yytext[s]? = some c ∧ yytextAt yytext s = some c ∧
      remaining yytext se s = c :: remaining yytext se (s + 1) := by
  have hlt : s < yytext.length := Nat.lt_of_lt_of_le hs hse
  refine ⟨yytext[s], List.getElem?_eq_getElem hlt, ?_, ?_⟩
  · rw [yytextAt, List.getElem?_append_left hlt]
    exact List.getElem?_eq_getElem hlt
  · have hlt' : s < (yytext.take se).length := by
      rw [List.length_take]
      omega
    rw [remaining, List.drop_eq_getElem_cons hlt', List.getElem_take]
    rfl

/-- The character that follows the text: the first one that is left out at its end, or the NUL. -/
def following (yytext : List Char) (se : Nat) : Char := (yytext ++ ['\x00']).getD se '\x00'

theorem yytextAt_following (hse : se ≤ yytext.length) : yytextAt yytext se = some (following yytext se) := by
  have hlt : se < (yytext ++ ['\x00']).length := by
    rw [List.length_append]
    exact Nat.lt_succ_of_le hse
  rw [yytextAt, following, List.getD_eq_getElem?_getD, List.getElem?_eq_getElem hlt]
  rfl

/-! ## Escapes -/

theorem moreDigits_eq (digit : Char → Option Nat) (base : Nat) (hse : se ≤ yytext.length) (n : Nat) : ∀ s v : Nat,
    moreDigits digit base yytext se n s v =
      some (numeral digit base (escapeDigits digit n (remaining yytext se (s + 1))) v,
        s + (escapeDigits digit n (remaining yytext se (s + 1))).length) := by
  induction n with
  | zero => exact fun _ _ => rfl
  | succ n ih =>
    intro s v
    unfold moreDigits
    by_cases hs : s + 1 < se
    · obtain ⟨c, -, hread, hcons⟩ := remaining_cons hs hse
      rw [if_pos hs, hread, hcons, escapeDigits_cons]
      cases hc : digit c with
      | some k =>
        simp only [Option.bind_eq_bind, Option.bind_some, hc, ih, Option.isSome_some, if_true, numeral_cons hc,
          List.length_cons]
        congr 2
        omega
      | none =>
        simp only [Option.bind_eq_bind, Option.bind_some, hc, Option.isSome_none, Bool.false_eq_true, if_false]
        rfl
    · rw [if_neg hs, remaining_end (Nat.le_of_not_lt hs), escapeDigits, List.take_nil]
      rfl

/-- An escape is read as what it stands for. -/
theorem readEscape_eq (hse : se ≤ yytext.length) {s : Nat} (hc : yytextAt yytext s = some c) :
    ∃ s', readEscape yytext se s = some ((escapeOf c (remaining yytext se (s + 1))).1, s') ∧
      remaining yytext se (s' + 1) = (escapeOf c (remaining yytext se (s + 1))).2 ∧ s ≤ s' := by
  have hdrop : ∀ n, remaining yytext se (s + n + 1) = (remaining yytext se (s + 1)).drop n := by
    intro n
    rw [remaining_drop, Nat.add_right_comm]
  unfold readEscape escapeOf
  rw [hc]
  simp only [Option.bind_eq_bind, Option.bind_some]
  cases hoctal : octalDigit c with
  | some k =>
    simp only [Option.isSome_some, if_true, moreDigits_eq octalDigit _ hse, Option.bind_some]
    refine ⟨_, ?_, hdrop _, Nat.le_add_right ..⟩
    rw [numeral_cons hoctal, Nat.mul_zero, Nat.zero_add]
  | none =>
    simp only [Option.isSome_none, Bool.false_eq_true, if_false]
    by_cases hnl : c = '\n'
    · simp only [if_pos hnl]
      exact ⟨s, rfl, rfl, Nat.le_refl s⟩
    · simp only [if_neg hnl]
      by_cases hx : c = 'x'
      · simp only [if_pos hx, moreDigits_eq hexDigit _ hse, Option.bind_some]
        exact ⟨_, rfl, hdrop _, Nat.le_add_right ..⟩
      · simp only [if_neg hx]
        exact ⟨s, rfl, rfl, Nat.le_refl s⟩

/-! ## One round

The memory has `done` in front of the target pointer, one byte `x` at it, and `room` behind. -/

variable {tovar : Bool} {s lines : Nat} {done room : List Char} {x : Char}

theorem storeAt_eq (c : Char) : storeAt (done ++ x :: room) done.length c = some (done ++ c :: room) := by
  have hin : (0 : Int) ≤ done.length ∧ (done.length : Int) < (done ++ x :: room).length := by
    rw [List.length_append, List.length_cons]
    omega
  rw [storeAt, if_pos hin]
  simp

/-- The text is used up. -/
theorem lvalStep_end (hs : se ≤ s) :
    lvalStep yytext se tovar ⟨s, done.length, done ++ x :: room, lines⟩ =
      .inl (.returns (-1) (done ++ '\x00' :: room) lines) := by
  rw [lvalStep, lvalRound, if_neg (Nat.not_lt_of_le hs), storeAt_eq]
  rfl

/-- A variable begins. -/
theorem lvalStep_dollar (hs : s < se) (hc : yytextAt yytext s = some '$') :
    lvalStep yytext se true ⟨s, done.length, done ++ x :: room, lines⟩ =
      .inl (.returns s (done ++ '\x00' :: room) lines) := by
  rw [lvalStep, lvalRound, if_pos hs, hc, storeAt_eq]
  rfl

/-- A character is copied. -/
theorem lvalStep_char (lines : Nat) (done room : List Char) (x : Char) (hs : s < se)
    (hc : yytextAt yytext s = some c) (hne : c ≠ '\\') (hstop : (tovar && c == '$') = false) :
    ∃ lines', lvalStep yytext se tovar ⟨s, done.length, done ++ x :: room, lines⟩ =
      .inr ⟨s + 1, (done ++ [c]).length, (done ++ [c]) ++ room, lines'⟩ := by
  refine ⟨lines + if c = '\n' then 1 else 0, ?_⟩
  rw [lvalStep, lvalRound, if_pos hs, hc]
  simp only [Option.bind_eq_bind, Option.bind_some, if_pos hne, hstop, Bool.false_eq_true, if_false, storeAt_eq,
    List.length_append, List.append_assoc]
  rfl

/-- An escape is resolved; an escaped newline stands for nothing, and the pointer stays. -/
theorem lvalStep_escape (tovar : Bool) (lines : Nat) (done room : List Char) (x : Char) (hs : s < se)
    (hse : se ≤ yytext.length) (hc : yytextAt yytext s = some '\\') {e : Char}
    (he : yytextAt yytext (s + 1) = some e) :
    ∃ s' lines', remaining yytext se s' = (escapeOf e (remaining yytext se (s + 2))).2 ∧ s + 2 ≤ s' ∧
      ((∃ b, (escapeOf e (remaining yytext se (s + 2))).1 = some b ∧
          lvalStep yytext se tovar ⟨s, done.length, done ++ x :: room, lines⟩ =
            .inr ⟨s', (done ++ [b]).length, (done ++ [b]) ++ room, lines'⟩) ∨
        (escapeOf e (remaining yytext se (s + 2))).1 = none ∧
          lvalStep yytext se tovar ⟨s, done.length, done ++ x :: room, lines⟩ =
            .inr ⟨s', done.length, done ++ x :: room, lines'⟩) := by
  obtain ⟨s', hread, hrest, hle⟩ := readEscape_eq hse he
  cases hb : (escapeOf e (remaining yytext se (s + 2))).1 with
  | some b =>
    rw [hb] at hread
    refine ⟨s' + 1, lines, hrest, by omega, .inl ⟨b, rfl, ?_⟩⟩
    rw [lvalStep, lvalRound, if_pos hs, hc]
    simp only [Option.bind_eq_bind, Option.bind_some, ne_eq, not_true_eq_false, if_false, hread, storeAt_eq,
      List.length_append, List.append_assoc]
    rfl
  | none =>
    rw [hb] at hread
    refine ⟨s' + 1, lines + 1, hrest, by omega, .inr ⟨rfl, ?_⟩⟩
    rw [lvalStep, lvalRound, if_pos hs, hc]
    simp only [Option.bind_eq_bind, Option.bind_some, ne_eq, not_true_eq_false, if_false, hread, Option.getD_some,
      Int.sub_add_cancel]

/-! ## The whole text -/

/-- Where `text2lval` stops: at the end, or at an unescaped `$`. -/
def StopsAt (yytext : List Char) (se s : Nat) (tovar : Bool) (rest : List Char) (ret : Int) : Prop :=
  ret = -1 ∧ rest = [] ∨
    ∃ k : Nat, ret = k ∧ s ≤ k ∧ k < se ∧ tovar = true ∧ yytext[k]? = some '$' ∧ rest = remaining yytext se k

theorem StopsAt.mono {s' : Nat} {rest : List Char} {ret : Int} (h : StopsAt yytext se s' tovar rest ret)
    (hle : s ≤ s') : StopsAt yytext se s tovar rest ret := by
  rcases h with h | ⟨k, hret, hk, h⟩
  · exact .inl h
  · exact .inr ⟨k, hret, Nat.le_trans hle hk, h⟩

theorem headD_remaining (hse : se ≤ yytext.length) (hs : s ≤ se) :
    yytextAt yytext s = some ((remaining yytext se s).headD (following yytext se)) := by
  rcases Nat.lt_or_eq_of_le hs with hlt | rfl
  · obtain ⟨c, -, hread, hcons⟩ := remaining_cons hlt hse
    rw [hread, hcons]
    rfl
  · rw [remaining_end (Nat.le_refl _)]
    exact yytextAt_following hse

/-- From any state in which there is room for the rest of the text, the loop copies what the rest stands for. The
induction is on the fuel; every round takes at least one character of the text, and stores at most one. -/
theorem lvalLoop_eq (tovar : Bool) (hse : se ≤ yytext.length) (fuel : Nat) : ∀ (s lines : Nat) (done room : List Char),
    (remaining yytext se s).length < fuel → (remaining yytext se s).length < room.length →
    ∃ ret lines', loop (lvalStep yytext se tovar) fuel ⟨s, done.length, done ++ room, lines⟩ =
        some (.returns ret (done ++ (unescape tovar (following yytext se) (remaining yytext se s)).1 ++ '\x00' ::
          room.drop ((unescape tovar (following yytext se) (remaining yytext se s)).1.length + 1)) lines') ∧
      (unescape tovar (following yytext se) (remaining yytext se s)).1.length ≤ (remaining yytext se s).length ∧
      StopsAt yytext se s tovar (unescape tovar (following yytext se) (remaining yytext se s)).2 ret := by
  induction fuel with
  | zero => exact fun _ _ _ _ hfuel _ => absurd hfuel (Nat.not_lt_zero _)
  | succ fuel ih =>
    intro s lines done room hfuel hroom
    obtain ⟨x, room, rfl⟩ := List.exists_cons_of_length_pos (Nat.zero_lt_of_lt hroom)
    rw [List.length_cons] at hroom
    by_cases hs : se ≤ s
    · rw [remaining_end hs, unescape_nil]
      refine ⟨-1, lines, ?_, Nat.le_refl _, .inl ⟨rfl, rfl⟩⟩
      rw [loop_return (lvalStep_end hs), List.append_nil]
      rfl
    have hlt := Nat.lt_of_not_le hs
    obtain ⟨c, hat, hread, hcons⟩ := remaining_cons hlt hse
    have hlen := remaining_length hse s
    have hlen1 := remaining_length hse (s + 1)
    by_cases hc : c = '\\'
    · subst hc
      have htail : (remaining yytext se (s + 1)).tail = remaining yytext se (s + 2) := by
        rw [← List.drop_one, remaining_drop]
      obtain ⟨s', lines', hrest, hle, hstep⟩ := lvalStep_escape tovar lines done room x hlt hse hread
        (headD_remaining hse hlt)
      have hlen' := remaining_length hse s'
      rw [hcons, unescape_escape, htail, ← hrest]
      rcases hstep with ⟨b, hb, hstep⟩ | ⟨hb, hstep⟩
      · obtain ⟨ret, lines'', hloop, hle', hstop⟩ := ih s' lines' (done ++ [b]) room (by omega) (by omega)
        refine ⟨ret, lines'', ?_, ?_, hstop.mono (by omega)⟩
        · rw [loop_next hstep, hloop, hb]
          simp
        · rw [hb, List.length_append, List.length_cons]
          simp only [Option.toList_some, List.length_singleton]
          omega
      · obtain ⟨ret, lines'', hloop, hle', hstop⟩ := ih s' lines' done (x :: room) (by omega)
          (by rw [List.length_cons]; omega)
        refine ⟨ret, lines'', ?_, ?_, hstop.mono (by omega)⟩
        · rw [loop_next hstep, hloop, hb]
          simp
        · rw [hb, List.length_append, List.length_cons]
          simp only [Option.toList_none, List.length_nil]
          omega
    · by_cases hstop : (tovar && c == '$') = true
      · rw [Bool.and_eq_true, beq_iff_eq] at hstop
        obtain ⟨rfl, rfl⟩ := hstop
        rw [hcons, unescape_dollar _ _ rfl]
        refine ⟨s, lines, ?_, Nat.zero_le _, .inr ⟨s, rfl, Nat.le_refl s, hlt, rfl, hat, hcons.symm⟩⟩
        rw [loop_return (lvalStep_dollar hlt hread), List.append_nil]
        rfl
      · rw [Bool.not_eq_true] at hstop
        obtain ⟨lines', hstep⟩ := lvalStep_char lines done room x hlt hread hc hstop
        obtain ⟨ret, lines'', hloop, hle', hstop'⟩ := ih (s + 1) lines' (done ++ [c]) room (by omega) (by omega)
        rw [hcons, unescape_char _ _ hc hstop]
        refine ⟨ret, lines'', ?_, Nat.succ_le_succ hle', hstop'.mono (Nat.le_succ s)⟩
        rw [loop_next hstep, hloop]
        simp

/-- What the matched text stands for without the characters left out at its ends, and the rest of it. -/
def meaning (yytext : List Char) (triml trimr : Nat) (tovar : Bool) : List Char × List Char :=
  unescape tovar (following yytext (yytext.length - trimr)) (remaining yytext (yytext.length - trimr) triml)

/-- **`text2lval` stays in bounds, resolves the escapes and makes progress.** With memory for the text and a NUL it ends
without a fault. The memory then begins with what the text stands for and a NUL; and it returns -1, or the index of the
`$` that it has stopped at, which is not 0 if the text does not begin with it. -/
theorem text2lval_unescapes (yytext : List Char) (triml trimr : Nat) (tovar : Bool) (mem : List Char) (fuel : Nat)
    (htrim : triml + trimr ≤ yytext.length) (hmem : mem.length = yytext.length - triml - trimr + 1)
    (hfuel : yytext.length < fuel) :
    ∃ ret lines, text2lvalLoop yytext triml trimr tovar mem fuel =
        some (.returns ret ((meaning yytext triml trimr tovar).1 ++ '\x00' ::
          mem.drop ((meaning yytext triml trimr tovar).1.length + 1)) lines) ∧
      (meaning yytext triml trimr tovar).1.length ≤ yytext.length - triml - trimr ∧
      StopsAt yytext (yytext.length - trimr) triml tovar (meaning yytext triml trimr tovar).2 ret ∧
      (0 < triml ∨ yytext[0]? ≠ some '$' → ret ≠ 0) := by
  have hse : yytext.length - trimr ≤ yytext.length := Nat.sub_le ..
  have hlen := remaining_length hse triml
  obtain ⟨ret, lines, hloop, hle, hstop⟩ := lvalLoop_eq tovar hse fuel triml 0 [] mem (by omega) (by omega)
  refine ⟨ret, lines, hloop, by unfold meaning; omega, hstop, ?_⟩
  rintro hskip rfl
  rcases hstop with ⟨hret, -⟩ | ⟨k, hret, hk, -, -, hdollar, -⟩
  · cases hret
  · obtain rfl : k = 0 := by omega
    rcases hskip with hpos | hfirst
    · omega
    · exact hfirst hdollar

/-- A string in double quotes with a variable in it. -/
theorem text2lval_variable :
    ∃ ret lines, text2lvalLoop "\"a\\x41$b\"".toList 1 1 true (List.replicate 8 '?') 10 =
      some (.returns ret ("aA".toList ++ '\x00' :: List.replicate 5 '?') lines) ∧ ret ≠ 0 := by
  obtain ⟨ret, lines, hloop, -, -, hprogress⟩ := text2lval_unescapes "\"a\\x41$b\"".toList 1 1 true
    (List.replicate 8 '?') 10 (by decide) (by decide) (by decide)
  have hmeaning : meaning "\"a\\x41$b\"".toList 1 1 true = ("aA".toList, "$b".toList) := by decide +kernel
  rw [hmeaning] at hloop
  exact ⟨ret, lines, hloop, hprogress (.inl Nat.one_pos)⟩

end Bmd
