import Bmd.Lib.Loop

/-!
# `Conf.Lexer` — the texts of the scanner (`conflex.l`)

`text2lval` copies the matched text to memory of its own and resolves the backslash escapes in it. The rules that call
it say how many characters to leave out at the two ends. Reading behind the NUL that follows the matched text and
writing outside of the memory are faults.
-/

namespace Bmd

open Lib

/-- `yytext[i]`. -/
def yytextAt (yytext : List Char) (i : Nat) : Option Char := (yytext ++ ['\x00'])[i]?

/-- `*d = c`; the pointer is an index into the memory. -/
def storeAt (mem : List Char) (d : Int) (c : Char) : Option (List Char) :=
  if 0 ≤ d ∧ d < mem.length then some (mem.set d.toNat c) else none

/-- A value stored in a `char`. -/
def byteOf (v : Nat) : Char := Char.ofNat (v % 256)

/-- `*s - '0'` for an octal digit. -/
def octalDigit (c : Char) : Option Nat := if '0' ≤ c ∧ c ≤ '7' then some (c.toNat - '0'.toNat) else none

def hexDigit (c : Char) : Option Nat :=
  if '0' ≤ c ∧ c ≤ '9' then some (c.toNat - '0'.toNat)
  else if 'A' ≤ c ∧ c ≤ 'F' then some (c.toNat - 'A'.toNat + 0xA)
  else if 'a' ≤ c ∧ c ≤ 'f' then some (c.toNat - 'a'.toNat + 0xa)
  else none

/-- The nested tests `s + 1 < se && ...`: at most `n` more digits behind `s`, before `se`. -/
def moreDigits (digit : Char → Option Nat) (base : Nat) (yytext : List Char) (se : Nat) :
    Nat → Nat → Nat → Option (Nat × Nat)
  | 0, s, v => some (v, s)
  | n + 1, s, v =>
    if s + 1 < se then do
      let c ← yytextAt yytext (s + 1)
      match digit c with
      | some k => moreDigits digit base yytext se n (s + 1) (base * v + k)
      | none => some (v, s)
    else some (v, s)

/-- The cases of the `switch` that store one character. -/
def controlChar (c : Char) : Char :=
  if c = 'a' then '\x07'
  else if c = 'b' then '\x08'
  else if c = 'f' then '\x0c'
  else if c = 'n' then '\n'
  else if c = 'r' then '\r'
  else if c = 't' then '\t'
  else if c = 'v' then '\x0b'
  else c

/-- The escape whose backslash stands before `s`: what is stored, if anything, and where `s` is then. The stores of
several digits to one place are made one. -/
def readEscape (yytext : List Char) (se s : Nat) : Option (Option Char × Nat) := do
  let c ← yytextAt yytext s
  match octalDigit c with
  | some k =>
    let r ← moreDigits octalDigit 0o10 yytext se 2 s k
    some (some (byteOf r.1), r.2)
  | none =>
    if c = '\n' then some (none, s)
    else if c = 'x' then
      let r ← moreDigits hexDigit 0x10 yytext se 2 s 0
      some (some (byteOf r.1), r.2)
    else some (some (controlChar c), s)

/-- The variables of the loop. `lines` is how much `lineno` has been increased by. -/
structure Lval where
  s : Nat
  d : Int
  mem : List Char
  lines : Nat
  deriving DecidableEq, Repr

/-- How `text2lval` ends. -/
inductive Lexed where
  | fault
  | returns (ret : Int) (mem : List Char) (lines : Nat)
  deriving DecidableEq, Repr

/-- One round of the loop, with the test before it. -/
def lvalRound (yytext : List Char) (se : Nat) (tovar : Bool) (st : Lval) : Option (Lexed ⊕ Lval) :=
  if st.s < se then do
    let c ← yytextAt yytext st.s
    if c ≠ '\\' then
      if tovar && c == '$' then
        let mem ← storeAt st.mem st.d '\x00'
        some (.inl (.returns st.s mem st.lines))
      else
        let mem ← storeAt st.mem st.d c
        some (.inr { s := st.s + 1, d := st.d + 1, mem, lines := st.lines + if c = '\n' then 1 else 0 })
    else
      let r ← readEscape yytext se (st.s + 1)
      match r.1 with
      | some b =>
        let mem ← storeAt st.mem st.d b
        some (.inr { s := r.2 + 1, d := st.d + 1, mem, lines := st.lines })
      | none => some (.inr { s := r.2 + 1, d := st.d - 1 + 1, mem := st.mem, lines := st.lines + 1 })
  else do
    let mem ← storeAt st.mem st.d '\x00'
    some (.inl (.returns (-1) mem st.lines))

def lvalStep (yytext : List Char) (se : Nat) (tovar : Bool) (st : Lval) : Lexed ⊕ Lval :=
  (lvalRound yytext se tovar st).getD (.inl .fault)

/-- `text2lval` behind `mpool_alloc`, which has returned `mem`. -/
def text2lvalLoop (yytext : List Char) (triml trimr : Nat) (tovar : Bool) (mem : List Char) (fuel : Nat) :
    Option Lexed :=
  loop (lvalStep yytext (yytext.length - trimr) tovar) fuel { s := triml, d := 0, mem, lines := 0 }

end Bmd
