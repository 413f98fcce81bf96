import Mathlib.Data.List.TakeWhile
import Bmd.Conf.VmConf
import Bmd.Lib.Long
import Bmd.Lib.Loop
import Bmd.Lib.Search

/-!
# `Inspect.Grub` — talking to `grub-bhyve` (`inspect_grub.c`)

For `loadcmd = auto` the daemon starts `grub-bhyve`, sends it commands and reads what it prints: the list of disks, and
the files on them. The output is collected in a buffer from which terminal control sequences are removed.

A text is the list of its characters, which stand for bytes.
-/

namespace Bmd

open Lib

/-! ## Control sequences -/

/-- `'\e'`. -/
def esc : Char := '\x1b'

/-- `isnumber(*r) || *r == ';'`. -/
def csiParam (c : Char) : Bool := c.isDigit || c == ';'

/-- The `switch` of `strip_csi`. -/
def csiFinal (c : Char) : Bool := "ABCDEFGHIJKMSTfhilmnsu".toList.contains c

/-- What `strip_csi` finds at `p`. -/
inductive Csi where
  /-- no control sequence, or one that is not known -/
  | text
  /-- the bytes end inside of one -/
  | inside
  /-- one that is known, and what follows it -/
  | sequence (rest : List Char)
  deriving DecidableEq, Repr

def csiAt : List Char → Csi
  | e :: b :: t =>
    if e = esc ∧ b = '[' then
      match t.dropWhile csiParam with
      | [] => .inside
      | f :: rest => if csiFinal f then .sequence rest else .text
    else .text
  | _ => .text

theorem csiAt_sequence {l rest : List Char} (h : csiAt l = .sequence rest) :
    ∃ ps f, (∀ c ∈ ps, csiParam c = true) ∧ csiFinal f = true ∧ l = esc :: '[' :: ps ++ f :: rest := by
  unfold csiAt at h
  split at h
  · next e b t =>
    split at h
    · next heb =>
      obtain ⟨rfl, rfl⟩ := heb
      split at h
      · cases h
      · next f rest' hdrop =>
        split at h
        · next hf =>
          obtain rfl := Csi.sequence.inj h
          refine ⟨t.takeWhile csiParam, f, fun c hc => List.mem_takeWhile_imp hc, hf, ?_⟩
          rw [List.cons_append, List.cons_append, ← hdrop, List.takeWhile_append_dropWhile]
        · cases h
    · cases h
  · cases h

theorem csiAt_length {l rest : List Char} (h : csiAt l = .sequence rest) : rest.length < l.length := by
  obtain ⟨ps, f, -, -, rfl⟩ := csiAt_sequence h
  simp only [List.cons_append, List.length_cons, List.length_append]
  omega

/-- `strip_csi`: a sequence that the bytes end inside of is cut off. -/
def stripCsi : List Char → List Char
  | [] => []
  | c :: s =>
    match _h : csiAt (c :: s) with
    | .text => c :: stripCsi s
    | .inside => []
    | .sequence rest => stripCsi rest
termination_by l => l.length
decreasing_by
  · exact Nat.lt_succ_self _
  · exact csiAt_length _h

/-! ## Reading -/

/-- `struct proc_pipe`: `buf` has `size` bytes, of which the first `nread` are in use. -/
structure ProcPipe where
  buf : List Char
  size : Nat
  nread : Nat
  deriving DecidableEq, Repr

/-- The bytes that were received and not used yet. -/
def ProcPipe.received (pp : ProcPipe) : List Char := pp.buf.take pp.nread

/-- `pp_create`. -/
def ppCreate : ProcPipe := { buf := List.replicate (4 * 1024) '\x00', size := 4 * 1024, nread := 0 }

/-- What `poll` and `read` find. After the last of them the child is silent for ever, or has closed its end. -/
inductive Arrival where
  | data (bytes : List Char)
  /-- nothing for a second -/
  | silence
  /-- an error -/
  | failure
  deriving DecidableEq, Repr

/-- `pp->nread = strip_csi(pp->buf, pp->nread + n)`: the bytes are removed in place, those behind them stay. -/
def ProcPipe.append (pp : ProcPipe) (got : List Char) : ProcPipe :=
  let filled := pp.received ++ got
  let kept := stripCsi filled
  { pp with buf := kept ++ (filled ++ pp.buf.drop filled.length).drop kept.length, nread := kept.length }

/-- `pp_read`; `none` stands for -1. -/
def ppRead (pp : ProcPipe) (feed : List Arrival) : Option Nat × ProcPipe × List Arrival :=
  if pp.nread < pp.size then
    match feed with
    | [] => (some pp.nread, pp, [])
    | .silence :: rest => (some pp.nread, pp, rest)
    | .failure :: rest => (none, pp, rest)
    | .data bytes :: rest =>
      let room := pp.size - pp.nread
      let rest := if bytes.length ≤ room then rest else .data (bytes.drop room) :: rest
      if bytes = [] then (some pp.nread, pp, rest)
      else
        let pp := pp.append (bytes.take room)
        (some pp.nread, pp, rest)
  else (some pp.nread, pp, feed)

/-! ## Waiting for a text -/

/-- `strnstr(pp->buf, s, pp->nread)`, which does not look behind a NUL. -/
def ProcPipe.strnstr (pp : ProcPipe) (s : List Char) : Option Nat := findSub s (pp.received.takeWhile (· != '\x00'))

/-- `strip_newline`. -/
def stripNewline (s : List Char) : List Char := (s.takeWhile (· != '\x00')).filter fun c => c != '\r' && c != '\n'

/-- `memcpy(pp->buf, &pp->buf[from], n)`; `heap` is what lies behind the buffer. -/
def ProcPipe.move (heap : Nat → Char) (pp : ProcPipe) (start n : Nat) : ProcPipe :=
  { pp with buf := (List.range n).map (fun j => pp.buf.getD (start + j) (heap (start + j))) ++ pp.buf.drop n }

/-- What `pp_expect` leaves in the buffer of its caller. -/
inductive Text where
  /-- there is no buffer -/
  | null
  | chars (s : List Char)
  /-- `strip_newline` is called for a buffer of no bytes -/
  | outside
  deriving DecidableEq, Repr

/-- How `pp_expect` returns. -/
inductive Expect where
  /-- -1 -/
  | error
  /-- 0, because the buffer is empty -/
  | nothing
  /-- the text was found -/
  | found (ret : Nat) (text : Text)
  deriving DecidableEq, Repr

/-- The part of `pp_expect` behind the loop: `expect` was found at `i`; `dst` is the size of the caller's buffer. -/
def ppFound (heap : Nat → Char) (expect : List Char) (dst : Option Nat) (pp : ProcPipe) (i : Nat) : Expect × ProcPipe :=
  if dst.any fun size => size > 0 && i > size - 1 then
    let n := dst.getD 0 - 1
    let text := stripNewline (pp.received.take n)
    (.found text.length (.chars text), { pp.move heap i (pp.nread - n) with nread := pp.nread - n })
  else
    let n := i + expect.length
    let pp' := { pp.move heap n (pp.nread - n) with nread := pp.nread - n }
    match dst with
    | none => (.found n .null, pp')
    | some 0 => (.found 0 .outside, pp')
    | some _ =>
      let text := stripNewline (pp.received.take i)
      (.found text.length (.chars text), pp')

/-- `n = pp->size / 2; memcpy(pp->buf, &pp->buf[n], n); pp->nread = n;` -/
def ProcPipe.halve (heap : Nat → Char) (pp : ProcPipe) : ProcPipe :=
  { pp.move heap (pp.size / 2) (pp.size / 2) with nread := pp.size / 2 }

/-- One round of the loop of `pp_expect`: it returns, or goes on. -/
def expectStep (heap : Nat → Char) (expect : List Char) (dst : Option Nat) (st : ProcPipe × List Arrival) :
    (Expect × ProcPipe × List Arrival) ⊕ (ProcPipe × List Arrival) :=
  match ppRead st.1 st.2 with
  | (none, pp, feed) => .inl (.error, pp, feed)
  | (some 0, pp, feed) => .inl (.nothing, pp, feed)
  | (some _, pp, feed) =>
    if (pp.strnstr "Error".toList).isSome then .inl (.error, pp, feed)
    else
      match pp.strnstr expect with
      | some i => .inl ((ppFound heap expect dst pp i).1, (ppFound heap expect dst pp i).2, feed)
      | none =>
        if pp.nread > pp.size then .inl (.error, pp, feed)
        else if pp.nread = pp.size then .inr (pp.halve heap, feed)
        else .inr (pp, feed)

/-- `pp_expect` with at most `fuel` rounds; `none` when it has not returned after them. -/
def ppExpect (heap : Nat → Char) (expect : List Char) (dst : Option Nat) (fuel : Nat) (pp : ProcPipe)
    (feed : List Arrival) : Option (Expect × ProcPipe × List Arrival) :=
  loop (expectStep heap expect dst) fuel (pp, feed)

/-! ## Disks -/

/-- `struct disk_info`. -/
structure DiskInfo where
  origName : List Char
  diskName : Option (List Char)
  partName : Option (List Char)
  sliceName : Option (List Char)
  partIndex : Int
  sliceIndex : Int
  deriving DecidableEq, Repr

/-- Two names of which one may be missing: the comparison goes on if they are equal. -/
def compareNames (a b : Option (List Char)) (next : Int) : Int :=
  match a, b with
  | none, none => 0
  | none, some _ => 1
  | some _, none => -1
  | some a, some b => if strcmpL a b ≠ 0 then strcmpL a b else next

/-- `compare_disk_info`. -/
def compareDiskInfo (a b : DiskInfo) : Int :=
  compareNames a.diskName b.diskName <|
    compareNames a.partName b.partName <|
      if wrap32 (a.partIndex - b.partIndex) ≠ 0 then wrap32 (a.partIndex - b.partIndex)
      else compareNames a.sliceName b.sliceName (wrap32 (a.sliceIndex - b.sliceIndex))

/-- `strsep(&s, ",")`: the token, and the new value of `s`. -/
def strsep : Option (List Char) → Option (List Char) × Option (List Char)
  | none => (none, none)
  | some s =>
    (some (s.takeWhile (· != ',')), if s.contains ',' then some ((s.dropWhile (· != ',')).drop 1) else none)

/-- The name before the first digit, and `strtol(n, NULL, 10)` stored in an `int`. -/
def splitIndex (token : List Char) : List Char × Int :=
  (token.takeWhile fun c => !c.isDigit, wrap32 (strtol 10 (token.dropWhile fun c => !c.isDigit)).1)

/-- The `disk_info` of a text in parentheses. Memory is assumed to be available. -/
def diskInfo (s : List Char) : DiskInfo :=
  let disk := strsep (some s)
  let part := strsep disk.2
  let slice := strsep part.2
  { origName := s, diskName := disk.1
    partName := part.1.map fun token => (splitIndex token).1
    sliceName := slice.1.map fun token => (splitIndex token).1
    partIndex := (part.1.map fun token => (splitIndex token).2).getD 0
    sliceIndex := (slice.1.map fun token => (splitIndex token).2).getD 0 }

/-- The loop of `parse_disks` from `e` on; `SLIST_INSERT_HEAD`. -/
def scanDisks (e : List Char) (list : List DiskInfo) : List DiskInfo :=
  match _hopen : e.dropWhile (· != '(') with
  | [] => list
  | [_] => list
  | _ :: c :: e' =>
    match _hclose : (c :: e').dropWhile (· != ')') with
    | [] => list
    | d :: e'' => scanDisks (d :: e'') (diskInfo ((c :: e').takeWhile (· != ')')) :: list)
termination_by e.length
decreasing_by
  have hle := (List.dropWhile_suffix (fun x => x != '(') (l := e)).length_le
  have hle' := (List.dropWhile_suffix (fun x => x != ')') (l := c :: e')).length_le
  rw [_hopen] at hle
  rw [_hclose] at hle'
  simp only [List.length_cons] at hle hle' ⊢
  omega

/-- `parse_disks`; `sort` is the function of the library. -/
def parseDisks (sort : (DiskInfo → DiskInfo → Int) → List DiskInfo → List DiskInfo) (line : List Char)
    (list : List DiskInfo) : List DiskInfo :=
  sort compareDiskInfo (scanDisks line list)

/-! ## Files -/

/-- `look_for_filename`: the first occurrence of the name. -/
def lookForFilename (buf name : List Char) : Bool :=
  match findSub name buf with
  | none => false
  | some i =>
    (i == 0 || buf[i - 1]? == some ' ') &&
      buf[i + name.length]?.all fun c => c == ' ' || c == '\r' || c == '\n'

end Bmd
