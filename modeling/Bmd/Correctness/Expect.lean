import Bmd.Correctness.Csi

/-!
# `Correctness.Expect` — waiting for what `grub-bhyve` prints

`pp_expect` reads until the buffer holds the text it waits for. Two things go wrong in it.

* `pp_read` returns how much the buffer holds, not how much was read. When nothing comes any more and the buffer holds
  something else, the loop goes round for ever (`Stuck`).
* A text that is too long for the caller's buffer is cut, and then the expected text is not taken off the buffer, and
  more bytes are kept than there are.

`ppRead_ok`, `expectStep_next` and `expectStep_found` say once what a read and a round do.
-/

namespace Bmd

open Lib

variable {heap : Nat → Char} {expect : List Char} {dst : Option Nat} {pp pp' : ProcPipe} {feed feed' : List Arrival}
  {text : Text} {n : Nat} {ret k i : Nat} {st : ProcPipe × List Arrival} {pre post : List Char}

/-! ## A read and a round -/

/-- All bytes that will arrive. -/
def bytes (feed : List Arrival) : List Char :=
  feed.flatMap fun
    | .data b => b
    | _ => []

/-- How much reading there is to do. -/
def work (feed : List Arrival) : Nat := feed.length + (bytes feed).length

theorem bytes_data (b : List Char) (feed : List Arrival) : bytes (.data b :: feed) = b ++ bytes feed := rfl

/-- The piece that a call of `pp_read` takes off the pipe, if there is one and room for it. -/
def piece (pp : ProcPipe) (feed : List Arrival) : List (List Char) :=
  if pp.nread < pp.size then
    match feed with
    | .data b :: _ => if b = [] then [] else [b.take (pp.size - pp.nread)]
    | _ => []
  else []

/-- What a call of `pp_read` that succeeds has done: nothing, or it has taken some bytes. -/
theorem ppRead_ok (h : ppRead pp feed = (some n, pp', feed')) :
    n = pp'.nread ∧ pp'.size = pp.size ∧
      (pp' = pp ∧ feed' = feed ∧ piece pp feed = [] ∧ (pp.size ≤ pp.nread ∨ feed = []) ∨
        ∃ got, bytes feed = got ++ bytes feed' ∧ piece pp feed = (if got = [] then [] else [got]) ∧
          work feed' < work feed ∧ pp.nread + got.length ≤ pp.size ∧ pp' = if got = [] then pp else pp.append got) := by
  unfold ppRead at h
  unfold piece
  split at h
  · next hroom =>
    match feed, h with
    | [], h =>
      obtain ⟨rfl, rfl, rfl⟩ := h
      exact ⟨rfl, rfl, .inl ⟨rfl, rfl, if_pos hroom, .inr rfl⟩⟩
    | .silence :: rest, h =>
      obtain ⟨rfl, rfl, rfl⟩ := h
      refine ⟨rfl, rfl, .inr ⟨[], rfl, if_pos hroom, ?_, Nat.le_of_lt hroom, rfl⟩⟩
      show work feed' < feed'.length + 1 + (bytes feed').length
      unfold work
      omega
    | .failure :: rest, h => cases h
    | .data b :: rest, h =>
      simp only at h
      split at h
      · next hnil =>
        subst hnil
        obtain ⟨rfl, rfl, rfl⟩ := h
        refine ⟨rfl, rfl, .inr ⟨[], rfl, if_pos hroom, ?_, Nat.le_of_lt hroom, rfl⟩⟩
        simp [work, bytes_data]
      · next hne =>
        obtain ⟨rfl, rfl, rfl⟩ := h
        have hpos := List.length_pos_iff.mpr hne
        have hgot : b.take (pp.size - pp.nread) ≠ [] := by
          intro hnil
          have hlen := congrArg List.length hnil
          rw [List.length_take, List.length_nil] at hlen
          omega
        refine ⟨rfl, rfl, .inr ⟨b.take (pp.size - pp.nread), ?_, ?_, ?_, ?_, (if_neg hgot).symm⟩⟩
        · split
          · next hfits => rw [List.take_of_length_le hfits, bytes_data]
          · rw [bytes_data, bytes_data, ← List.append_assoc, List.take_append_drop]
        · rw [if_pos hroom, if_neg hgot]
          exact if_neg hne
        · split
          · simp only [work, bytes_data, List.length_cons, List.length_append]
            omega
          · simp only [work, bytes_data, List.length_cons, List.length_append, List.length_drop]
            omega
        · rw [List.length_take]
          omega
  · next hfull =>
    obtain ⟨rfl, rfl, rfl⟩ := h
    exact ⟨rfl, rfl, .inl ⟨rfl, rfl, if_neg hfull, .inl (Nat.le_of_not_lt hfull)⟩⟩

/-- A round that goes on has found neither text, and has thrown away half of a full buffer. -/
theorem expectStep_next (h : expectStep heap expect dst (pp, feed) = .inr (pp', feed')) :
    ∃ pp1, ppRead pp feed = (some pp1.nread, pp1, feed') ∧ pp1.nread ≠ 0 ∧ pp1.strnstr "Error".toList = none ∧
      pp1.strnstr expect = none ∧
      (pp1.nread = pp1.size ∧ pp' = pp1.halve heap ∨ pp1.nread < pp1.size ∧ pp' = pp1) := by
  unfold expectStep at h
  split at h
  · cases h
  · cases h
  · next n pp1 feed1 hn hread =>
    obtain ⟨rfl, -, -⟩ := ppRead_ok hread
    have hpos : pp1.nread ≠ 0 := fun hzero => hn (by rw [hzero])
    split at h
    · cases h
    · next herror =>
      rw [Option.not_isSome_iff_eq_none] at herror
      split at h
      · cases h
      · next hexpect =>
        split at h
        · cases h
        · next hle =>
          split at h
          · next hfull =>
            obtain ⟨rfl, rfl⟩ := Sum.inr.inj h
            exact ⟨pp1, hread, hpos, herror, hexpect, .inl ⟨hfull, rfl⟩⟩
          · next hfull =>
            obtain ⟨rfl, rfl⟩ := Sum.inr.inj h
            exact ⟨pp', hread, hpos, herror, hexpect, .inr ⟨by omega, rfl⟩⟩

/-- A round that returns a text has found the expected one. -/
theorem expectStep_found (h : expectStep heap expect dst (pp, feed) = .inl (.found ret text, pp', feed')) :
    ∃ pp1 i, ppRead pp feed = (some pp1.nread, pp1, feed') ∧ pp1.strnstr expect = some i ∧
      ppFound heap expect dst pp1 i = (.found ret text, pp') := by
  unfold expectStep at h
  split at h
  · cases h
  · cases h
  · next n pp1 feed1 hn hread =>
    obtain ⟨rfl, -, -⟩ := ppRead_ok hread
    split at h
    · cases h
    · split at h
      · next i hexpect =>
        simp only [Sum.inl.injEq, Prod.mk.injEq] at h
        obtain ⟨hret, rfl, rfl⟩ := h
        exact ⟨pp1, i, hread, hexpect, Prod.ext hret rfl⟩
      · split at h
        · cases h
        · split at h <;> cases h

/-- Something else has been read, and there is room for more. -/
theorem expectStep_again (hread : ppRead pp feed = (some pp'.nread, pp', feed')) (hpos : 0 < pp'.nread)
    (hroom : pp'.nread < pp'.size) (herror : pp'.strnstr "Error".toList = none) (hexpect : pp'.strnstr expect = none) :
    expectStep heap expect dst (pp, feed) = .inr (pp', feed') := by
  unfold expectStep
  simp only [hread]
  split
  · next heq => cases heq
  · next heq =>
    simp only [Prod.mk.injEq, Option.some.injEq] at heq
    omega
  · next heq =>
    obtain ⟨-, rfl, rfl⟩ := heq
    simp only [herror, Option.isSome_none, Bool.false_eq_true, if_false, hexpect]
    rw [if_neg (by omega), if_neg (by omega)]

/-! ## Waiting for ever -/

/-- Nothing comes any more, and the buffer holds something that `pp_expect` does not return for. -/
structure Stuck (expect : List Char) (st : ProcPipe × List Arrival) : Prop where
  feed : st.2 = []
  pos : 0 < st.1.nread
  room : st.1.nread < st.1.size
  error : st.1.strnstr "Error".toList = none
  expect : st.1.strnstr expect = none

theorem Stuck.step (h : Stuck expect st) : expectStep heap expect dst st = .inr st := by
  obtain ⟨pp, feed⟩ := st
  obtain rfl : feed = [] := h.feed
  exact expectStep_again (if_pos h.room) h.pos h.room h.error h.expect

/-- Twice the work, and one more for a full buffer, which is halved before it is read into again. -/
def effort (st : ProcPipe × List Arrival) : Nat := 2 * work st.2 + if st.1.nread = st.1.size then 1 else 0

theorem effort_lt {st' : ProcPipe × List Arrival} (hfree : ¬Stuck expect st)
    (h : expectStep heap expect dst st = .inr st') : effort st' < effort st := by
  obtain ⟨pp, feed⟩ := st
  obtain ⟨pp', feed'⟩ := st'
  obtain ⟨pp1, hread, hpos, herror, hexpect, hnext⟩ := expectStep_next h
  obtain ⟨-, hsize, ⟨rfl, rfl, -, hnothing⟩ | ⟨got, -, -, hwork, -⟩⟩ := ppRead_ok hread
  · rcases hnext with ⟨hfull, rfl⟩ | ⟨hroom, rfl⟩
    · have hhalf : (pp1.halve heap).nread ≠ (pp1.halve heap).size := by
        show pp1.size / 2 ≠ pp1.size
        omega
      simp only [effort, if_pos hfull, if_neg hhalf]
      omega
    · have hnil := hnothing.resolve_left (by omega)
      exact absurd ⟨hnil, Nat.pos_of_ne_zero hpos, hroom, herror, hexpect⟩ hfree
  · simp only [effort]
    split <;> split <;> omega

/-- Reading alone: a read, after which half of a full buffer is thrown away. -/
def readOn (heap : Nat → Char) (st : ProcPipe × List Arrival) : ProcPipe × List Arrival :=
  let pp := (ppRead st.1 st.2).2.1
  (if pp.nread = pp.size then pp.halve heap else pp, (ppRead st.1 st.2).2.2)

/-- The next read ends the wait: it fails, or leaves the buffer empty, with an error or the expected text in it, or with
more bytes than there is room for. -/
def EndsWait (expect : List Char) (st : ProcPipe × List Arrival) : Prop :=
  match ppRead st.1 st.2 with
  | (none, _, _) | (some 0, _, _) => True
  | (some _, pp, _) => (pp.strnstr "Error".toList).isSome ∨ (pp.strnstr expect).isSome ∨ pp.size < pp.nread

theorem expectStep_readOn {st' : ProcPipe × List Arrival} (h : expectStep heap expect dst st = .inr st') :
    st' = readOn heap st := by
  obtain ⟨pp1, hread, -, -, -, hnext⟩ := expectStep_next h
  unfold readOn
  rw [hread]
  show st' = (if pp1.nread = pp1.size then pp1.halve heap else pp1, st'.2)
  rcases hnext with ⟨hfull, heq⟩ | ⟨hroom, heq⟩
  · rw [if_pos hfull, ← heq]
  · rw [if_neg (Nat.ne_of_lt hroom), ← heq]

theorem expectStep_isLeft : (expectStep heap expect dst st).isLeft ↔ EndsWait expect st := by
  unfold expectStep EndsWait
  generalize ppRead st.1 st.2 = r
  obtain ⟨_ | _ | n, pp, feed⟩ := r
  · exact iff_of_true rfl trivial
  · exact iff_of_true rfl trivial
  · simp only
    generalize (pp.strnstr "Error".toList).isSome = error
    generalize pp.strnstr expect = found
    cases error with
    | true => simp
    | false =>
      cases found with
      | some i => simp
      | none => by_cases hmore : pp.size < pp.nread <;> by_cases hfull : pp.nread = pp.size <;> simp [hmore, hfull]

/-- **`pp_expect` returns exactly if one of the reads answers it**, when all that comes is read into the buffer; for
every piece and every byte of it there are two reads at most. -/
theorem ppExpect_returns_iff (heap : Nat → Char) (expect : List Char) (dst : Option Nat) (pp : ProcPipe)
    (feed : List Arrival) :
    (∃ fuel r, ppExpect heap expect dst fuel pp feed = some r) ↔
      ∃ n ≤ effort (pp, feed), EndsWait expect ((readOn heap)^[n] (pp, feed)) := by
  have hreturns : (∃ fuel r, ppExpect heap expect dst fuel pp feed = some r) ↔ _ :=
    loop_returns_iff effort (fun _ => Stuck.step) (fun _ _ => expectStep_readOn) (fun _ _ => effort_lt) (pp, feed)
  simpa only [expectStep_isLeft] using hreturns

/-- `grub-bhyve` prints something else than a prompt and exits. -/
theorem ppExpect_endless :
    ¬∃ fuel r, ppExpect (fun _ => '\x00') "grub> ".toList none fuel ppCreate [.data "x".toList] = some r := by
  have hstuck : Stuck "grub> ".toList (ppCreate.append "x".toList, []) :=
    ⟨rfl, by decide +kernel, by decide +kernel, by decide +kernel, by decide +kernel⟩
  have hround : expectStep (fun _ => '\x00') "grub> ".toList none (ppCreate, [.data "x".toList]) =
      .inr (ppCreate.append "x".toList, []) :=
    expectStep_again (ppRead_data ppCreate (by decide) (by decide) []) hstuck.pos hstuck.room hstuck.error hstuck.expect
  rintro ⟨fuel, r, hret⟩
  cases fuel with
  | zero => cases hret
  | succ fuel =>
    rw [ppExpect, loop_next hround, loop_stuck hstuck.step] at hret
    cases hret

/-! ## What a call has read -/

theorem ppRead_valid (hvalid : pp.Valid) (h : ppRead pp feed = (some n, pp', feed')) : pp'.Valid := by
  obtain ⟨-, -, ⟨rfl, -⟩ | ⟨got, -, -, -, hroom, rfl⟩⟩ := ppRead_ok h
  · exact hvalid
  · split
    · exact hvalid
    · exact hvalid.append got hroom

theorem ppRead_piece (h : ppRead pp feed = (some n, pp', feed')) : [] ∉ piece pp feed ∧
    bytes feed = (piece pp feed).flatten ++ bytes feed' ∧ pp'.received = absorb pp.received (piece pp feed) := by
  obtain ⟨-, -, ⟨rfl, rfl, hpiece, -⟩ | ⟨got, hbytes, hpiece, -, -, rfl⟩⟩ := ppRead_ok h
  · rw [hpiece]
    exact ⟨List.not_mem_nil, rfl, rfl⟩
  · rw [hpiece]
    by_cases hgot : got = []
    · subst hgot
      exact ⟨List.not_mem_nil, hbytes, rfl⟩
    · rw [if_neg hgot, if_neg hgot, ProcPipe.append_received]
      exact ⟨by simpa using Ne.symm hgot, by simpa using hbytes, rfl⟩

/-- The pieces that a call of `pp_expect` reads. -/
def pieces (heap : Nat → Char) (expect : List Char) (dst : Option Nat) : Nat → ProcPipe × List Arrival → List (List Char)
  | 0, _ => []
  | fuel + 1, st => piece st.1 st.2 ++
    match expectStep heap expect dst st with
    | .inl _ => []
    | .inr st' => pieces heap expect dst fuel st'

/-- The buffer is never full of something else, so that half of it would be thrown away. -/
def NoOverflow (heap : Nat → Char) (expect : List Char) (dst : Option Nat) (pp : ProcPipe) (feed : List Arrival) :
    Prop :=
  ∀ st st', Rounds (expectStep heap expect dst) (pp, feed) st → expectStep heap expect dst st = .inr st' →
    (ppRead st.1 st.2).2.1.nread ≠ st.1.size

theorem absorb_append (b : List Char) (chunks chunks' : List (List Char)) :
    absorb b (chunks ++ chunks') = absorb (absorb b chunks) chunks' := List.foldl_append ..

/-- What a call that finds the expected text has done before it takes it off the buffer `pp1`. -/
theorem ppExpect_found {fuel : Nat} (hvalid : pp.Valid) (hover : NoOverflow heap expect dst pp feed)
    (h : ppExpect heap expect dst fuel pp feed = some (.found ret text, pp', feed')) :
    [] ∉ pieces heap expect dst fuel (pp, feed) ∧
      bytes feed = (pieces heap expect dst fuel (pp, feed)).flatten ++ bytes feed' ∧
      ∃ pp1 i, pp1.received = absorb pp.received (pieces heap expect dst fuel (pp, feed)) ∧ pp1.Valid ∧
        pp1.strnstr expect = some i ∧ ppFound heap expect dst pp1 i = (.found ret text, pp') := by
  induction fuel generalizing pp feed with
  | zero => cases h
  | succ fuel ih =>
    cases hstep : expectStep heap expect dst (pp, feed) with
    | inl r =>
      obtain rfl := Option.some.inj ((loop_return hstep).symm.trans h)
      obtain ⟨pp1, i, hread, hexpect, hfound⟩ := expectStep_found hstep
      obtain ⟨hne, hbytes, hreceived⟩ := ppRead_piece hread
      simp only [pieces, hstep, List.append_nil]
      exact ⟨hne, hbytes, pp1, i, hreceived, ppRead_valid hvalid hread, hexpect, hfound⟩
    | inr st =>
      obtain ⟨mid, rest⟩ := st
      -- without an overflow, a round that goes on only reads
      obtain ⟨pp1, hread, -, -, -, hnext⟩ := expectStep_next hstep
      have hroom := hover _ _ .refl hstep
      rw [hread, ← (ppRead_ok hread).2.1] at hroom
      obtain ⟨-, rfl⟩ := hnext.resolve_left fun hfull => hroom hfull.1
      obtain ⟨hne, hbytes, hreceived⟩ := ppRead_piece hread
      obtain ⟨hne', hbytes', pp2, i, hreceived', hrest⟩ := ih (ppRead_valid hvalid hread)
        (fun x y hx => hover x y (.head hstep hx)) ((loop_next hstep).symm.trans h)
      rw [hreceived, ← absorb_append] at hreceived'
      simp only [pieces, hstep]
      refine ⟨?_, ?_, pp2, i, hreceived', hrest⟩
      · rw [List.mem_append, not_or]
        exact ⟨hne, hne'⟩
      · rw [hbytes, hbytes', List.flatten_append, List.append_assoc]

/-! ## Taking the text off the buffer -/

theorem ProcPipe.move_buf (h : k + n ≤ pp.buf.length) :
    (pp.move heap k n).buf = (pp.buf.drop k).take n ++ pp.buf.drop n := by
  have hmap : (List.range n).map (fun j => pp.buf.getD (k + j) (heap (k + j))) = (pp.buf.drop k).take n := by
    apply List.ext_getElem?
    intro j
    rw [List.getElem?_map, List.getElem?_take, List.getElem?_drop]
    by_cases hj : j < n
    · rw [List.getElem?_range hj, if_pos hj]
      have hin : k + j < pp.buf.length := by omega
      simp [List.getD_eq_getElem?_getD, List.getElem?_eq_getElem hin]
    · rw [if_neg hj, List.getElem?_eq_none (by rw [List.length_range]; omega)]
      rfl
  show List.map _ _ ++ _ = _
  rw [hmap]

/-- Where the expected text was found: no NUL stands before it, and it is the first occurrence in the buffer. -/
theorem strnstr_some (h : pp.strnstr expect = some i) :
    ∃ pre post, pp.received = pre ++ expect ++ post ∧ pre.length = i ∧ (∀ c ∈ pre, c ≠ '\x00') ∧
      ∀ j < i, ¬OccursAt expect pp.received j := by
  obtain ⟨⟨pre, mid, heq, hlen⟩, hfirst⟩ := findSub_eq_some_iff.mp h
  have hsplit := List.takeWhile_append_dropWhile (p := (· != '\x00')) (l := pp.received)
  rw [heq] at hsplit
  refine ⟨pre, mid ++ pp.received.dropWhile (· != '\x00'), ?_, hlen, ?_, ?_⟩
  · rw [← List.append_assoc]
    exact hsplit.symm
  · intro c hc
    have hmem : c ∈ pp.received.takeWhile (· != '\x00') := by
      rw [heq]
      exact List.mem_append_left _ (List.mem_append_left _ hc)
    have hne := List.mem_takeWhile_imp hmem
    exact bne_iff_ne.mp hne
  · -- An earlier occurrence would lie in front of the NUL as well.
    intro j hj hocc
    rw [← hsplit] at hocc
    apply hfirst j hj
    rw [heq]
    apply hocc.of_append
    simp only [List.length_append]
    omega

/-- What the caller should get of the text before the occurrence: no newlines, cut to the size of its buffer. -/
def cutText (dst : Option Nat) (pre : List Char) : Text :=
  match dst with
  | none => .null
  | some size => .chars ((pre.filter fun c => c != '\r' && c != '\n').take (size - 1))

/-- How a call should split what it has gathered: `text` is what stands before the first occurrence, and what follows
it is kept. -/
def Split (expect : List Char) (dst : Option Nat) (gathered : List Char) (text : Text) (pp : ProcPipe) : Prop :=
  ∃ pre post, gathered = pre ++ expect ++ post ∧ (∀ j < pre.length, ¬OccursAt expect gathered j) ∧
    text = cutText dst pre ∧ pp.received = post ∧ pp.nread = post.length

/-- The text before the first occurrence fits in the caller's buffer together with its NUL. -/
def Fits (expect : List Char) (dst : Option Nat) (gathered : List Char) : Prop :=
  ∀ size i, dst = some size → findSub expect gathered = some i → i < size

theorem stripNewline_plain {s : List Char} (h : ∀ c ∈ s, c ≠ '\x00') :
    stripNewline s = s.filter fun c => c != '\r' && c != '\n' := by
  have hall : s.takeWhile (· != '\x00') = s := List.takeWhile_eq_self_iff.mpr fun c hc => bne_iff_ne.mpr (h c hc)
  rw [stripNewline, hall]

/-- The bytes behind the expected text are moved to the front. -/
theorem taken_received (heap : Nat → Char) (hvalid : pp.Valid)
    (heq : pp.received = pre ++ expect ++ post) (hn : n = pre.length + expect.length) :
    ({ pp.move heap n (pp.nread - n) with nread := pp.nread - n } : ProcPipe).received = post ∧
      pp.nread - n = post.length := by
  have hlen := hvalid.received
  rw [heq, List.length_append, List.length_append] at hlen
  have hnread : pp.nread - n = post.length := by omega
  have hbuf := hvalid.size
  have hle := hvalid.nread
  have hdrop : (pp.buf.drop n).take (pp.nread - n) = post := by
    rw [← List.drop_take]
    show pp.received.drop n = post
    rw [heq, hn, ← List.length_append]
    exact List.drop_left ..
  refine ⟨?_, hnread⟩
  show (pp.move heap n (pp.nread - n)).buf.take (pp.nread - n) = post
  rw [ProcPipe.move_buf (by omega), hdrop, hnread]
  exact List.take_left ..

/-- A text that fits is returned, and what follows the expected text is kept. -/
theorem ppFound_fits (hvalid : pp.Valid) (heq : pp.received = pre ++ expect ++ post)
    (hpre : ∀ c ∈ pre, c ≠ '\x00') (hfits : ∀ size, dst = some size → pre.length < size)
    (h : ppFound heap expect dst pp pre.length = (.found ret text, pp')) :
    text = cutText dst pre ∧ pp'.received = post ∧ pp'.nread = post.length := by
  have htaken := taken_received heap hvalid heq rfl
  cases dst with
  | none =>
    obtain ⟨hret, rfl⟩ := Prod.mk.inj h
    exact ⟨(Expect.found.inj hret).2.symm, htaken⟩
  | some size =>
    have hlt := hfits size rfl
    have hcut : (some size).any (fun size => size > 0 && pre.length > size - 1) = false := by
      simp only [Option.any_some, Bool.and_eq_false_iff, decide_eq_false_iff_not]
      omega
    have htext : pp.received.take pre.length = pre := by
      rw [heq, List.append_assoc]
      exact List.take_left ..
    have hall : (pre.filter fun c => c != '\r' && c != '\n').length ≤ size - 1 := by
      have hle := List.length_filter_le (fun c => c != '\r' && c != '\n') pre
      omega
    rw [ppFound, hcut, htext, stripNewline_plain hpre] at h
    cases size with
    | zero => exact absurd hlt (Nat.not_lt_zero _)
    | succ size =>
      obtain ⟨hret, rfl⟩ := Prod.mk.inj h
      refine ⟨?_, htaken⟩
      rw [cutText, List.take_of_length_le hall]
      exact (Expect.found.inj hret).2.symm

/-- Of a text that does not fit, too many bytes are kept; or there is no buffer to put its end in. -/
theorem ppFound_cut {size : Nat} (hi : size ≤ i) (h : ppFound heap expect (some size) pp i = (.found ret text, pp')) :
    text = .outside ∨ 0 < size ∧ pp'.nread = pp.nread - (size - 1) := by
  cases size with
  | zero =>
    obtain ⟨hret, -⟩ := Prod.mk.inj h
    exact .inl (Expect.found.inj hret).2.symm
  | succ size =>
    have hcut : (some (size + 1)).any (fun size => size > 0 && i > size - 1) = true := by
      simp only [Option.any_some, Bool.and_eq_true, decide_eq_true_eq]
      omega
    rw [ppFound, if_pos hcut] at h
    obtain ⟨-, rfl⟩ := Prod.mk.inj h
    exact .inr ⟨Nat.succ_pos _, rfl⟩

/-- The split is right exactly if the text fits. -/
theorem ppFound_split_iff (hvalid : pp.Valid) (hfound : pp.strnstr expect = some i)
    (h : ppFound heap expect dst pp i = (.found ret text, pp')) :
    Split expect dst pp.received text pp' ↔ Fits expect dst pp.received := by
  obtain ⟨pre, post, heq, rfl, hnul, hfirst⟩ := strnstr_some hfound
  have hfind : findSub expect pp.received = some pre.length :=
    findSub_eq_some_iff.mpr ⟨⟨pre, post, heq, rfl⟩, hfirst⟩
  constructor
  · rintro ⟨pre', post', heq', hfirst', htext, -, hnread⟩ size i hdst hi
    rw [hfind] at hi
    obtain rfl := Option.some.inj hi
    subst hdst
    by_contra hle
    -- Both are the first occurrence.
    have hfind' : findSub expect pp.received = some pre'.length :=
      findSub_eq_some_iff.mpr ⟨⟨pre', post', heq', rfl⟩, hfirst'⟩
    rw [hfind] at hfind'
    have hpre := Option.some.inj hfind'
    have hlen := hvalid.received
    rw [heq', List.length_append, List.length_append] at hlen
    rcases ppFound_cut (Nat.le_of_not_lt hle) h with hout | ⟨hpos, hkept⟩
    · rw [hout] at htext
      cases htext
    · omega
  · intro hfits
    obtain ⟨htext, hreceived, hnread⟩ := ppFound_fits hvalid heq hnul (fun size hdst => hfits size _ hdst hfind) h
    exact ⟨pre, post, heq, hfirst, htext, hreceived, hnread⟩

/-! ## Successive calls -/

/-- What is still to be used: the bytes in the buffer, and those that will arrive. -/
def stream (pp : ProcPipe) (feed : List Arrival) : List Char := pp.received ++ bytes feed

theorem absorb_plain {b : List Char} {chunks : List (List Char)} (h : ∀ c ∈ b ++ chunks.flatten, c ≠ esc) :
    absorb b chunks = b ++ chunks.flatten := by
  induction chunks generalizing b with
  | nil => rw [List.flatten_nil, List.append_nil]; rfl
  | cons d ds ih =>
    rw [List.flatten_cons, ← List.append_assoc] at h ⊢
    have hplain : ∀ c ∈ b ++ d, c ≠ esc := fun c hc => h c (List.mem_append_left _ hc)
    have hstrip : stripCsi (b ++ d) = b ++ d := by
      have hinside : ¬EndsInside (b ++ d) := by
        rw [← List.append_nil (b ++ d), endsInside_plain hplain]
        exact not_endsInside_nil
      have hremove := removeCsi_plain hplain []
      rw [List.append_nil, removeCsi_nil, List.append_nil] at hremove
      rw [stripCsi_eq_removeCsi hinside, hremove]
    show absorb (stripCsi (b ++ d)) ds = _
    rw [hstrip]
    exact ih h

/-- Calls of `pp_expect`, each with the text it waits for, the size of the caller's buffer and what it leaves there. All
of them find their text without an overflow, and it fits. -/
inductive ExpectCalls (heap : Nat → Char) :
    ProcPipe → List Arrival → List (List Char × Option Nat × Text) → ProcPipe → List Arrival → Prop where
  | none (pp : ProcPipe) (feed : List Arrival) : ExpectCalls heap pp feed [] pp feed
  | call {expect : List Char} {dst : Option Nat} {fuel ret : Nat} {text : Text} {pp pp1 pp2 : ProcPipe}
      {feed feed1 feed2 : List Arrival} {calls : List (List Char × Option Nat × Text)}
      (hret : ppExpect heap expect dst fuel pp feed = some (.found ret text, pp1, feed1))
      (hover : NoOverflow heap expect dst pp feed) (hfits : Fits expect dst (stream pp feed))
      (hrest : ExpectCalls heap pp1 feed1 calls pp2 feed2) :
      ExpectCalls heap pp feed ((expect, dst, text) :: calls) pp2 feed2

/-- A stream cut at the first occurrence of each of the texts in turn. -/
inductive Partition : List Char → List (List Char × Option Nat × Text) → List Char → Prop where
  | none (s : List Char) : Partition s [] s
  | part {expect pre s s' : List Char} {dst : Option Nat} {calls : List (List Char × Option Nat × Text)}
      (hfirst : ∀ j < pre.length, ¬OccursAt expect (pre ++ expect ++ s) j) (hrest : Partition s calls s') :
      Partition (pre ++ expect ++ s) ((expect, dst, cutText dst pre) :: calls) s'

theorem ProcPipe.Valid.move (hvalid : pp.Valid) (hle : n ≤ pp.nread) :
    ({ pp.move heap k n with nread := n } : ProcPipe).Valid := by
  have hsize := hvalid.size
  have hnread := hvalid.nread
  constructor
  · show (List.map _ _ ++ _).length = pp.size
    rw [List.length_append, List.length_map, List.length_range, List.length_drop]
    omega
  · exact Nat.le_trans hle hnread

theorem ppFound_valid (hvalid : pp.Valid)
    (h : ppFound heap expect dst pp i = (.found ret text, pp')) : pp'.Valid := by
  unfold ppFound at h
  split at h
  · obtain ⟨-, rfl⟩ := Prod.mk.inj h
    exact hvalid.move (Nat.sub_le ..)
  · split at h
    · obtain ⟨-, rfl⟩ := Prod.mk.inj h
      exact hvalid.move (Nat.sub_le ..)
    · obtain ⟨-, rfl⟩ := Prod.mk.inj h
      exact hvalid.move (Nat.sub_le ..)
    · obtain ⟨-, rfl⟩ := Prod.mk.inj h
      exact hvalid.move (Nat.sub_le ..)

/-- Where the expected text and what fits before it are found in the buffer, they are the first in the stream. -/
theorem stream_split (h : pp.strnstr expect = some i) (feed : List Arrival) :
    ∃ pre post, pp.received = pre ++ expect ++ post ∧ pre.length = i ∧ (∀ c ∈ pre, c ≠ '\x00') ∧
      stream pp feed = pre ++ expect ++ (post ++ bytes feed) ∧
      ∀ j < pre.length, ¬OccursAt expect (stream pp feed) j := by
  obtain ⟨pre, post, heq, rfl, hnul, hfirst⟩ := strnstr_some h
  refine ⟨pre, post, heq, rfl, hnul, by rw [stream, heq, List.append_assoc], ?_⟩
  intro j hj hocc
  apply hfirst j hj
  apply hocc.of_append
  rw [heq]
  simp only [List.length_append]
  omega

/-- **ExpectCalls whose texts fit cut the stream into parts**, when there is no control sequence in it. -/
theorem expectCalls_partition {calls : List (List Char × Option Nat × Text)}
    (h : ExpectCalls heap pp feed calls pp' feed') :
    pp.Valid → (∀ c ∈ stream pp feed, c ≠ esc) → Partition (stream pp feed) calls (stream pp' feed') := by
  induction h with
  | none pp feed => exact fun _ _ => .none _
  | @call expect dst fuel ret text pp pp2 pp3 feed feed2 feed3 calls hret hover hfits _ ih =>
    intro hvalid hplain
    obtain ⟨-, hbytes, pp1, i, hreceived, hvalid1, hfound, hkept⟩ := ppExpect_found hvalid hover hret
    have hsame : stream pp1 feed2 = stream pp feed := by
      rw [stream, hbytes, ← List.append_assoc] at hplain
      rw [stream, stream, hreceived, absorb_plain fun c hc => hplain c (List.mem_append_left _ hc), hbytes,
        List.append_assoc]
    obtain ⟨pre, post, heq, rfl, hnul, hstream, hfirst⟩ := stream_split hfound feed2
    rw [hsame] at hstream hfirst
    have hfind : findSub expect (stream pp feed) = some pre.length :=
      findSub_eq_some_iff.mpr ⟨⟨pre, _, hstream, rfl⟩, hfirst⟩
    obtain ⟨rfl, hpost, -⟩ := ppFound_fits hvalid1 heq hnul (fun size hdst => hfits size _ hdst hfind) hkept
    have hrest : stream pp2 feed2 = post ++ bytes feed2 := by rw [stream, hpost]
    rw [hstream] at hplain hfirst ⊢
    rw [← hrest] at hplain hfirst ⊢
    exact .part hfirst (ih (ppFound_valid hvalid1 hkept) fun c hc => hplain c (List.mem_append_right _ hc))

/-- **`pp_expect` splits the stream exactly if the text fits in the caller's buffer.** For a call that finds its text
without an overflow, what it has gathered are the pieces it has read; and calls that all fit cut the stream into parts. -/
theorem ppExpect_split_iff (heap : Nat → Char) :
    (∀ {expect : List Char} {dst : Option Nat} {fuel ret : Nat} {text : Text} {pp pp' : ProcPipe}
        {feed feed' : List Arrival}, pp.Valid → NoOverflow heap expect dst pp feed →
      ppExpect heap expect dst fuel pp feed = some (.found ret text, pp', feed') →
      [] ∉ pieces heap expect dst fuel (pp, feed) ∧
        bytes feed = (pieces heap expect dst fuel (pp, feed)).flatten ++ bytes feed' ∧
        (Split expect dst (absorb pp.received (pieces heap expect dst fuel (pp, feed))) text pp' ↔
          Fits expect dst (absorb pp.received (pieces heap expect dst fuel (pp, feed))))) ∧
    ∀ {pp pp' : ProcPipe} {feed feed' : List Arrival} {calls : List (List Char × Option Nat × Text)},
      pp.Valid → (∀ c ∈ stream pp feed, c ≠ esc) → ExpectCalls heap pp feed calls pp' feed' →
      Partition (stream pp feed) calls (stream pp' feed') := by
  refine ⟨?_, fun hvalid hplain hcalls => expectCalls_partition hcalls hvalid hplain⟩
  intro expect dst fuel ret text pp pp' feed feed' hvalid hover hret
  obtain ⟨hne, hbytes, pp1, i, hreceived, hvalid1, hfound, hkept⟩ := ppExpect_found hvalid hover hret
  refine ⟨hne, hbytes, ?_⟩
  rw [← hreceived]
  exact ppFound_split_iff hvalid1 hfound hkept

/-- A buffer of 16 bytes that holds a text, and behind it bytes that are not in use any more. -/
def ProcPipe.holding (s stale : List Char) : ProcPipe :=
  { buf := s ++ stale ++ List.replicate (16 - s.length - stale.length) '\x00', size := 16, nread := s.length }

theorem noOverflow_of_return {r : Expect × ProcPipe × List Arrival}
    (h : expectStep heap expect dst (pp, feed) = .inl r) : NoOverflow heap expect dst pp feed := by
  intro st st' hrounds hstep
  rcases Relation.ReflTransGen.cases_head hrounds with rfl | ⟨next, hnext, -⟩
  · rw [h] at hstep
    cases hstep
  · rw [h] at hnext
    cases hnext

/-- A line in front of the prompt, with a buffer that it fits in. -/
theorem ppExpect_split_line :
    Split "> ".toList (some 8) "a\r\nb> c".toList (.chars "ab".toList) (.holding "c".toList "\r\nb> c".toList) ∧
      Partition "a\r\nb> c".toList [("> ".toList, some 8, .chars "ab".toList)] "c".toList := by
  have hvalid : (ProcPipe.holding "a\r\nb> c".toList []).Valid := ⟨by decide +kernel, by decide +kernel⟩
  have hstep : expectStep (fun _ => '\x00') "> ".toList (some 8) (.holding "a\r\nb> c".toList [], []) =
      .inl (.found 2 (.chars "ab".toList), .holding "c".toList "\r\nb> c".toList, []) := by decide +kernel
  have hfits : Fits "> ".toList (some 8) "a\r\nb> c".toList := by
    intro size i hsize hi
    obtain rfl := Option.some.inj hsize
    have hfour : findSub "> ".toList "a\r\nb> c".toList = some 4 := by decide +kernel
    rw [hfour] at hi
    obtain rfl := Option.some.inj hi
    decide
  have hover := noOverflow_of_return hstep
  have hret : ppExpect (fun _ => '\x00') "> ".toList (some 8) 1 (.holding "a\r\nb> c".toList []) [] =
      some (.found 2 (.chars "ab".toList), .holding "c".toList "\r\nb> c".toList, []) := loop_return hstep
  obtain ⟨hcall, hcalls⟩ := ppExpect_split_iff fun _ => '\x00'
  have hplain : ∀ c ∈ stream (.holding "a\r\nb> c".toList []) [], c ≠ esc := by
    intro c hc
    have hall : (stream (.holding "a\r\nb> c".toList []) []).all (· != esc) = true := by decide +kernel
    exact bne_iff_ne.mp (List.all_eq_true.mp hall c hc)
  refine ⟨?_, hcalls hvalid hplain (.call hret hover hfits (.none _ _))⟩
  obtain ⟨-, -, hiff⟩ := hcall hvalid hover hret
  exact hiff.mpr hfits

/-- The text in front of the prompt is too long for four bytes: the prompt is still there for the next call, and with
the one byte behind it three more are kept that were never received. -/
theorem ppExpect_split_cut :
    ppExpect (fun _ => '\x00') "> ".toList (some 4) 1 (.holding "abcdef> x".toList []) [] =
        some (.found 3 (.chars "abc".toList), .holding "> x\x00\x00\x00".toList "> x".toList, []) ∧
      ¬Split "> ".toList (some 4) "abcdef> x".toList (.chars "abc".toList)
        (.holding "> x\x00\x00\x00".toList "> x".toList) := by
  refine ⟨by decide +kernel, ?_⟩
  rintro ⟨pre, post, heq, hfirst, -, -, hnread⟩
  have hfind := findSub_eq_some_iff.mpr ⟨⟨pre, post, heq, rfl⟩, hfirst⟩
  have hsix : findSub "> ".toList "abcdef> x".toList = some 6 := by decide +kernel
  rw [hsix] at hfind
  have hpre := Option.some.inj hfind
  have hlength := congrArg List.length heq
  have hkept : 6 = post.length := hnread
  have hnine : "abcdef> x".toList.length = 9 := by decide +kernel
  have htwo : "> ".toList.length = 2 := by decide +kernel
  rw [hnine, List.length_append, List.length_append, htwo] at hlength
  omega

end Bmd
