import Bmd.Inspect.Grub

/-!
# `Correctness.Csi` — control sequences and the boundaries of reads

`pp_read` strips the whole buffer of control sequences after every read. A sequence that a read ends inside of is cut
off, and what the next read brings of it stays as text.

`removeCsi` is the meaning: one pass over the stream that removes every known sequence. For a buffer `b` and the rest
`r` of the stream, `removeCsi (b ++ r)` is what a single pass would still make of it. A read that ends inside no
sequence leaves it as it is or makes it smaller (`Below`); it stays the same if removing sequences forms no new ones
(`stripCsi_whole`). A read that ends inside of one makes it smaller (`stripCsi_inside`), and it never comes back.
-/

namespace Bmd

open Lib

variable {l r x rest : List Char} {c : Char} {s : List Char} {a b : List Char} {ps : List Char} {f : Char}
  {p : List Char}

/-! ## A control sequence at the front -/

theorem csiAt_of_ne (h : c ≠ esc) : csiAt (c :: s) = .text := by
  unfold csiAt
  split
  · next heq =>
    obtain ⟨rfl, rfl⟩ := List.cons.inj heq
    exact if_neg fun hesc => h hesc.1
  · rfl

/-- What a sequence has behind its first character. -/
structure Body (ps : List Char) (f : Char) : Prop where
  params : ∀ c ∈ ps, csiParam c = true
  final : csiFinal f = true

theorem csiFinal_ne (h : csiFinal f = true) : csiParam f = false ∧ f ≠ esc := by
  have hall : "ABCDEFGHIJKMSTfhilmnsu".toList.all (fun f => !csiParam f && f != esc) = true := by decide +kernel
  have hf := List.all_eq_true.mp hall f (List.contains_iff_mem.mp h)
  rwa [Bool.and_eq_true, Bool.not_eq_true', bne_iff_ne] at hf

theorem csiParam_ne (h : csiParam c = true) : c ≠ esc := by
  rintro rfl
  exact absurd h (by decide)

theorem params_plain (h : ∀ c ∈ ps, csiParam c = true) : ∀ c ∈ '[' :: ps, c ≠ esc := by
  intro c hc
  rcases List.mem_cons.mp hc with rfl | hc
  · decide
  · exact csiParam_ne (h c hc)

theorem Body.plain (h : Body ps f) : ∀ c ∈ '[' :: ps ++ [f], c ≠ esc := by
  intro c hc
  rcases List.mem_append.mp hc with hc | hc
  · exact params_plain h.params c hc
  · obtain rfl := List.mem_singleton.mp hc
    exact (csiFinal_ne h.final).2

theorem Body.csiAt (h : Body ps f) (rest : List Char) : csiAt (esc :: '[' :: ps ++ f :: rest) = .sequence rest := by
  have hdrop : (ps ++ f :: rest).dropWhile csiParam = f :: rest := by
    rw [List.dropWhile_append_of_pos h.params, List.dropWhile_cons_of_neg]
    rw [(csiFinal_ne h.final).1]
    exact Bool.false_ne_true
  simp [Bmd.csiAt, hdrop, h.final]

theorem exists_body (h : csiAt l = .sequence r) : ∃ ps f, Body ps f ∧ l = esc :: '[' :: ps ++ f :: r := by
  obtain ⟨ps, f, hps, hf, heq⟩ := csiAt_sequence h
  exact ⟨ps, f, ⟨hps, hf⟩, heq⟩

theorem csiAt_inside : csiAt l = .inside ↔ ∃ ps, (∀ c ∈ ps, csiParam c = true) ∧ l = esc :: '[' :: ps := by
  constructor
  · intro h
    unfold csiAt at h
    split at h
    · next e b t =>
      split at h
      · next heb =>
        obtain ⟨rfl, rfl⟩ := heb
        split at h
        · next hdrop => exact ⟨t, List.dropWhile_eq_nil_iff.mp hdrop, rfl⟩
        · split at h <;> cases h
      · cases h
    · cases h
  · rintro ⟨ps, hps, rfl⟩
    have hdrop : ps.dropWhile csiParam = [] := List.dropWhile_eq_nil_iff.mpr hps
    simp [csiAt, hdrop]

/-- More bytes do not change a sequence that was found. -/
theorem csiAt_append (h : csiAt l = .sequence r) (rest : List Char) : csiAt (l ++ rest) = .sequence (r ++ rest) := by
  obtain ⟨ps, f, hbody, rfl⟩ := exists_body h
  rw [List.append_assoc, List.cons_append]
  exact hbody.csiAt (r ++ rest)

/-- More bytes complete a sequence only if it had begun. -/
theorem csiAt_of_append (h : csiAt (l ++ rest) = .sequence r) :
    (∃ r', csiAt l = .sequence r') ∨ csiAt l = .inside ∨ l = [] ∨ l = [esc] := by
  obtain ⟨ps, f, hbody, heq⟩ := exists_body h
  match l, heq with
  | [], _ => exact .inr (.inr (.inl rfl))
  | [e], heq =>
    obtain ⟨rfl, -⟩ := List.cons.inj heq
    exact .inr (.inr (.inr rfl))
  | e :: b :: t, heq =>
    simp only [List.cons_append, List.cons.injEq] at heq
    obtain ⟨rfl, rfl, heq⟩ := heq
    -- The text that was there ends among the parameters, or behind the last character.
    rcases List.append_eq_append_iff.mp heq with ⟨ps', rfl, -⟩ | ⟨t', rfl, hrest⟩
    · exact .inr (.inl (csiAt_inside.mpr ⟨t, fun c hc => hbody.params c (List.mem_append_left _ hc), rfl⟩))
    · cases t' with
      | nil =>
        rw [List.append_nil]
        exact .inr (.inl (csiAt_inside.mpr ⟨ps, hbody.params, rfl⟩))
      | cons g t' =>
        obtain ⟨rfl, -⟩ := List.cons.inj hrest
        exact .inl ⟨t', hbody.csiAt t'⟩

/-- Where more bytes complete a sequence, they begin with its other part. -/
theorem csiAt_completed (hin : csiAt l = .inside) (h : csiAt (l ++ rest) = .sequence r) :
    ∃ p, (∀ d ∈ p, d ≠ esc) ∧ p ≠ [] ∧ rest = p ++ r := by
  obtain ⟨ps, hps, rfl⟩ := csiAt_inside.mp hin
  obtain ⟨ps', f, hbody, heq⟩ := exists_body h
  simp only [List.cons_append, List.cons.injEq, true_and] at heq
  rcases List.append_eq_append_iff.mp heq with ⟨qs, rfl, rfl⟩ | ⟨qs, rfl, hqs⟩
  · refine ⟨qs ++ [f], fun d hd => hbody.plain d ?_, by simp, by simp⟩
    simp only [List.cons_append, List.append_assoc, List.mem_cons, List.mem_append] at hd ⊢
    tauto
  · cases qs with
    | nil => exact ⟨[f], fun d hd => hbody.plain d (List.mem_append_right _ hd), by simp, hqs.symm⟩
    | cons q qs =>
      -- The last character of a sequence is no parameter.
      obtain ⟨rfl, -⟩ := List.cons.inj hqs
      have hparam := hps f (by simp)
      rw [(csiFinal_ne hbody.final).1] at hparam
      cases hparam

/-! ## One pass over the stream -/

/-- The text with every known control sequence removed. -/
def removeCsi : List Char → List Char
  | [] => []
  | c :: s =>
    match _h : csiAt (c :: s) with
    | .sequence rest => removeCsi rest
    | _ => c :: removeCsi s
termination_by l => l.length
decreasing_by
  · exact csiAt_length _h
  · exact Nat.lt_succ_self _

theorem removeCsi_nil : removeCsi [] = [] := by rw [removeCsi]

theorem removeCsi_sequence (h : csiAt l = .sequence r) : removeCsi l = removeCsi r := by
  cases l with
  | nil => cases h
  | cons c s =>
    rw [removeCsi]
    split
    · next rest hrest =>
      rw [h] at hrest
      obtain rfl := Csi.sequence.inj hrest
      rfl
    · next hno => exact absurd h (hno r)

theorem removeCsi_cons (h : ∀ r, csiAt (c :: s) ≠ .sequence r) : removeCsi (c :: s) = c :: removeCsi s := by
  rw [removeCsi]
  split
  · next rest hrest => exact absurd hrest (h rest)
  · rfl

/-- No sequence begins without its first character. -/
theorem removeCsi_plain (h : ∀ c ∈ p, c ≠ esc) (l : List Char) : removeCsi (p ++ l) = p ++ removeCsi l := by
  induction p with
  | nil => rfl
  | cons c p ih =>
    have htext := csiAt_of_ne (s := p ++ l) (h c (List.mem_cons_self ..))
    rw [List.cons_append, removeCsi_cons, ih fun d hd => h d (List.mem_cons_of_mem _ hd), List.cons_append]
    intro r hr
    rw [htext] at hr
    cases hr

theorem removeCsi_length_le (l : List Char) : (removeCsi l).length ≤ l.length := by
  induction l using removeCsi.induct with
  | case1 => rw [removeCsi_nil]
  | case2 c s rest hrest ih =>
    rw [removeCsi_sequence hrest]
    exact Nat.le_of_lt (Nat.lt_of_le_of_lt ih (csiAt_length hrest))
  | case3 c s hno ih =>
    rw [removeCsi_cons hno]
    exact Nat.succ_le_succ ih

/-- Where a pass changes nothing, it changes nothing behind the first character either. -/
theorem removeCsi_cons_fixed (h : removeCsi (c :: s) = c :: s) :
    (∀ r, csiAt (c :: s) ≠ .sequence r) ∧ removeCsi s = s := by
  have hno : ∀ r, csiAt (c :: s) ≠ .sequence r := by
    intro r hr
    have hle := removeCsi_length_le r
    have hlt := csiAt_length hr
    rw [removeCsi_sequence hr] at h
    rw [h] at hle
    omega
  rw [removeCsi_cons hno] at h
  exact ⟨hno, (List.cons.inj h).2⟩

/-! ## Ending inside of a sequence -/

/-- The bytes end inside of a control sequence that may still turn out to be known. -/
def EndsInside (l : List Char) : Prop := ∃ t ∈ l.tails, csiAt t = .inside

instance (l : List Char) : Decidable (EndsInside l) :=
  inferInstanceAs (Decidable (∃ t ∈ l.tails, csiAt t = .inside))

theorem endsInside_cons : EndsInside (c :: s) ↔ csiAt (c :: s) = .inside ∨ EndsInside s := by
  simp only [EndsInside, List.tails, List.mem_cons, exists_eq_or_imp]

theorem not_endsInside_nil : ¬EndsInside [] := by decide

theorem endsInside_plain (h : ∀ c ∈ p, c ≠ esc) (l : List Char) : EndsInside (p ++ l) ↔ EndsInside l := by
  induction p with
  | nil => rfl
  | cons c p ih =>
    have htext := csiAt_of_ne (s := p ++ l) (h c (List.mem_cons_self ..))
    rw [List.cons_append, endsInside_cons, htext, ih fun d hd => h d (List.mem_cons_of_mem _ hd)]
    simp only [reduceCtorEq, false_or]

/-- What follows a sequence decides. -/
theorem endsInside_sequence (h : csiAt l = .sequence r) : EndsInside l ↔ EndsInside r := by
  obtain ⟨ps, f, hbody, rfl⟩ := exists_body h
  have hsplit : esc :: '[' :: ps ++ f :: r = esc :: (('[' :: ps ++ [f]) ++ r) := by simp
  rw [hsplit] at h ⊢
  rw [endsInside_cons, h, endsInside_plain hbody.plain]
  simp only [reduceCtorEq, false_or]

/-! ## `strip_csi` -/

theorem stripCsi_nil : stripCsi [] = [] := by rw [stripCsi]

theorem stripCsi_sequence (h : csiAt l = .sequence r) : stripCsi l = stripCsi r := by
  cases l with
  | nil => cases h
  | cons c s =>
    rw [stripCsi]
    split
    · next htext =>
      rw [h] at htext
      cases htext
    · next hin =>
      rw [h] at hin
      cases hin
    · next rest hrest =>
      rw [h] at hrest
      obtain rfl := Csi.sequence.inj hrest
      rfl

theorem stripCsi_text (h : csiAt (c :: s) = .text) : stripCsi (c :: s) = c :: stripCsi s := by
  rw [stripCsi]
  split
  · rfl
  · next hin =>
    rw [h] at hin
    cases hin
  · next rest hrest =>
    rw [h] at hrest
    cases hrest

theorem stripCsi_cut (h : csiAt (c :: s) = .inside) : stripCsi (c :: s) = [] := by
  rw [stripCsi]
  split
  · next htext =>
    rw [h] at htext
    cases htext
  · rfl
  · next rest hrest =>
    rw [h] at hrest
    cases hrest

/-- `strip_csi` does what it is for, except at the end of the bytes. -/
theorem stripCsi_eq_removeCsi (h : ¬EndsInside l) : stripCsi l = removeCsi l := by
  induction l using stripCsi.induct with
  | case1 => rw [stripCsi_nil, removeCsi_nil]
  | case2 c s htext ih =>
    have hno : ∀ r, csiAt (c :: s) ≠ .sequence r := by
      intro r hr
      rw [htext] at hr
      cases hr
    rw [stripCsi_text htext, removeCsi_cons hno, ih fun hs => h (endsInside_cons.mpr (.inr hs))]
  | case3 c s hin => exact absurd (endsInside_cons.mpr (.inl hin)) h
  | case4 c s rest hrest ih =>
    rw [stripCsi_sequence hrest, removeCsi_sequence hrest, ih fun hs => h ((endsInside_sequence hrest).mpr hs)]

/-! ## What a read does to what is still to come -/

/-- Fewer sequences may begin in the text; or as many, and it is longer. -/
def Below (a b : List Char) : Prop := a.count esc < b.count esc ∨ a.count esc = b.count esc ∧ b.length < a.length

theorem Below.count_le (h : Below a b) : a.count esc ≤ b.count esc := by
  rcases h with h | h
  · exact Nat.le_of_lt h
  · exact Nat.le_of_eq h.1

theorem Below.trans {d : List Char} (h : Below a b) (h' : Below b d) : Below a d := by
  unfold Below at *
  omega

theorem Below.irrefl : ¬Below a a := by
  unfold Below
  omega

theorem Below.cons (h : Below a b) (c : Char) : Below (c :: a) (c :: b) := by
  unfold Below at *
  rw [List.count_cons, List.count_cons, List.length_cons, List.length_cons]
  omega

theorem below_of_count (h : a.count esc ≤ b.count esc) : Below a (esc :: b) := by
  left
  rw [List.count_cons_self]
  omega

/-- A sequence is formed at the front: the characters behind its first one stay for themselves. -/
theorem removeCsi_formed (h : csiAt (c :: s) = .sequence r) :
    c = esc ∧ ∃ p, (∀ d ∈ p, d ≠ esc) ∧ removeCsi s = p ++ removeCsi r ∧
      ∀ t, csiAt (c :: p ++ t) = .sequence t := by
  obtain ⟨ps, f, hbody, heq⟩ := exists_body h
  rw [List.cons_append] at heq
  obtain ⟨rfl, rfl⟩ := List.cons.inj heq
  refine ⟨rfl, '[' :: ps ++ [f], hbody.plain, ?_, fun t => ?_⟩
  · have hsplit : '[' :: ps ++ f :: r = ('[' :: ps ++ [f]) ++ r := by simp
    rw [← removeCsi_plain hbody.plain r, ← hsplit]
  · have hsplit : esc :: ('[' :: ps ++ [f]) ++ t = esc :: '[' :: ps ++ f :: t := by simp
    rw [hsplit]
    exact hbody.csiAt t

theorem count_removeCsi_formed (h : csiAt (c :: s) = .sequence r) :
    (removeCsi r).count esc = (removeCsi s).count esc := by
  obtain ⟨-, p, hp, heq, -⟩ := removeCsi_formed h
  have hcount : p.count esc = 0 := List.count_eq_zero.mpr fun hmem => hp esc hmem rfl
  rw [heq, List.count_append, hcount, Nat.zero_add]

/-- How a pass goes on over a first character that begins no sequence in the stream: a new sequence may be formed. -/
theorem removeCsi_cons_below {s' : List Char} (hno : ∀ r, csiAt (c :: s) ≠ .sequence r)
    (h : Below (removeCsi s') (removeCsi s)) : Below (removeCsi (c :: s')) (removeCsi (c :: s)) := by
  rw [removeCsi_cons hno]
  by_cases hform : ∃ r, csiAt (c :: s') = .sequence r
  · obtain ⟨r, hr⟩ := hform
    rw [removeCsi_sequence hr, (removeCsi_formed hr).1]
    apply below_of_count
    rw [count_removeCsi_formed hr]
    exact h.count_le
  · rw [removeCsi_cons fun r hr => hform ⟨r, hr⟩]
    exact h.cons c

/-- A read that ends inside no sequence leaves what a pass would make of everything, unless removing a sequence has
formed a new one. -/
theorem stripCsi_whole (x rest : List Char) (h : ¬EndsInside x) :
    removeCsi (removeCsi x ++ rest) = removeCsi (x ++ rest) ∨
      Below (removeCsi (removeCsi x ++ rest)) (removeCsi (x ++ rest)) ∧
        removeCsi (removeCsi (x ++ rest)) ≠ removeCsi (x ++ rest) := by
  induction x using removeCsi.induct with
  | case1 =>
    rw [removeCsi_nil]
    exact .inl rfl
  | case2 c s r hr ih =>
    rw [removeCsi_sequence hr, removeCsi_sequence (csiAt_append hr rest)]
    exact ih fun hs => h ((endsInside_sequence hr).mpr hs)
  | case3 c s hno ih =>
    by_cases hlast : s = []
    · subst hlast
      rw [removeCsi_cons hno, removeCsi_nil]
      exact .inl rfl
    have hno' : ∀ r, csiAt (c :: (s ++ rest)) ≠ .sequence r := by
      intro r hr
      rcases csiAt_of_append (l := c :: s) hr with ⟨r', hr'⟩ | hin | hnil | hesc
      · exact hno r' hr'
      · exact h (endsInside_cons.mpr (.inl hin))
      · cases hnil
      · exact hlast (List.cons.inj hesc).2
    have hfixed : removeCsi (removeCsi (s ++ rest)) ≠ removeCsi (s ++ rest) →
        removeCsi (c :: removeCsi (s ++ rest)) ≠ c :: removeCsi (s ++ rest) :=
      fun hne heq => hne (removeCsi_cons_fixed heq).2
    rw [removeCsi_cons hno, List.cons_append, List.cons_append]
    rcases ih fun hs => h (endsInside_cons.mpr (.inr hs)) with heq | ⟨hbelow, hne⟩
    · by_cases hform : ∃ r, csiAt (c :: (removeCsi s ++ rest)) = .sequence r
      · -- The new sequence is one in the stripped stream as well.
        obtain ⟨r, hr⟩ := hform
        obtain ⟨rfl, p, -, hp, hseq⟩ := removeCsi_formed hr
        refine .inr ⟨?_, ?_⟩
        · rw [removeCsi_sequence hr, removeCsi_cons hno']
          apply below_of_count
          rw [count_removeCsi_formed hr, heq]
        · rw [removeCsi_cons hno', ← heq, hp]
          exact fun hfix => (removeCsi_cons_fixed hfix).1 _ (hseq _)
      · rw [removeCsi_cons fun r hr => hform ⟨r, hr⟩, removeCsi_cons hno', heq]
        exact .inl rfl
    · refine .inr ⟨removeCsi_cons_below hno' hbelow, ?_⟩
      rw [removeCsi_cons hno']
      exact hfixed hne

/-- A read that ends inside of a sequence spoils it: what the next reads bring of the sequence stays as text. -/
theorem stripCsi_inside (x rest : List Char) (h : EndsInside x) :
    Below (removeCsi (stripCsi x ++ rest)) (removeCsi (x ++ rest)) := by
  induction x using stripCsi.induct with
  | case1 => exact absurd h not_endsInside_nil
  | case2 c s htext ih =>
    have hs : EndsInside s := by
      rcases endsInside_cons.mp h with hin | hs
      · rw [htext] at hin
        cases hin
      · exact hs
    have hno : ∀ r, csiAt (c :: (s ++ rest)) ≠ .sequence r := by
      intro r hr
      rcases csiAt_of_append (l := c :: s) hr with ⟨r', hr'⟩ | hin | hnil | hesc
      · rw [htext] at hr'
        cases hr'
      · rw [htext] at hin
        cases hin
      · cases hnil
      · obtain ⟨-, rfl⟩ := List.cons.inj hesc
        exact not_endsInside_nil hs
    rw [stripCsi_text htext]
    exact removeCsi_cons_below hno (ih hs)
  | case3 c s hin =>
    rw [stripCsi_cut hin, List.nil_append]
    by_cases hform : ∃ r, csiAt (c :: s ++ rest) = .sequence r
    · -- Completed by the rest, the sequence is removed; without its beginning the rest keeps the other part.
      obtain ⟨r, hr⟩ := hform
      obtain ⟨p, hp, hne, rfl⟩ := csiAt_completed hin hr
      have hcount : p.count esc = 0 := List.count_eq_zero.mpr fun hmem => hp esc hmem rfl
      right
      rw [removeCsi_sequence hr, removeCsi_plain hp, List.count_append, List.length_append, hcount, Nat.zero_add]
      have hpos := List.length_pos_iff.mpr hne
      exact ⟨rfl, by omega⟩
    · obtain ⟨ps, hps, heq⟩ := csiAt_inside.mp hin
      obtain ⟨rfl, rfl⟩ := List.cons.inj heq
      have hno : ∀ r, csiAt (esc :: ('[' :: ps ++ rest)) ≠ .sequence r := fun r hr => hform ⟨r, hr⟩
      rw [List.cons_append, removeCsi_cons hno]
      apply below_of_count
      rw [removeCsi_plain (params_plain hps), List.count_append]
      exact Nat.le_add_left _ _
  | case4 c s r hr ih =>
    rw [stripCsi_sequence hr, removeCsi_sequence (csiAt_append hr rest)]
    exact ih ((endsInside_sequence hr).mp h)

/-! ## The buffer -/

/-- The buffer has its size, and no more of it is in use. -/
structure ProcPipe.Valid (pp : ProcPipe) : Prop where
  size : pp.buf.length = pp.size
  nread : pp.nread ≤ pp.size

theorem ppCreate_valid : ppCreate.Valid := ⟨List.length_replicate .., Nat.zero_le _⟩

variable {pp : ProcPipe}

theorem ProcPipe.Valid.received (h : pp.Valid) : pp.received.length = pp.nread := by
  rw [ProcPipe.received, List.length_take, h.size]
  exact Nat.min_eq_left h.nread

theorem stripCsi_length_le (l : List Char) : (stripCsi l).length ≤ l.length := by
  induction l using stripCsi.induct with
  | case1 => rw [stripCsi_nil]
  | case2 c s htext ih =>
    rw [stripCsi_text htext]
    exact Nat.succ_le_succ ih
  | case3 c s hin =>
    rw [stripCsi_cut hin]
    exact Nat.zero_le _
  | case4 c s rest hrest ih =>
    rw [stripCsi_sequence hrest]
    exact Nat.le_of_lt (Nat.lt_of_le_of_lt ih (csiAt_length hrest))

theorem ProcPipe.append_received (got : List Char) : (pp.append got).received = stripCsi (pp.received ++ got) :=
  List.take_left ..

theorem ProcPipe.Valid.append (h : pp.Valid) (got : List Char) (hroom : pp.nread + got.length ≤ pp.size) :
    (pp.append got).Valid := by
  have hle := stripCsi_length_le (pp.received ++ got)
  rw [List.length_append, h.received] at hle
  constructor
  · show (stripCsi (pp.received ++ got) ++ List.drop _ _).length = pp.size
    rw [List.length_append, List.length_drop, List.length_append, List.length_drop, List.length_append, h.received,
      h.size]
    omega
  · exact Nat.le_trans hle hroom

/-- Bytes that fit in are read at once. -/
theorem ppRead_data (pp : ProcPipe) {bytes : List Char} (hne : bytes ≠ []) (hroom : pp.nread + bytes.length ≤ pp.size)
    (feed : List Arrival) :
    ppRead pp (.data bytes :: feed) = (some (pp.append bytes).nread, pp.append bytes, feed) := by
  have hpos := List.length_pos_iff.mpr hne
  unfold ppRead
  rw [if_pos (by omega)]
  simp only [if_neg hne, if_pos (show bytes.length ≤ pp.size - pp.nread by omega),
    List.take_of_length_le (show bytes.length ≤ pp.size - pp.nread by omega)]

/-- Reading `n` times. -/
def ppReads : Nat → ProcPipe → List Arrival → ProcPipe × List Arrival
  | 0, pp, feed => (pp, feed)
  | n + 1, pp, feed => ppReads n (ppRead pp feed).2.1 (ppRead pp feed).2.2

/-- What the reads make of the buffer when each brings one of the pieces. -/
def absorb (b : List Char) (chunks : List (List Char)) : List Char := chunks.foldl (fun b c => stripCsi (b ++ c)) b

theorem ppReads_received (chunks : List (List Char)) (hne : [] ∉ chunks) (after : List Arrival) :
    ∀ {pp : ProcPipe}, pp.Valid → pp.nread + chunks.flatten.length ≤ pp.size →
      (ppReads chunks.length pp (chunks.map .data ++ after)).1.received = absorb pp.received chunks ∧
        (ppReads chunks.length pp (chunks.map .data ++ after)).2 = after := by
  induction chunks with
  | nil => exact fun _ _ => ⟨rfl, rfl⟩
  | cons c cs ih =>
    intro pp hvalid hroom
    rw [List.mem_cons, not_or] at hne
    rw [List.flatten_cons, List.length_append] at hroom
    have hread := ppRead_data pp (Ne.symm hne.1) (by omega) (cs.map .data ++ after)
    have happ := hvalid.append c (by omega)
    have hle := stripCsi_length_le (pp.received ++ c)
    rw [← ProcPipe.append_received, happ.received, List.length_append, hvalid.received] at hle
    have hstep := ih hne.2 happ (show (pp.append c).nread + cs.flatten.length ≤ pp.size by omega)
    rw [List.length_cons, List.map_cons, List.cons_append, ppReads, hread, hstep.1, hstep.2,
      ProcPipe.append_received]
    exact ⟨rfl, rfl⟩

/-! ## All reads -/

/-- At no read do the bytes in the buffer end inside of a control sequence. -/
def Intact (b : List Char) (chunks : List (List Char)) : Prop :=
  ∀ before c after, chunks = before ++ c :: after → ¬EndsInside (absorb b before ++ c)

theorem intact_cons {c : List Char} {cs : List (List Char)} :
    Intact b (c :: cs) ↔ ¬EndsInside (b ++ c) ∧ Intact (stripCsi (b ++ c)) cs := by
  constructor
  · intro h
    refine ⟨h [] c cs rfl, fun before d after heq => ?_⟩
    exact h (c :: before) d after (by rw [heq, List.cons_append])
  · rintro ⟨hfirst, hrest⟩ before d after heq
    cases before with
    | nil =>
      obtain ⟨rfl, -⟩ := List.cons.inj heq
      exact hfirst
    | cons e before =>
      rw [List.cons_append, List.cons.injEq] at heq
      obtain ⟨rfl, heq⟩ := heq
      exact hrest before d after heq

/-- The reads leave what one pass would make of it all, or something below. -/
theorem absorb_below (chunks : List (List Char)) : ∀ b : List Char,
    removeCsi (absorb b chunks) = removeCsi (b ++ chunks.flatten) ∨
      Below (removeCsi (absorb b chunks)) (removeCsi (b ++ chunks.flatten)) := by
  induction chunks with
  | nil =>
    intro b
    rw [List.flatten_nil, List.append_nil]
    exact .inl rfl
  | cons c cs ih =>
    intro b
    rw [List.flatten_cons, ← List.append_assoc]
    have hstep : removeCsi (stripCsi (b ++ c) ++ cs.flatten) = removeCsi (b ++ c ++ cs.flatten) ∨
        Below (removeCsi (stripCsi (b ++ c) ++ cs.flatten)) (removeCsi (b ++ c ++ cs.flatten)) := by
      by_cases hin : EndsInside (b ++ c)
      · exact .inr (stripCsi_inside _ _ hin)
      · rw [stripCsi_eq_removeCsi hin]
        exact (stripCsi_whole _ _ hin).imp_right And.left
    rcases ih (stripCsi (b ++ c)) with heq | hbelow
    · rw [show absorb b (c :: cs) = absorb (stripCsi (b ++ c)) cs from rfl, heq]
      exact hstep
    · rcases hstep with heq | hbelow'
      · rw [← heq]
        exact .inr hbelow
      · exact .inr (hbelow.trans hbelow')

/-- A read that ends inside of a sequence is never made good. -/
theorem absorb_spoiled (chunks : List (List Char)) : ∀ b : List Char, ¬Intact b chunks →
    Below (removeCsi (absorb b chunks)) (removeCsi (b ++ chunks.flatten)) := by
  induction chunks with
  | nil =>
    intro b h
    refine absurd (fun before c after heq => ?_) h
    exact absurd heq.symm (by simp)
  | cons c cs ih =>
    intro b h
    rw [intact_cons, not_and_or, not_not] at h
    rw [List.flatten_cons, ← List.append_assoc, show absorb b (c :: cs) = absorb (stripCsi (b ++ c)) cs from rfl]
    by_cases hin : EndsInside (b ++ c)
    · rcases absorb_below cs (stripCsi (b ++ c)) with heq | hbelow
      · rw [heq]
        exact stripCsi_inside _ _ hin
      · exact hbelow.trans (stripCsi_inside _ _ hin)
    · have hrest := ih _ (h.resolve_left hin)
      rw [stripCsi_eq_removeCsi hin] at hrest ⊢
      rcases stripCsi_whole (b ++ c) cs.flatten hin with heq | ⟨hbelow, -⟩
      · rw [← heq]
        exact hrest
      · exact hrest.trans hbelow

/-- Reads that end inside no sequence leave what one pass makes of the stream. -/
theorem absorb_intact (chunks : List (List Char)) : ∀ x : List Char, ¬EndsInside x →
    removeCsi (removeCsi (x ++ chunks.flatten)) = removeCsi (x ++ chunks.flatten) → Intact (removeCsi x) chunks →
    absorb (removeCsi x) chunks = removeCsi (x ++ chunks.flatten) := by
  induction chunks with
  | nil =>
    intro x _ _ _
    rw [List.flatten_nil, List.append_nil]
    rfl
  | cons c cs ih =>
    intro x hx hformed hintact
    obtain ⟨hin, hintact⟩ := intact_cons.mp hintact
    have heq := (stripCsi_whole x (c :: cs).flatten hx).resolve_right fun h => h.2 hformed
    rw [List.flatten_cons, ← List.append_assoc] at heq
    rw [stripCsi_eq_removeCsi hin] at hintact
    rw [List.flatten_cons, ← heq] at hformed ⊢
    rw [show absorb (removeCsi x) (c :: cs) = absorb (stripCsi (removeCsi x ++ c)) cs from rfl,
      stripCsi_eq_removeCsi hin]
    exact ih _ hin hformed hintact

/-- **Stripping depends on read boundaries exactly where a read ends inside of a sequence.** A stream in which removing
sequences forms no new one is read, in any pieces, into an empty buffer that it fits in. The buffer holds the stream
without its known control sequences if and only if at no read the bytes in the buffer end inside of a sequence. -/
theorem ppReads_strip_iff (pp : ProcPipe) (chunks : List (List Char)) (hvalid : pp.Valid) (hempty : pp.nread = 0)
    (hcut : [] ∉ chunks) (hfits : chunks.flatten.length ≤ pp.size)
    (hformed : removeCsi (removeCsi chunks.flatten) = removeCsi chunks.flatten) :
    (ppReads chunks.length pp (chunks.map .data)).2 = [] ∧
      ((ppReads chunks.length pp (chunks.map .data)).1.received = removeCsi chunks.flatten ↔
        ∀ before c after, chunks = before ++ c :: after →
          ¬EndsInside ((ppReads before.length pp (chunks.map .data)).1.received ++ c)) := by
  have hreceived : pp.received = [] := List.eq_nil_of_length_eq_zero (by rw [hvalid.received, hempty])
  have hreads := ppReads_received chunks hcut [] hvalid (by omega)
  rw [List.append_nil, hreceived] at hreads
  have hintact : (∀ before c after, chunks = before ++ c :: after →
      ¬EndsInside ((ppReads before.length pp (chunks.map .data)).1.received ++ c)) ↔ Intact [] chunks := by
    refine forall_congr' fun before => forall_congr' fun c => forall_congr' fun after => forall_congr' fun heq => ?_
    subst heq
    rw [List.mem_append, not_or] at hcut
    rw [List.flatten_append, List.length_append] at hfits
    rw [List.map_append, (ppReads_received before hcut.1 _ hvalid (by omega)).1, hreceived]
  refine ⟨hreads.2, ?_⟩
  rw [hreads.1, hintact]
  constructor
  · intro heq
    by_contra hspoiled
    have hbelow := absorb_spoiled chunks [] hspoiled
    rw [heq, List.nil_append, hformed] at hbelow
    exact hbelow.irrefl
  · intro h
    have heq := absorb_intact chunks [] not_endsInside_nil hformed (by rwa [removeCsi_nil])
    rwa [removeCsi_nil] at heq

/-- A stream in two reads, the first of which ends behind a sequence. -/
def coloured : List (List Char) := ["ls\x1b[1m".toList, "bsd\x1b[0m".toList]

theorem ppReads_strip_coloured : (ppReads 2 ppCreate (coloured.map .data)).1.received = "lsbsd".toList ∧
    ∀ before c after, coloured = before ++ c :: after →
      ¬EndsInside ((ppReads before.length ppCreate (coloured.map .data)).1.received ++ c) := by
  have hiff := (ppReads_strip_iff ppCreate coloured ppCreate_valid rfl (by decide) (by decide +kernel)
    (by decide +kernel)).2
  have hreceived : (ppReads 2 ppCreate (coloured.map .data)).1.received = "lsbsd".toList := by decide +kernel
  exact ⟨hreceived, hiff.mp (hreceived.trans (by decide +kernel))⟩

/-- The first read ends inside of the sequence `ESC [ m`, and the second one brings its end. -/
theorem ppReads_strip_split :
    removeCsi "\x1b[mX".toList = "X".toList ∧ removeCsi "X".toList = "X".toList ∧ ¬EndsInside "\x1b[mX".toList ∧
      (ppReads 1 ppCreate [.data "\x1b[mX".toList]).1.received = "X".toList ∧
      (ppReads 2 ppCreate [.data "\x1b[".toList, .data "mX".toList]).1.received = "mX".toList := by
  decide +kernel

end Bmd
