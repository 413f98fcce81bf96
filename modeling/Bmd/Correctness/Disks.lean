import Mathlib.Data.Char
import Mathlib.Data.List.Lex
import Bmd.Correctness.NvList
import Bmd.Inspect.Grub
import Bmd.Lib.Compare

/-!
# `Correctness.Disks` — the list of disks

`parse_disks` finds the names in parentheses, splits each at its commas, and sorts the list. `diskOf` says what the
entry of a name should be, in terms of its components; `scanDisks_line` that the scan makes exactly one such entry of
every name. `diskKey` is the order that `compare_disk_info` compares by: a missing component is the greatest one.
-/

namespace Bmd

open Lib

variable {c : Char} {s : List Char} {a : Option (List Char)} {ρ : Type} {name : List Char} {l : List DiskInfo}
  {x y : ρ}

/-! ## A name -/

/-- The letters that a component begins with. -/
def componentName (s : List Char) : List Char := s.takeWhile fun c => !c.isDigit

/-- The value of decimal digits. -/
def decimal (ds : List Char) : Nat := ds.foldl (fun n c => n * 10 + (c.toNat - '0'.toNat)) 0

/-- The decimal number that follows them. -/
def componentIndex (s : List Char) : Nat := decimal ((s.dropWhile fun c => !c.isDigit).takeWhile Char.isDigit)

/-- The entry that a name stands for. -/
def diskOf (name : List Char) : DiskInfo :=
  let components := name.splitOn ','
  { origName := name
    diskName := components[0]?
    partName := components[1]?.map componentName
    sliceName := components[2]?.map componentName
    partIndex := (components[1]?.map componentIndex).getD 0
    sliceIndex := (components[2]?.map componentIndex).getD 0 }

/-- The indices in a name are values of an `int`. -/
def IndicesFit (name : List Char) : Prop :=
  ∀ s, (name.splitOn ',')[1]? = some s ∨ (name.splitOn ',')[2]? = some s → componentIndex s ≤ 2147483647

theorem isDigit_iff : c.isDigit = true ↔ 48 ≤ c.toNat ∧ c.toNat ≤ 57 := by
  simp only [Char.isDigit, Bool.and_eq_true, decide_eq_true_eq, ge_iff_le, UInt32.le_iff_toNat_le]
  rfl

theorem digitVal_of_isDigit (h : c.isDigit = true) : digitVal c = some (c.toNat - '0'.toNat) := by
  unfold digitVal
  exact if_pos ((isDigit_iff.mp h).imp id id)

theorem isDigitOf_ten (c : Char) : isDigitOf 10 c = c.isDigit := by
  rw [Bool.eq_iff_iff, isDigit_iff]
  unfold isDigitOf digitVal
  split
  · next h =>
    have h0 : 48 ≤ c.toNat := h.1
    have h9 : c.toNat ≤ 57 := h.2
    have hzero : '0'.toNat = 48 := rfl
    simp only [Option.any_some, decide_eq_true_eq]
    omega
  · next h =>
    have hno : ¬(48 ≤ c.toNat ∧ c.toNat ≤ 57) := h
    split
    · simp only [Option.any_some, decide_eq_true_eq]
      omega
    · split
      · simp only [Option.any_some, decide_eq_true_eq]
        omega
      · simp only [Option.any_none, Bool.false_eq_true, false_iff]
        exact hno

theorem scanDigits_ten (s : List Char) : ∀ acc : Nat,
    (scanDigits 10 acc s).1 = (s.takeWhile Char.isDigit).foldl (fun n c => n * 10 + (c.toNat - '0'.toNat)) acc := by
  induction s with
  | nil => exact fun _ => rfl
  | cons c s ih =>
    intro acc
    rw [scanDigits, isDigitOf_ten]
    by_cases hc : c.isDigit = true
    · rw [if_pos hc, List.takeWhile_cons_of_pos hc, ih, digitVal_of_isDigit hc]
      rfl
    · rw [if_neg hc, List.takeWhile_cons_of_neg hc]
      rfl

/-- `strtol` of a text that begins with a digit, or is empty. -/
theorem scanInt_ten (hc : c.isDigit = true) :
    ∃ rest, scanInt 10 (c :: s) = some ((decimal ((c :: s).takeWhile Char.isDigit) : Int), rest) := by
  have hrange := isDigit_iff.mp hc
  have hspace : isSpace c = false := by
    simp only [isSpace, Bool.or_eq_false_iff, beq_eq_false_iff_ne, Bool.and_eq_false_iff, decide_eq_false_iff_not]
    constructor
    · rintro rfl
      exact absurd hc (by decide)
    · right
      intro hle
      have h13 : c.toNat ≤ 13 := hle
      omega
  have hsign : scanSign (c :: s) = (false, c :: s) := by
    unfold scanSign
    split
    · next heq =>
      obtain ⟨rfl, -⟩ := List.cons.inj heq
      exact absurd hc (by decide)
    · next heq =>
      obtain ⟨rfl, -⟩ := List.cons.inj heq
      exact absurd hc (by decide)
    · rfl
  have hbase : scanBase 10 (c :: s) = (10, c :: s) := by
    unfold scanBase
    split
    · next heq =>
      rw [if_neg (by simp), heq]
      rfl
    · next heq =>
      rw [heq]
      rfl
    · rfl
  refine ⟨(scanDigits 10 0 (c :: s)).2, ?_⟩
  have hhead : ((c :: s).head?.any (isDigitOf 10)) = true := by
    rw [List.head?_cons, Option.any_some, isDigitOf_ten]
    exact hc
  simp only [scanInt, List.dropWhile_cons_of_neg (Bool.eq_false_iff.mp hspace), hsign, hbase, hhead, if_true,
    Bool.false_eq_true, if_false]
  rw [scanDigits_ten]
  rfl

theorem splitIndex_eq (h : componentIndex s ≤ 2147483647) :
    splitIndex s = (componentName s, (componentIndex s : Int)) := by
  unfold splitIndex componentName componentIndex at *
  cases hdrop : s.dropWhile fun c => !c.isDigit with
  | nil => rfl
  | cons c rest =>
    have hc : c.isDigit = true := by
      have hhead := List.head?_dropWhile_not (fun c => !c.isDigit) s
      rw [hdrop] at hhead
      simpa using hhead
    rw [hdrop] at h
    obtain ⟨rest', hscan⟩ := scanInt_ten (s := rest) hc
    have hlong : inLong (decimal ((c :: rest).takeWhile Char.isDigit) : Int) := by
      unfold inLong longMin longMax
      omega
    rw [strtol, hscan]
    simp only [clamp_of_inLong hlong]
    rw [wrap32_of_range (by omega)]

/-- A text up to a delimiter. -/
theorem takeWhile_ne {a : List Char} (h : c ∉ a) (b : List Char) : (a ++ c :: b).takeWhile (· != c) = a := by
  have hall : ∀ d ∈ a, (d != c) = true := fun d hd => bne_iff_ne.mpr fun heq => h (heq ▸ hd)
  rw [List.takeWhile_append_of_pos hall, List.takeWhile_cons_of_neg (by simp), List.append_nil]

theorem dropWhile_ne {a : List Char} (h : c ∉ a) (b : List Char) : (a ++ c :: b).dropWhile (· != c) = c :: b := by
  have hall : ∀ d ∈ a, (d != c) = true := fun d hd => bne_iff_ne.mpr fun heq => h (heq ▸ hd)
  rw [List.dropWhile_append_of_pos hall, List.dropWhile_cons_of_neg (by simp)]

/-- `strsep` takes off the first component. -/
theorem strsep_splitOn (s : List Char) :
    (∃ token, strsep (some s) = (some token, none) ∧ s.splitOn ',' = [token]) ∨
      ∃ token rest, strsep (some s) = (some token, some rest) ∧ s.splitOn ',' = token :: rest.splitOn ',' := by
  by_cases hmem : ',' ∈ s
  · right
    obtain ⟨a, b, rfl, ha⟩ := List.eq_append_cons_of_mem hmem
    refine ⟨a, b, ?_, List.splitOn_append_cons_self_of_not_mem ha b⟩
    rw [strsep, takeWhile_ne ha, dropWhile_ne ha, if_pos (List.contains_iff_mem.mpr hmem)]
    rfl
  · left
    refine ⟨s, ?_, List.splitOn_eq_singleton hmem⟩
    have hall : s.takeWhile (· != ',') = s :=
      List.takeWhile_eq_self_iff.mpr fun c hc => bne_iff_ne.mpr fun heq => hmem (heq ▸ hc)
    rw [strsep, hall, if_neg fun hc => hmem (List.contains_iff_mem.mp hc)]

/-- The entry that is made of a name is the one it stands for. -/
theorem diskInfo_eq (h : IndicesFit name) : diskInfo name = diskOf name := by
  unfold IndicesFit at h
  unfold diskInfo diskOf
  rcases strsep_splitOn name with ⟨disk, hdisk, hsplit⟩ | ⟨disk, rest, hdisk, hsplit⟩
  · rw [hdisk, hsplit]
    rfl
  rw [hsplit] at h
  rcases strsep_splitOn rest with ⟨part, hpart, hsplit'⟩ | ⟨part, rest', hpart, hsplit'⟩
  · rw [hsplit'] at h
    have hindex := splitIndex_eq (h part (.inl rfl))
    simp only [hdisk, hsplit, hpart, hsplit', Option.map_some, hindex]
    rfl
  rw [hsplit'] at h
  have hindex := splitIndex_eq (h part (.inl rfl))
  rcases strsep_splitOn rest' with ⟨slice, hslice, hsplit''⟩ | ⟨slice, rest'', hslice, hsplit''⟩
  · rw [hsplit''] at h
    have hindex' := splitIndex_eq (h slice (.inr rfl))
    simp only [hdisk, hsplit, hpart, hsplit', hslice, hsplit'', Option.map_some, hindex, hindex']
    rfl
  · rw [hsplit''] at h
    have hindex' := splitIndex_eq (h slice (.inr rfl))
    simp only [hdisk, hsplit, hpart, hsplit', hslice, hsplit'', Option.map_some, hindex, hindex']
    rfl

/-! ## The line -/

/-- A text with no parentheses. -/
def NoParens (s : List Char) : Prop := '(' ∉ s ∧ ')' ∉ s

/-- The names in parentheses, each with what separates it from the next one. -/
def lineOf : List (List Char × List Char) → List Char
  | [] => []
  | (name, sep) :: rest => '(' :: name ++ ')' :: sep ++ lineOf rest

theorem scanDisks_end {e : List Char} (h : '(' ∉ e) (list : List DiskInfo) : scanDisks e list = list := by
  have hnil : e.dropWhile (· != '(') = [] :=
    List.dropWhile_eq_nil_iff.mpr fun d hd => bne_iff_ne.mpr fun heq => h (heq ▸ hd)
  rw [scanDisks]
  split
  · rfl
  · rfl
  · next heq =>
    rw [hnil] at heq
    cases heq

/-- One name is taken off the line. -/
theorem scanDisks_name {lead : List Char} (hlead : '(' ∉ lead) (hname : ')' ∉ name) (rest : List Char)
    (list : List DiskInfo) :
    scanDisks (lead ++ '(' :: name ++ ')' :: rest) list = scanDisks (')' :: rest) (diskInfo name :: list) := by
  have hdrop : (lead ++ '(' :: name ++ ')' :: rest).dropWhile (· != '(') = '(' :: (name ++ ')' :: rest) := by
    rw [List.append_assoc, List.cons_append]
    exact dropWhile_ne hlead _
  rw [scanDisks]
  split
  · next heq =>
    rw [hdrop] at heq
    cases heq
  · next heq =>
    rw [hdrop] at heq
    have hlen := congrArg List.length (List.cons.inj heq).2
    simp at hlen
  · next c e heq =>
    rw [hdrop] at heq
    obtain ⟨-, heq⟩ := List.cons.inj heq
    split
    · next hnil =>
      rw [← heq, dropWhile_ne hname] at hnil
      cases hnil
    · next d e' hclose =>
      rw [← heq, dropWhile_ne hname] at hclose
      rw [← heq, takeWhile_ne hname, hclose]

/-- **Every name gives one entry.** -/
theorem scanDisks_line (items : List (List Char × List Char)) :
    ∀ (lead : List Char) (list : List DiskInfo), '(' ∉ lead → (∀ i ∈ items, ')' ∉ i.1 ∧ '(' ∉ i.2) →
      scanDisks (lead ++ lineOf items) list = (items.map fun i => diskInfo i.1).reverse ++ list := by
  induction items with
  | nil =>
    intro lead list hlead _
    rw [lineOf, List.append_nil]
    exact scanDisks_end hlead list
  | cons i items ih =>
    intro lead list hlead hitems
    obtain ⟨name, sep⟩ := i
    obtain ⟨hname, hsep⟩ := hitems (name, sep) (List.mem_cons_self ..)
    have hline : lead ++ lineOf ((name, sep) :: items) = lead ++ '(' :: name ++ ')' :: (sep ++ lineOf items) := by
      simp [lineOf]
    have hlead' : '(' ∉ ')' :: sep := by
      rw [List.mem_cons, not_or]
      exact ⟨by decide, hsep⟩
    have hrest := ih (')' :: sep) (diskInfo name :: list) hlead' fun j hj => hitems j (List.mem_cons_of_mem _ hj)
    rw [hline, scanDisks_name hlead hname, ← List.cons_append, hrest, List.map_cons, List.reverse_cons,
      List.append_assoc]
    rfl

/-! ## The order -/

theorem signed_strcmpL : ∀ {a b : List Char}, (∀ c ∈ a, c ≠ '\x00') → (∀ c ∈ b, c ≠ '\x00') → Signed (strcmpL a b) a b
  | [], [], _, _ => .refl _
  | [], b :: _, _, hb => by
    have hpos : b.toNat ≠ 0 := fun hzero => hb b List.mem_cons_self (toNat_eq_zero.mp hzero)
    refine ⟨iff_of_true ?_ (List.nil_lt_cons _ _), iff_of_false ?_ (by simp)⟩
    · show -(b.toNat : Int) < 0
      omega
    · show -(b.toNat : Int) ≠ 0
      omega
  | a :: _, [], ha, _ => by
    have hpos : a.toNat ≠ 0 := fun hzero => ha a List.mem_cons_self (toNat_eq_zero.mp hzero)
    refine ⟨iff_of_false ?_ (List.not_lt_nil _), iff_of_false ?_ (by simp)⟩
    · show ¬(a.toNat : Int) < 0
      omega
    · show (a.toNat : Int) ≠ 0
      omega
  | a :: as, b :: bs, ha, hb => by
    have ih := signed_strcmpL (fun c hc => ha c (List.mem_cons_of_mem _ hc))
      fun c hc => hb c (List.mem_cons_of_mem _ hc)
    rw [strcmpL]
    split
    · next hab =>
      subst hab
      exact ⟨by rw [ih.lt, List.cons_lt_cons_iff]; simp, by rw [ih.eq]; simp⟩
    · next hab =>
      have hlt : (a.toNat : Int) - b.toNat < 0 ↔ a < b := by
        have hdef : a < b ↔ a.toNat < b.toNat := Iff.rfl
        rw [hdef]
        omega
      have hne : (a.toNat : Int) - b.toNat ≠ 0 := by
        intro heq
        have hnat : a.toNat = b.toNat := by omega
        exact hab (by rw [← Char.ofNat_toNat a, hnat, Char.ofNat_toNat])
      exact ⟨by rw [hlt, List.cons_lt_cons_iff]; simp [hab], iff_of_false hne (by simp [hab])⟩

/-- A name that may be missing, and what decides between equal ones. -/
def nameKey {ρ : Type} (name : Option (List Char)) (next : ρ) : WithTop (List Char ×ₗ ρ) :=
  match name with
  | none => ⊤
  | some n => ↑(toLex (n, next))

/-- What entries are compared by. -/
def diskKey (d : DiskInfo) :
    WithTop (List Char ×ₗ WithTop (List Char ×ₗ Int ×ₗ WithTop (List Char ×ₗ Int))) :=
  nameKey d.diskName (nameKey d.partName (toLex (d.partIndex, nameKey d.sliceName d.sliceIndex)))

theorem signed_compareNames [LinearOrder ρ] {b : Option (List Char)} {next : Int}
    (ha : ∀ n, a = some n → ∀ c ∈ n, c ≠ '\x00') (hb : ∀ n, b = some n → ∀ c ∈ n, c ≠ '\x00')
    (h : Signed next x y) : Signed (compareNames a b next) (nameKey a x) (nameKey b y) :=
  match a, b, ha, hb with
  | none, none, _, _ => .refl _
  | none, some _, _, _ => .top_coe _
  | some _, none, _, _ => .coe_top _
  | some a, some b, ha, hb => ((signed_strcmpL (ha a rfl) (hb b rfl)).lex h).coe

/-- What the entries of the list have in common: names are strings, and indices were read from digits. -/
structure Entry (d : DiskInfo) : Prop where
  disk : ∀ n, d.diskName = some n → ∀ c ∈ n, c ≠ '\x00'
  part : ∀ n, d.partName = some n → ∀ c ∈ n, c ≠ '\x00'
  slice : ∀ n, d.sliceName = some n → ∀ c ∈ n, c ≠ '\x00'
  partIndex : 0 ≤ d.partIndex ∧ d.partIndex ≤ 2147483647
  sliceIndex : 0 ≤ d.sliceIndex ∧ d.sliceIndex ≤ 2147483647

/-- The difference of two indices is an `int`. -/
theorem signed_index {m n : Int} (hm : 0 ≤ m ∧ m ≤ 2147483647) (hn : 0 ≤ n ∧ n ≤ 2147483647) :
    Signed (wrap32 (m - n)) m n := by
  rw [wrap32_of_range (by omega)]
  exact .sub m n

/-- `compare_disk_info` compares the keys. -/
theorem signed_compareDiskInfo {a b : DiskInfo} (ha : Entry a) (hb : Entry b) :
    Signed (compareDiskInfo a b) (diskKey a) (diskKey b) := by
  apply signed_compareNames ha.disk hb.disk
  apply signed_compareNames ha.part hb.part
  apply (signed_index ha.partIndex hb.partIndex).lex
  exact signed_compareNames ha.slice hb.slice (signed_index ha.sliceIndex hb.sliceIndex)

theorem compareDiskInfo_preorder (h : ∀ d ∈ l, Entry d) : TotalPreorderOn compareDiskInfo l :=
  Signed.preorder fun a ha b hb => signed_compareDiskInfo (h a ha) (h b hb)

/-- An entry that lacks a component comes after those that have it. -/
def MissingLast (l : List DiskInfo) : Prop :=
  ∀ a ∈ l, ∀ b ∈ l, a.diskName = b.diskName →
    (a.partName ≠ none → b.partName = none → compareDiskInfo a b < 0) ∧
      (a.partName = b.partName → a.partIndex = b.partIndex → a.sliceName ≠ none → b.sliceName = none →
        a.partName ≠ none → compareDiskInfo a b < 0)

theorem nameKey_lt [LinearOrder ρ] (ha : a ≠ none) (h : x < y) : nameKey a x < nameKey a y := by
  cases a with
  | none => exact absurd rfl ha
  | some n =>
    apply WithTop.coe_lt_coe.mpr
    rw [Prod.Lex.toLex_lt_toLex]
    exact .inr ⟨rfl, h⟩

theorem nameKey_lt_top [LinearOrder ρ] (ha : a ≠ none) : nameKey a x < ⊤ := by
  cases a with
  | none => exact absurd rfl ha
  | some n => exact WithTop.coe_lt_top _

theorem missingLast (h : ∀ d ∈ l, Entry d ∧ d.diskName ≠ none) : MissingLast l := by
  intro a ha b hb hdisk
  have hsigned := signed_compareDiskInfo (h a ha).1 (h b hb).1
  constructor
  · intro hpart hnone
    rw [hsigned.lt, diskKey, diskKey, ← hdisk, hnone]
    exact nameKey_lt (h a ha).2 (nameKey_lt_top hpart)
  · intro hpart hindex hslice hnone hsome
    rw [hsigned.lt, diskKey, diskKey, ← hdisk, ← hpart, ← hindex, hnone]
    apply nameKey_lt (h a ha).2
    apply nameKey_lt hsome
    rw [Prod.Lex.toLex_lt_toLex]
    exact .inr ⟨rfl, nameKey_lt_top hslice⟩

/-! ## The sorted list -/

theorem mem_of_mem_splitOn {s : List Char} {x : Char} : ∀ {name : List Char}, s ∈ name.splitOn x → ∀ c ∈ s, c ∈ name
  | [], hs, c, hc => by
    rw [List.splitOn_nil, List.mem_singleton] at hs
    subst hs
    exact hc
  | d :: name, hs, c, hc => by
    rw [List.splitOn_cons_eq_if_modifyHead] at hs
    split at hs
    · rcases List.mem_cons.mp hs with rfl | hs
      · cases hc
      · exact List.mem_cons_of_mem _ (mem_of_mem_splitOn hs c hc)
    · cases hsplit : name.splitOn x with
      | nil =>
        rw [hsplit] at hs
        cases hs
      | cons t ts =>
        rw [hsplit] at hs
        have hmem : ∀ u ∈ t :: ts, ∀ c ∈ u, c ∈ name := by
          intro u hu
          rw [← hsplit] at hu
          exact mem_of_mem_splitOn hu
        rcases List.mem_cons.mp hs with rfl | hs
        · rcases List.mem_cons.mp hc with rfl | hc
          · exact List.mem_cons_self ..
          · exact List.mem_cons_of_mem _ (hmem t (List.mem_cons_self ..) c hc)
        · exact List.mem_cons_of_mem _ (hmem s (List.mem_cons_of_mem _ hs) c hc)

theorem diskOf_disk (name : List Char) : (diskOf name).diskName ≠ none := by
  intro hnone
  have hnil : name.splitOn ',' = [] := List.eq_nil_of_length_eq_zero (by
    have hlen := List.getElem?_eq_none_iff.mp hnone
    omega)
  exact List.splitOn_ne_nil ',' name hnil

theorem entry_diskOf (hnul : ∀ c ∈ name, c ≠ '\x00') (hfit : IndicesFit name) : Entry (diskOf name) := by
  have hcomponent : ∀ (i : Nat) (n : List Char), (name.splitOn ',')[i]?.map componentName = some n →
      ∀ c ∈ n, c ≠ '\x00' := by
    intro i n hn c hc
    obtain ⟨s, hs, rfl⟩ := Option.map_eq_some_iff.mp hn
    have hmem : c ∈ s := (List.takeWhile_prefix _).subset hc
    exact hnul c (mem_of_mem_splitOn (List.mem_of_getElem? hs) c hmem)
  have hindex : ∀ i : Nat, (∀ s, (name.splitOn ',')[i]? = some s → componentIndex s ≤ 2147483647) →
      0 ≤ ((((name.splitOn ',')[i]?.map componentIndex).getD 0 : Nat) : Int) ∧
        ((((name.splitOn ',')[i]?.map componentIndex).getD 0 : Nat) : Int) ≤ 2147483647 := by
    intro i hi
    cases hs : (name.splitOn ',')[i]? with
    | none => exact ⟨by simp, by simp⟩
    | some s =>
      have hle := hi s hs
      simp only [Option.map_some, Option.getD_some]
      omega
  exact {
    disk := fun n hn c hc => hnul c (mem_of_mem_splitOn (List.mem_of_getElem? hn) c hc)
    part := hcomponent 1
    slice := hcomponent 2
    partIndex := hindex 1 fun s hs => hfit s (.inl hs)
    sliceIndex := hindex 2 fun s hs => hfit s (.inr hs) }

/-- What is assumed of the sort of the library: it is right for every total preorder. -/
def SortsPreorders (sort : (DiskInfo → DiskInfo → Int) → List DiskInfo → List DiskInfo) : Prop :=
  ∀ cmp l, TotalPreorderOn cmp l → (sort cmp l).Perm l ∧ (sort cmp l).Pairwise fun a b => cmp a b ≤ 0

/-- **The list of disks is complete and sorted.** A line has any text without parentheses before the first name and
behind each one. The list that is made of it has one entry for each name, and it is sorted by `compare_disk_info`,
which is a total preorder of the entries with missing components last. -/
theorem parseDisks_complete (sort : (DiskInfo → DiskInfo → Int) → List DiskInfo → List DiskInfo)
    (hsort : SortsPreorders sort) (lead : List Char) (items : List (List Char × List Char)) (hlead : NoParens lead)
    (hnames : ∀ i ∈ items, NoParens i.1 ∧ (∀ c ∈ i.1, c ≠ '\x00') ∧ IndicesFit i.1)
    (hseps : ∀ i ∈ items, NoParens i.2) :
    (parseDisks sort (lead ++ lineOf items) []).Perm (items.map fun i => diskOf i.1) ∧
      (parseDisks sort (lead ++ lineOf items) []).Pairwise (fun a b => compareDiskInfo a b ≤ 0) ∧
      TotalPreorderOn compareDiskInfo (parseDisks sort (lead ++ lineOf items) []) ∧
      MissingLast (parseDisks sort (lead ++ lineOf items) []) := by
  have hscan : scanDisks (lead ++ lineOf items) [] = (items.map fun i => diskOf i.1).reverse := by
    rw [scanDisks_line items lead [] hlead.1 fun i hi => ⟨(hnames i hi).1.2, (hseps i hi).1⟩, List.append_nil]
    congr 1
    exact List.map_congr_left fun i hi => diskInfo_eq (hnames i hi).2.2
  have hentry : ∀ d ∈ (items.map fun i => diskOf i.1), Entry d ∧ d.diskName ≠ none := by
    intro d hd
    obtain ⟨i, hi, rfl⟩ := List.mem_map.mp hd
    exact ⟨entry_diskOf (hnames i hi).2.1 (hnames i hi).2.2, diskOf_disk i.1⟩
  have hpre : TotalPreorderOn compareDiskInfo (scanDisks (lead ++ lineOf items) []) := by
    rw [hscan]
    exact compareDiskInfo_preorder fun d hd => (hentry d (List.mem_reverse.mp hd)).1
  obtain ⟨hperm, hsorted⟩ := hsort compareDiskInfo _ hpre
  have hwhole : (parseDisks sort (lead ++ lineOf items) []).Perm (items.map fun i => diskOf i.1) := by
    refine hperm.trans ?_
    rw [hscan]
    exact List.reverse_perm _
  have hmem : ∀ d ∈ parseDisks sort (lead ++ lineOf items) [], Entry d ∧ d.diskName ≠ none :=
    fun d hd => hentry d (hwhole.mem_iff.mp hd)
  exact ⟨hwhole, hsorted, compareDiskInfo_preorder fun d hd => (hmem d hd).1, missingLast hmem⟩

/-- A sort that is right for every total preorder. -/
def sortByMerging (cmp : DiskInfo → DiskInfo → Int) (l : List DiskInfo) : List DiskInfo :=
  (l.attach.mergeSort fun a b => decide (cmp a.1 b.1 ≤ 0)).map Subtype.val

theorem sortsPreorders_sortByMerging : SortsPreorders sortByMerging := by
  intro cmp l h
  constructor
  · have hperm := (List.mergeSort_perm l.attach fun a b => decide (cmp a.1 b.1 ≤ 0)).map Subtype.val
    rwa [List.attach_map_subtype_val] at hperm
  · have hsorted : (l.attach.mergeSort fun a b => decide (cmp a.1 b.1 ≤ 0)).Pairwise
        fun a b => decide (cmp a.1 b.1 ≤ 0) = true := by
      apply List.pairwise_mergeSort
      · intro a b c hab hbc
        rw [decide_eq_true_eq] at hab hbc ⊢
        exact h.trans a.1 a.2 b.1 b.2 c.1 c.2 hab hbc
      · intro a b
        have hflip := h.flip b.1 b.2 a.1 a.2
        rw [Bool.or_eq_true, decide_eq_true_eq, decide_eq_true_eq]
        omega
    rw [sortByMerging, List.pairwise_map]
    exact hsorted.imp fun hle => of_decide_eq_true hle

theorem parseDisks_two :
    (parseDisks sortByMerging "(hd0) (hd0,gpt2)".toList []).Perm [diskOf "hd0".toList, diskOf "hd0,gpt2".toList] := by
  have hsplit : "hd0".toList.splitOn ',' = ["hd0".toList] := by decide +kernel
  have hsplit' : "hd0,gpt2".toList.splitOn ',' = ["hd0".toList, "gpt2".toList] := by decide +kernel
  have hfit : IndicesFit "hd0".toList := by
    rw [IndicesFit, hsplit]
    rintro s (hs | hs) <;> cases hs
  have hfit' : IndicesFit "hd0,gpt2".toList := by
    rw [IndicesFit, hsplit']
    rintro s (hs | hs)
    · obtain rfl := Option.some.inj hs
      decide +kernel
    · cases hs
  refine (parseDisks_complete sortByMerging sortsPreorders_sortByMerging []
    [("hd0".toList, " ".toList), ("hd0,gpt2".toList, [])] ⟨by decide, by decide⟩ ?_ ?_).1
  · intro i hi
    rcases List.mem_cons.mp hi with rfl | hi
    · exact ⟨⟨by decide, by decide⟩, by simp, hfit⟩
    · obtain rfl := List.mem_singleton.mp hi
      exact ⟨⟨by decide, by decide⟩, by simp, hfit'⟩
  · intro i hi
    rcases List.mem_cons.mp hi with rfl | hi
    · exact ⟨by decide, by decide⟩
    · obtain rfl := List.mem_singleton.mp hi
      exact ⟨by decide, by decide⟩

end Bmd
