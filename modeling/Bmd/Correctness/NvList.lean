import Bmd.Conf.NvList
import Mathlib.Data.List.Forall2
import Mathlib.Data.List.Perm.Basic

/-!
# `Correctness.NvList` — `compare_nvlist` decides equality

Two nvlists are the same when they have the same elements, in any order; nested lists are compared in the same
way, arrays element by element. Names are unique in a list, so an element that is found by its name and type is
the only candidate, and the two passes of `compare_nvlist` see all there is to see.
-/

namespace Bmd

variable {α : Type} {bs : List α} {R : α → α → Prop}

/-! ## C strings and the scalar comparators -/

/-- What a `char *` can hold: no character is the terminator. -/
def CString (s : String) : Prop := ∀ c ∈ s.toList, c ≠ '\x00'

instance (s : String) : Decidable (CString s) := inferInstanceAs (Decidable (∀ c ∈ s.toList, c ≠ '\x00'))

theorem toNat_eq_zero {c : Char} : c.toNat = 0 ↔ c = '\x00' := by
  constructor
  · intro h
    rw [← Char.ofNat_toNat c, h]
  · rintro rfl
    rfl

theorem strcmpL_eq_zero : ∀ {as bs : List Char}, (∀ c ∈ as, c ≠ '\x00') → (∀ c ∈ bs, c ≠ '\x00') →
    (strcmpL as bs = 0 ↔ as = bs)
  | [], [], _, _ => by simp [strcmpL]
  | [], b :: _, _, hb => by
    have h := hb b List.mem_cons_self
    rw [Ne, ← toNat_eq_zero] at h
    simp only [strcmpL, reduceCtorEq, iff_false]
    omega
  | a :: _, [], ha, _ => by
    have h := ha a List.mem_cons_self
    rw [Ne, ← toNat_eq_zero] at h
    simp only [strcmpL, reduceCtorEq, iff_false]
    omega
  | a :: as, b :: bs, ha, hb => by
    have ih := strcmpL_eq_zero (fun c hc => ha c (List.mem_cons_of_mem _ hc))
      (fun c hc => hb c (List.mem_cons_of_mem _ hc))
    unfold strcmpL
    split
    · next hab => rw [ih, hab, List.cons_inj_right]
    · next hab =>
      refine iff_of_false (fun h => hab ?_) fun h => hab (List.cons.inj h).1
      have hn : a.toNat = b.toNat := by omega
      rw [← Char.ofNat_toNat a, hn, Char.ofNat_toNat]

theorem strcmp_eq_zero {a b : String} (ha : CString a) (hb : CString b) : strcmp a b = 0 ↔ a = b := by
  rw [strcmp, strcmpL_eq_zero ha hb, String.toList_inj]

theorem strcmpL_self : ∀ l : List Char, strcmpL l l = 0
  | [] => rfl
  | c :: l => by
    unfold strcmpL
    rw [if_pos rfl]
    exact strcmpL_self l

@[simp] theorem strcmp_self (s : String) : strcmp s s = 0 := strcmpL_self _

@[simp] theorem cmp_eq_zero {a b : Int} : cmp a b = 0 ↔ a = b := by
  unfold cmp
  rcases Int.lt_trichotomy a b with h | h | h
  · rw [if_pos h]
    omega
  · rw [if_neg (by omega), if_pos h]
    omega
  · rw [if_neg (by omega), if_neg (by omega)]
    omega

/-- An array comparator is zero when the elements are pairwise equal for its element comparator. -/
theorem cmpArray_eq_zero {c : α → α → Int} {R : α → α → Prop} : ∀ {as bs : List α},
    (∀ a ∈ as, ∀ b ∈ bs, (c a b = 0 ↔ R a b)) → (cmpArray c as bs = 0 ↔ List.Forall₂ R as bs)
  | [], [], _ => by simp [cmpArray]
  | [], _ :: _, _ => by simp [cmpArray]
  | _ :: _, [], _ => by simp [cmpArray]
  | a :: as, b :: bs, h => by
    have hab := h a List.mem_cons_self b List.mem_cons_self
    have ih : cmpArray c as bs = 0 ↔ List.Forall₂ R as bs :=
      cmpArray_eq_zero fun x hx y hy => h x (List.mem_cons_of_mem _ hx) y (List.mem_cons_of_mem _ hy)
    rw [List.forall₂_cons, ← hab, ← ih, cmpArray]
    by_cases hc : c a b = 0
    · rw [if_neg (not_not.mpr hc)]
      exact (and_iff_right hc).symm
    · rw [if_pos hc]
      exact iff_of_false hc fun h => hc h.1

/-- The element comparator decides equality. -/
theorem cmpArray_eq_zero_of_eq {c : α → α → Int} {as : List α}
    (h : ∀ a ∈ as, ∀ b ∈ bs, (c a b = 0 ↔ a = b)) : cmpArray c as bs = 0 ↔ as = bs := by
  rw [cmpArray_eq_zero h, List.forall₂_eq_eq_eq]

/-! ## Elements -/

namespace NvList

/-- The elements with their names. -/
def elems : NvList → List (String × NvValue)
  | .nil => []
  | .cons k v rest => (k, v) :: rest.elems

theorem names_eq : ∀ l : NvList, l.names = l.elems.map (·.1)
  | .nil => rfl
  | .cons k v rest => by rw [names, elems, List.map_cons, names_eq rest]

theorem mem_of_find? {k : String} {t : NvType} {w : NvValue} : ∀ {l : NvList}, l.find? k t = some w →
    (k, w) ∈ l.elems ∧ w.type = t
  | .cons name v rest, h => by
    unfold find? at h
    split at h
    · next hc =>
      cases h
      exact ⟨by rw [elems, hc.1]; exact List.mem_cons_self, hc.2⟩
    · exact ⟨List.mem_cons_of_mem _ (mem_of_find? h).1, (mem_of_find? h).2⟩

theorem exists_find? {k : String} {w : NvValue} : ∀ {l : NvList}, (k, w) ∈ l.elems →
    ∃ v, l.find? k w.type = some v
  | .cons name v rest, h => by
    unfold find?
    split
    · exact ⟨v, rfl⟩
    · next hc =>
      rcases List.mem_cons.mp h with heq | hmem
      · cases heq
        exact (hc ⟨rfl, rfl⟩).elim
      · exact exists_find? hmem

end NvList

/-- The nvlists of an array. -/
def NvLists.toList : NvLists → List NvList
  | .nil => []
  | .cons l rest => l :: rest.toList

/-! ## Well-formed lists -/

mutual

/-- The strings are C strings, and nested lists are well formed. -/
def NvValue.Wf : NvValue → Prop
  | .string s => CString s
  | .stringArray ss => ∀ s ∈ ss, CString s
  | .nvlist l => l.Wf
  | .nvlistArray ls => ls.Wf
  | _ => True

/-- Names are unique. -/
def NvList.Wf : NvList → Prop
  | .nil => True
  | .cons k v rest => k ∉ rest.names ∧ v.Wf ∧ rest.Wf

def NvLists.Wf : NvLists → Prop
  | .nil => True
  | .cons l rest => l.Wf ∧ rest.Wf

end

namespace NvList

variable {k : String} {v w : NvValue}

/-- A name has one value. -/
theorem Wf.unique : ∀ {l : NvList}, l.Wf → (k, v) ∈ l.elems → (k, w) ∈ l.elems → v = w
  | .cons name x rest, h, hv, hw => by
    obtain ⟨hname, -, hrest⟩ := h
    rw [names_eq] at hname
    rcases List.mem_cons.mp hv with hev | hmv <;> rcases List.mem_cons.mp hw with hew | hmw
    · rw [Prod.mk.injEq] at hev hew
      rw [hev.2, hew.2]
    · cases hev
      exact (hname (List.mem_map_of_mem (f := (·.1)) hmw)).elim
    · cases hew
      exact (hname (List.mem_map_of_mem (f := (·.1)) hmv)).elim
    · exact hrest.unique hmv hmw

theorem Wf.value : ∀ {l : NvList}, l.Wf → (k, v) ∈ l.elems → v.Wf
  | .cons name x rest, h, hv => by
    rcases List.mem_cons.mp hv with hv | hv
    · cases hv
      exact h.2.1
    · exact h.2.2.value hv

end NvList

/-! ## Equality -/

mutual

/-- Equality of values: nested lists are compared as sets of elements. -/
def NvValue.Same : NvValue → NvValue → Prop
  | .null, .null => True
  | .bool a, .bool b => a = b
  | .number a, .number b => a = b
  | .string a, .string b => a = b
  | .nvlist a, .nvlist b => a.Sub b ∧ ∀ e ∈ b.elems, a.Gives e.1 e.2
  | .descriptor a, .descriptor b => a = b
  | .binary a, .binary b => a = b
  | .boolArray a, .boolArray b => a = b
  | .numberArray a, .numberArray b => a = b
  | .stringArray a, .stringArray b => a = b
  | .nvlistArray a, .nvlistArray b => a.Same b
  | .descriptorArray a, .descriptorArray b => a = b
  | _, _ => False

/-- Every element of the first list is one of the second. -/
def NvList.Sub : NvList → NvList → Prop
  | .nil, _ => True
  | .cons k v rest, b => (∃ w, (k, w) ∈ b.elems ∧ v.Same w) ∧ rest.Sub b

/-- The list has an element of that name and value. -/
def NvList.Gives : NvList → String → NvValue → Prop
  | .nil, _, _ => False
  | .cons k v rest, name, w => (k = name ∧ v.Same w) ∨ rest.Gives name w

/-- Equality of arrays of lists: the same length, and each list like its counterpart. -/
def NvLists.Same : NvLists → NvLists → Prop
  | .nil, .nil => True
  | .cons a as, .cons b bs => (a.Sub b ∧ ∀ e ∈ b.elems, a.Gives e.1 e.2) ∧ as.Same bs
  | _, _ => False

end

/-- **Equality of nvlists**: the same set of elements. -/
def NvList.Same (a b : NvList) : Prop := a.Sub b ∧ ∀ e ∈ b.elems, a.Gives e.1 e.2

/-! ### In terms of elements -/

namespace NvList

variable {a b : NvList} {k : String} {w : NvValue}

theorem sub_iff : ∀ {a : NvList}, a.Sub b ↔ ∀ e ∈ a.elems, ∃ w, (e.1, w) ∈ b.elems ∧ e.2.Same w
  | .nil => by simp [Sub, elems]
  | .cons k v rest => by
    rw [Sub, sub_iff, elems, List.forall_mem_cons]

theorem gives_iff : ∀ {a : NvList}, a.Gives k w ↔ ∃ v, (k, v) ∈ a.elems ∧ v.Same w
  | .nil => by simp [Gives, elems]
  | .cons name v rest => by
    rw [Gives, gives_iff, elems]
    constructor
    · rintro (⟨rfl, h⟩ | ⟨x, hx, h⟩)
      · exact ⟨v, List.mem_cons_self, h⟩
      · exact ⟨x, List.mem_cons_of_mem _ hx, h⟩
    · rintro ⟨x, hx, h⟩
      rcases List.mem_cons.mp hx with heq | hmem
      · cases heq
        exact .inl ⟨rfl, h⟩
      · exact .inr ⟨x, hmem, h⟩

theorem same_iff : a.Same b ↔ (∀ e ∈ a.elems, ∃ w, (e.1, w) ∈ b.elems ∧ e.2.Same w) ∧
    ∀ e ∈ b.elems, ∃ v, (e.1, v) ∈ a.elems ∧ v.Same e.2 := by
  rw [Same, sub_iff]
  exact and_congr_right fun _ => forall₂_congr fun _ _ => gives_iff

end NvList

theorem NvLists.same_iff : ∀ {a b : NvLists}, a.Same b ↔ List.Forall₂ NvList.Same a.toList b.toList
  | .nil, .nil => by simp [NvLists.Same, toList]
  | .nil, .cons _ _ => by simp [NvLists.Same, toList]
  | .cons _ _, .nil => by simp [NvLists.Same, toList]
  | .cons a as, .cons b bs => by
    rw [NvLists.Same, NvLists.same_iff, toList, toList, List.forall₂_cons]
    exact Iff.rfl

/-- Values of one type. -/
theorem NvValue.Same.type {v w : NvValue} (h : v.Same w) : v.type = w.type := by
  unfold NvValue.Same at h
  split at h <;> first | rfl | exact h.elim

/-! ## The comparators -/

/-- The second loop: every element of `b` has a namesake of its type in `a`. -/
theorem compareNvlistSecond_eq_zero {a : NvList} : ∀ {b : NvList},
    compareNvlistSecond a b = 0 ↔ ∀ e ∈ b.elems, a.existsType e.1 e.2.type = true
  | .nil => by simp [compareNvlistSecond, NvList.elems]
  | .cons k v rest => by
    rw [compareNvlistSecond, NvList.elems, List.forall_mem_cons, ← compareNvlistSecond_eq_zero]
    split <;> simp_all

/-- If the first loop finds nothing, the second one looks for elements of `b` that `a` does not have. -/
theorem second_iff_gives {a b : NvList} (hb : b.Wf) (hsub : a.Sub b) :
    compareNvlistSecond a b = 0 ↔ ∀ e ∈ b.elems, a.Gives e.1 e.2 := by
  rw [compareNvlistSecond_eq_zero]
  refine forall₂_congr fun e he => ?_
  rw [NvList.gives_iff, NvList.existsType, Option.isSome_iff_exists]
  constructor
  · rintro ⟨v, hv⟩
    have hmem := (NvList.mem_of_find? hv).1
    obtain ⟨w, hw, hs⟩ := NvList.sub_iff.mp hsub _ hmem
    exact ⟨v, hmem, hb.unique hw he ▸ hs⟩
  · rintro ⟨v, hv, hs⟩
    rw [← hs.type]
    exact NvList.exists_find? hv

/-- The two loops together, given what the first one does. -/
theorem loops_eq_zero {a b : NvList} (hb : b.Wf) (h : compareNvlistFirst a b = 0 ↔ a.Sub b) :
    (if compareNvlistFirst a b ≠ 0 then compareNvlistFirst a b else compareNvlistSecond a b) = 0 ↔
      a.Sub b ∧ ∀ e ∈ b.elems, a.Gives e.1 e.2 := by
  by_cases hz : compareNvlistFirst a b = 0
  · rw [if_neg (not_not.mpr hz), second_iff_gives hb (h.mp hz)]
    exact (and_iff_right (h.mp hz)).symm
  · rw [if_pos hz]
    exact iff_of_false hz fun hs => hz (h.mpr hs.1)

mutual

theorem compareNvValue_eq_zero : ∀ {v w : NvValue}, v.Wf → w.Wf → v.type = w.type →
    (compareNvValue v w = 0 ↔ v.Same w)
  | .null, .null, _, _, _ => by simp [compareNvValue, NvValue.Same]
  | .bool a, .bool b, _, _, _ => by cases a <;> cases b <;> simp [compareNvValue, NvValue.Same]
  | .number a, .number b, _, _, _ => by
    rw [compareNvValue, cmp_eq_zero, NvValue.Same]
    omega
  | .string a, .string b, ha, hb, _ => by
    rw [compareNvValue, NvValue.Same]
    exact strcmp_eq_zero ha hb
  | .nvlist a, .nvlist b, ha, hb, _ => by
    rw [compareNvValue, NvValue.Same]
    exact loops_eq_zero hb (compareNvlistFirst_eq_zero ha hb)
  | .descriptor a, .descriptor b, _, _, _ => by rw [compareNvValue, cmp_eq_zero, NvValue.Same]
  | .binary a, .binary b, _, _, _ => by
    rw [compareNvValue, NvValue.Same]
    refine cmpArray_eq_zero_of_eq fun x _ y _ => ?_
    rw [← UInt8.toNat_inj]
    omega
  | .boolArray a, .boolArray b, _, _, _ => by
    rw [compareNvValue, NvValue.Same]
    exact cmpArray_eq_zero_of_eq fun x _ y _ => by cases x <;> cases y <;> simp
  | .numberArray a, .numberArray b, _, _, _ => by
    rw [compareNvValue, NvValue.Same]
    exact cmpArray_eq_zero_of_eq fun x _ y _ => by rw [cmp_eq_zero]; omega
  | .stringArray a, .stringArray b, ha, hb, _ => by
    rw [compareNvValue, NvValue.Same]
    exact cmpArray_eq_zero_of_eq fun x hx y hy => strcmp_eq_zero (ha x hx) (hb y hy)
  | .nvlistArray a, .nvlistArray b, ha, hb, _ => by
    rw [compareNvValue, NvValue.Same]
    exact compareNvlistArray_eq_zero ha hb
  | .descriptorArray a, .descriptorArray b, _, _, _ => by
    rw [compareNvValue, NvValue.Same]
    exact cmpArray_eq_zero_of_eq fun x _ y _ => cmp_eq_zero

/-- The first loop: every element of `a` is found in `b`, with an equal value. -/
theorem compareNvlistFirst_eq_zero : ∀ {a b : NvList}, a.Wf → b.Wf → (compareNvlistFirst a b = 0 ↔ a.Sub b)
  | .nil, b, _, _ => by simp [compareNvlistFirst, NvList.Sub]
  | .cons k v rest, b, ha, hb => by
    have ih := compareNvlistFirst_eq_zero ha.2.2 hb
    rw [compareNvlistFirst, NvList.Sub]
    cases hf : b.find? k v.type with
    | none =>
      refine iff_of_false (by simp) ?_
      rintro ⟨⟨w, hw, hs⟩, -⟩
      obtain ⟨x, hx⟩ := NvList.exists_find? hw
      rw [← hs.type, hf] at hx
      cases hx
    | some w =>
      obtain ⟨hw, ht⟩ := NvList.mem_of_find? hf
      have hv := compareNvValue_eq_zero ha.2.1 (hb.value hw) ht.symm
      have huniq : (∃ x, (k, x) ∈ b.elems ∧ v.Same x) ↔ v.Same w :=
        ⟨fun ⟨x, hx, hs⟩ => hb.unique hx hw ▸ hs, fun hs => ⟨w, hw, hs⟩⟩
      rw [huniq, ← hv, ← ih]
      by_cases hz : compareNvValue v w = 0
      · simp [hz]
      · simp [hz]

theorem compareNvlistArray_eq_zero : ∀ {a b : NvLists}, a.Wf → b.Wf → (compareNvlistArray a b = 0 ↔ a.Same b)
  | .nil, .nil, _, _ => by simp [compareNvlistArray, NvLists.Same]
  | .nil, .cons _ _, _, _ => by simp [compareNvlistArray, NvLists.Same]
  | .cons _ _, .nil, _, _ => by simp [compareNvlistArray, NvLists.Same]
  | .cons a as, .cons b bs, ha, hb => by
    have hhead := loops_eq_zero hb.1 (compareNvlistFirst_eq_zero ha.1 hb.1)
    have ih := compareNvlistArray_eq_zero ha.2 hb.2
    rw [compareNvlistArray, NvLists.Same, ← hhead, ← ih]
    split_ifs <;> simp_all

end

/-- `compare_nvlist` is zero on equal lists only. -/
theorem compareNvlist_eq_zero {a b : NvList} (ha : a.Wf) (hb : b.Wf) : compareNvlist a b = 0 ↔ a.Same b :=
  loops_eq_zero hb (compareNvlistFirst_eq_zero ha hb)

/-! ## An equivalence that does not see the order -/

/-- The values inside the lists that a value holds. -/
def NvValue.parts : NvValue → List NvValue
  | .nvlist l => l.elems.map (·.2)
  | .nvlistArray ls => ls.toList.flatMap fun l => l.elems.map (·.2)
  | _ => []

mutual

variable {P : NvValue → Prop}

/-- Induction over the nesting of lists. -/
theorem NvValue.nested_induction (h : ∀ v, (∀ w ∈ v.parts, P w) → P v) : ∀ v, P v
  | .nvlist l => h _ fun w hw => by
    obtain ⟨e, he, rfl⟩ := List.mem_map.mp hw
    exact nvList_nested h l e he
  | .nvlistArray ls => h _ fun w hw => by
    obtain ⟨l, hl, hw⟩ := List.mem_flatMap.mp hw
    obtain ⟨e, he, rfl⟩ := List.mem_map.mp hw
    exact nvLists_nested h ls l hl e he
  | .null => h _ nofun
  | .bool _ => h _ nofun
  | .number _ => h _ nofun
  | .string _ => h _ nofun
  | .descriptor _ => h _ nofun
  | .binary _ => h _ nofun
  | .boolArray _ => h _ nofun
  | .numberArray _ => h _ nofun
  | .stringArray _ => h _ nofun
  | .descriptorArray _ => h _ nofun

theorem nvList_nested (h : ∀ v, (∀ w ∈ v.parts, P w) → P v) :
    ∀ (l : NvList), ∀ e ∈ l.elems, P e.2
  | .cons k v rest, e, he => by
    rcases List.mem_cons.mp he with heq | hmem
    · rw [heq]
      exact NvValue.nested_induction h v
    · exact nvList_nested h rest e hmem

theorem nvLists_nested (h : ∀ v, (∀ w ∈ v.parts, P w) → P v) :
    ∀ (ls : NvLists), ∀ l ∈ ls.toList, ∀ e ∈ l.elems, P e.2
  | .cons l rest, x, hx, e, he => by
    rcases List.mem_cons.mp hx with heq | hmem
    · rw [heq] at he
      exact nvList_nested h l e he
    · exact nvLists_nested h rest x hmem e he

end

theorem forall₂_reverse {S : α → α → Prop} {as : List α} (h : List.Forall₂ R as bs)
    (hs : ∀ a ∈ as, ∀ b, R a b → S b a) : List.Forall₂ S bs as := by
  induction h with
  | nil => exact .nil
  | cons hab _ ih =>
    exact .cons (hs _ List.mem_cons_self _ hab) (ih fun a ha => hs a (List.mem_cons_of_mem _ ha))

theorem forall₂_chain {as cs : List α} (h : List.Forall₂ R as bs)
    (h' : List.Forall₂ R bs cs) (ht : ∀ a ∈ as, ∀ b c, R a b → R b c → R a c) : List.Forall₂ R as cs := by
  induction h generalizing cs with
  | nil => exact h'
  | cons hab _ ih =>
    cases h' with
    | cons hbc hrest =>
      exact .cons (ht _ List.mem_cons_self _ _ hab hbc) (ih hrest fun a ha => ht a (List.mem_cons_of_mem _ ha))

section Equivalence

variable {a b c : NvList} {u v w : NvValue} {e : String × NvValue}

theorem same_nvlist : (NvValue.nvlist a).Same (.nvlist b) ↔ a.Same b := by
  rw [NvValue.Same]
  exact Iff.rfl

theorem same_nvlistArray {as bs : NvLists} :
    (NvValue.nvlistArray as).Same (.nvlistArray bs) ↔ List.Forall₂ NvList.Same as.toList bs.toList := by
  rw [NvValue.Same, NvLists.same_iff]

/-- Only lists are compared in another way than by `=`. -/
theorem NvValue.Same.cases (h : v.Same w) : v = w ∨ (∃ a b, v = .nvlist a ∧ w = .nvlist b ∧ a.Same b) ∨
    ∃ as bs, v = .nvlistArray as ∧ w = .nvlistArray bs ∧ List.Forall₂ NvList.Same as.toList bs.toList := by
  cases v with
  | nvlist a =>
    cases w with
    | nvlist b => exact .inr (.inl ⟨a, b, rfl, rfl, same_nvlist.mp h⟩)
    | _ => simp [NvValue.Same] at h
  | nvlistArray as =>
    cases w with
    | nvlistArray bs => exact .inr (.inr ⟨as, bs, rfl, rfl, same_nvlistArray.mp h⟩)
    | _ => simp [NvValue.Same] at h
  | _ =>
    unfold NvValue.Same at h
    split at h <;> simp_all

theorem mem_parts_nvlist (he : e ∈ a.elems) : e.2 ∈ (NvValue.nvlist a).parts :=
  List.mem_map_of_mem he

theorem mem_parts_nvlistArray {as : NvLists} (ha : a ∈ as.toList) (he : e ∈ a.elems) :
    e.2 ∈ (NvValue.nvlistArray as).parts := List.mem_flatMap.mpr ⟨a, ha, List.mem_map_of_mem he⟩

namespace NvList

theorem same_self (h : ∀ e ∈ a.elems, e.2.Same e.2) : a.Same a :=
  same_iff.mpr ⟨fun e he => ⟨e.2, he, h e he⟩, fun e he => ⟨e.2, he, h e he⟩⟩

theorem Same.reverse (h : ∀ e ∈ a.elems, ∀ w, e.2.Same w → w.Same e.2) (hs : a.Same b) : b.Same a := by
  obtain ⟨hab, hba⟩ := same_iff.mp hs
  refine same_iff.mpr ⟨fun e he => ?_, fun e he => ?_⟩
  · obtain ⟨v, hv, hsv⟩ := hba e he
    exact ⟨v, hv, h _ hv _ hsv⟩
  · obtain ⟨w, hw, hsw⟩ := hab e he
    exact ⟨w, hw, h _ he _ hsw⟩

theorem Same.chain (h : ∀ e ∈ a.elems, ∀ w x, e.2.Same w → w.Same x → e.2.Same x) (hs : a.Same b)
    (hs' : b.Same c) : a.Same c := by
  obtain ⟨hab, hba⟩ := same_iff.mp hs
  obtain ⟨hbc, hcb⟩ := same_iff.mp hs'
  refine same_iff.mpr ⟨fun e he => ?_, fun e he => ?_⟩
  · obtain ⟨w, hw, hsw⟩ := hab e he
    obtain ⟨x, hx, hsx⟩ := hbc _ hw
    exact ⟨x, hx, h e he _ _ hsw hsx⟩
  · obtain ⟨w, hw, hsw⟩ := hcb e he
    obtain ⟨v, hv, hsv⟩ := hba _ hw
    exact ⟨v, hv, h _ hv _ _ hsv hsw⟩

end NvList

namespace NvValue.Same

theorem refl (v : NvValue) : v.Same v := by
  induction v using NvValue.nested_induction with
  | h v ih =>
    cases v with
    | nvlist a => exact same_nvlist.mpr (NvList.same_self fun e he => ih _ (mem_parts_nvlist he))
    | nvlistArray as =>
      refine same_nvlistArray.mpr (List.forall₂_same.mpr fun a ha => ?_)
      exact NvList.same_self fun e he => ih _ (mem_parts_nvlistArray ha he)
    | _ => simp [NvValue.Same]

theorem symm (h : v.Same w) : w.Same v := by
  induction v using NvValue.nested_induction generalizing w with
  | h v ih =>
    rcases h.cases with rfl | ⟨a, b, rfl, rfl, hs⟩ | ⟨as, bs, rfl, rfl, hs⟩
    · exact h
    · exact same_nvlist.mpr (hs.reverse fun e he w => ih _ (mem_parts_nvlist he))
    · refine same_nvlistArray.mpr (forall₂_reverse hs fun a ha b hab => ?_)
      exact hab.reverse fun e he w => ih _ (mem_parts_nvlistArray ha he)

theorem trans (h : u.Same v) (h' : v.Same w) : u.Same w := by
  induction u using NvValue.nested_induction generalizing v w with
  | h u ih =>
    rcases h.cases with rfl | ⟨a, b, rfl, rfl, hs⟩ | ⟨as, bs, rfl, rfl, hs⟩
    · exact h'
    · rcases h'.cases with rfl | ⟨b', c, heq, rfl, hs'⟩ | ⟨_, _, heq, -⟩
      · exact h
      · cases heq
        exact same_nvlist.mpr (hs.chain (fun e he w x => ih _ (mem_parts_nvlist he)) hs')
      · cases heq
    · rcases h'.cases with rfl | ⟨_, _, heq, -⟩ | ⟨bs', cs, heq, rfl, hs'⟩
      · exact h
      · cases heq
      · cases heq
        refine same_nvlistArray.mpr (forall₂_chain hs hs' fun a ha b c hab hbc => ?_)
        exact hab.chain (fun e he w x => ih _ (mem_parts_nvlistArray ha he)) hbc

end NvValue.Same

namespace NvList

theorem Same.symm (h : a.Same b) : b.Same a := h.reverse fun _ _ _ => NvValue.Same.symm

theorem Same.trans (h : a.Same b) (h' : b.Same c) : a.Same c := h.chain (fun _ _ _ _ => NvValue.Same.trans) h'

/-- The order of insertion is no part of a list. -/
theorem Same.of_perm (h : a.elems.Perm b.elems) : a.Same b :=
  same_iff.mpr ⟨fun e he => ⟨e.2, h.subset he, .refl _⟩, fun e he => ⟨e.2, h.symm.subset he, .refl _⟩⟩

theorem wf_iff : ∀ {a : NvList}, a.Wf ↔ (a.elems.map (·.1)).Nodup ∧ ∀ e ∈ a.elems, e.2.Wf
  | .nil => by simp [Wf, elems]
  | .cons k v rest => by
    rw [Wf, wf_iff, names_eq, elems, List.map_cons, List.nodup_cons, List.forall_mem_cons]
    tauto

theorem Wf.of_perm (h : a.Wf) (hp : b.elems.Perm a.elems) : b.Wf := by
  obtain ⟨hnd, hval⟩ := wf_iff.mp h
  exact wf_iff.mpr ⟨(hp.map _).nodup_iff.mpr hnd, fun e he => hval e (hp.subset he)⟩

end NvList

end Equivalence

/-- **`compare_nvlist` decides equality.** The zero result is symmetric, transitive and independent of the order
    of insertion. -/
theorem compareNvlist_decides {a b : NvList} (ha : a.Wf) (hb : b.Wf) :
    (compareNvlist a b = 0 ↔ a.Same b) ∧ (compareNvlist a b = 0 ↔ compareNvlist b a = 0) ∧
      (∀ c : NvList, c.Wf → compareNvlist a b = 0 → compareNvlist b c = 0 → compareNvlist a c = 0) ∧
      ∀ a' b' : NvList, a'.elems.Perm a.elems → b'.elems.Perm b.elems →
        (compareNvlist a' b' = 0 ↔ compareNvlist a b = 0) := by
  have hab := compareNvlist_eq_zero ha hb
  refine ⟨hab, ?_, ?_, ?_⟩
  · rw [hab, compareNvlist_eq_zero hb ha]
    exact ⟨.symm, .symm⟩
  · intro c hc h h'
    rw [compareNvlist_eq_zero ha hc]
    exact (hab.mp h).trans ((compareNvlist_eq_zero hb hc).mp h')
  · intro a' b' hpa hpb
    rw [hab, compareNvlist_eq_zero (ha.of_perm hpa) (hb.of_perm hpb)]
    have hsa := NvList.Same.of_perm hpa
    have hsb := NvList.Same.of_perm hpb
    exact ⟨fun h => (hsa.symm.trans h).trans hsb, fun h => (hsa.trans h).trans hsb.symm⟩

/-- Two lists that were filled in a different order, one of them nested in the other. -/
theorem compareNvlist_decides_nested :
    compareNvlist (.cons "n" (.number 1) (.cons "l" (.nvlist (.cons "s" (.string "x") .nil)) .nil))
      (.cons "l" (.nvlist (.cons "s" (.string "x") .nil)) (.cons "n" (.number 1) .nil)) = 0 := by
  have hw : (NvList.cons "n" (.number 1) (.cons "l" (.nvlist (.cons "s" (.string "x") .nil)) .nil)).Wf := by
    simp [NvList.Wf, NvValue.Wf, NvList.names, CString]
  obtain ⟨hself, -, -, horder⟩ := compareNvlist_decides hw hw
  have hswap : (NvList.cons "l" (.nvlist (.cons "s" (.string "x") .nil)) (.cons "n" (.number 1) .nil)).elems.Perm
      (NvList.cons "n" (.number 1) (.cons "l" (.nvlist (.cons "s" (.string "x") .nil)) .nil)).elems :=
    List.Perm.swap ..
  exact (horder _ _ (.refl _) hswap).mpr (hself.mpr (.of_perm (.refl _)))

end Bmd
