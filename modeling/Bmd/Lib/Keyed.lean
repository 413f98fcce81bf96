import Mathlib.Data.List.Nodup
import Mathlib.Data.List.Perm.Basic

/-!
# `Lib.Keyed` — lists of records that are found by a key

A list of records with an identity `k`: `find?` by key, an update of the records with a given key, and their removal.

`Accounted` is about a pool of tokens that exist and the list of those that someone holds: both are the same, and no
token is held twice. A token is taken when it is new to the pool and returned by the one who holds it.
-/

namespace Bmd.Lib.Keyed

variable {α κ : Type} [BEq κ] [LawfulBEq κ] {k : α → κ} {f : α → α} {l : List α} {β : Type} {i j : κ} {x : α}

omit [LawfulBEq κ] in
/-- Updating all records by a function that keeps the keys. -/
theorem find?_map (hf : ∀ x, k (f x) = k x) (l : List α) (i : κ) :
    (l.map f).find? (k · == i) = (l.find? (k · == i)).map f := by
  rw [List.find?_map]
  congr 2
  funext x
  simp only [Function.comp_apply, hf]

omit [LawfulBEq κ] in
/-- Lists with the same images, from which the keys can be told, give the same image for a key. -/
theorem map_find? {f : α → β} (g : β → κ) (hg : ∀ x, g (f x) = k x) {l' : List α}
    (h : l'.map f = l.map f) (i : κ) : (l'.find? (k · == i)).map f = (l.find? (k · == i)).map f := by
  have key : ∀ l : List α, (l.find? (k · == i)).map f = (l.map f).find? (g · == i) := by
    intro l
    rw [List.find?_map]
    simp only [Function.comp_def, hg]
  rw [key, key, h]

/-- The record found has the key. -/
theorem key_of_find? (h : l.find? (k · == i) = some x) : k x = i := by
  simpa using List.find?_some h

/-- With unique keys, a record is found at its key. -/
theorem find?_of_mem (hnd : (l.map k).Nodup) (hx : x ∈ l) : l.find? (k · == k x) = some x := by
  cases hf : l.find? (k · == k x) with
  | none =>
    have := List.find?_eq_none.mp hf x hx
    simp at this
  | some y => rw [List.inj_on_of_nodup_map hnd (List.mem_of_find?_eq_some hf) hx (key_of_find? hf)]

omit [LawfulBEq κ] in
/-- What an update keeps of every record, it keeps of the list. -/
theorem map_update {g : α → β} (hf : ∀ x, g (f x) = g x) (l : List α) (i : κ) :
    (l.map fun x => if k x == i then f x else x).map g = l.map g := by
  rw [List.map_map]
  refine List.map_congr_left fun x _ => ?_
  show g (if k x == i then f x else x) = g x
  split
  · exact hf x
  · rfl

/-- Lookup of the updated record. -/
theorem find?_update_self (hf : ∀ x, k (f x) = k x) (l : List α) (i : κ) :
    (l.map fun x => if k x == i then f x else x).find? (k · == i) = (l.find? (k · == i)).map f := by
  rw [find?_map (fun x => by split <;> simp [hf])]
  cases h : l.find? (k · == i) with
  | none => rfl
  | some x => simp [key_of_find? h]

/-- Lookup of another record. -/
theorem find?_update_of_ne (hf : ∀ x, k (f x) = k x) (l : List α) (h : j ≠ i) :
    (l.map fun x => if k x == i then f x else x).find? (k · == j) = l.find? (k · == j) := by
  rw [find?_map (fun x => by split <;> simp [hf])]
  cases hj : l.find? (k · == j) with
  | none => rfl
  | some x =>
    have hx : k x ≠ i := fun hk => h ((key_of_find? hj).symm.trans hk)
    simp [hx]

/-- Lookup after the records with another key are removed. -/
theorem find?_filter_of_ne (l : List α) (h : j ≠ i) :
    (l.filter (k · != i)).find? (k · == j) = l.find? (k · == j) := by
  rw [List.find?_filter]
  congr 1
  funext x
  by_cases hj : k x = j
  · simp [hj, h]
  · simp [hj]

/-- Lookup of the removed key. -/
theorem find?_filter_self (l : List α) (i : κ) : (l.filter (k · != i)).find? (k · == i) = none := by
  rw [List.find?_eq_none]
  intro x hx
  simpa using (List.mem_filter.mp hx).2

/-- The only record that satisfies a predicate. -/
theorem filter_eq_singleton {p : α → Bool} (hnd : l.Nodup) (hx : x ∈ l) (hp : p x = true)
    (hu : ∀ y ∈ l, p y = true → y = x) : l.filter p = [x] := by
  have hrep : l.filter p = List.replicate (l.filter p).length x :=
    List.eq_replicate_of_mem fun y hy => hu y (List.mem_filter.mp hy).1 (List.mem_filter.mp hy).2
  have hle : (l.filter p).length ≤ 1 := by
    have hnodup := hnd.filter p
    rw [hrep] at hnodup
    exact List.nodup_replicate.mp hnodup
  have hpos : 0 < (l.filter p).length := List.length_pos_of_mem (List.mem_filter.mpr ⟨hx, hp⟩)
  rw [hrep, show (l.filter p).length = 1 by omega]
  rfl

/-- With unique keys, a record that is found stands beside those with other keys. -/
theorem perm_of_find? (hnd : (l.map k).Nodup) (h : l.find? (k · == i) = some x) :
    l.Perm (x :: l.filter (k · != i)) := by
  have hkey := key_of_find? h
  have hone : l.filter (k · == i) = [x] := by
    refine filter_eq_singleton (.of_map _ hnd) (List.mem_of_find?_eq_some h) (beq_iff_eq.mpr hkey) fun y hy hyi => ?_
    exact List.inj_on_of_nodup_map hnd hy (List.mem_of_find?_eq_some h) ((beq_iff_eq.mp hyi).trans hkey.symm)
  have hp := (List.filter_append_perm (k · == i) l).symm
  rwa [hone] at hp

/-- An update does not concern the records with other keys. -/
theorem filter_update (hf : ∀ x, k (f x) = k x) (l : List α) (i : κ) :
    (l.map fun x => if k x == i then f x else x).filter (k · != i) = l.filter (k · != i) := by
  induction l with
  | nil => rfl
  | cons x l ih =>
    by_cases hx : k x = i
    · have hfx : k (f x) = i := (hf x).trans hx
      simpa [hx, hfx] using ih
    · simpa [hx] using ih

end Bmd.Lib.Keyed

/-! ## Tokens that are handed out and returned -/

namespace Bmd.Lib

variable {τ : Type} {pool own own' l r : List τ} {t : τ}

/-- The tokens in the pool are those that are held, each in one place. -/
structure Accounted (pool own : List τ) : Prop where
  perm : pool.Perm own
  nodup : pool.Nodup

namespace Accounted

theorem nil : Accounted ([] : List τ) [] := ⟨.nil, List.nodup_nil⟩

theorem of_perm (h : Accounted pool own) (hp : own.Perm own') : Accounted pool own' := ⟨h.perm.trans hp, h.nodup⟩

/-- A new token goes to a place of its own. -/
theorem take (h : Accounted pool (l ++ r)) (ht : t ∉ pool) : Accounted (t :: pool) (l ++ t :: r) :=
  ⟨(h.perm.cons t).trans List.perm_middle.symm, List.nodup_cons.mpr ⟨ht, h.nodup⟩⟩

/-- A token is returned. -/
theorem release [BEq τ] [LawfulBEq τ] (h : Accounted pool (t :: own)) : Accounted (pool.erase t) own := by
  refine ⟨?_, h.nodup.erase t⟩
  have hp := h.perm.erase t
  rwa [List.erase_cons_head] at hp

end Accounted

end Bmd.Lib
