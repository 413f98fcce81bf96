import Mathlib.Algebra.GroupWithZero.Nat
import Mathlib.Tactic.ByContra

/-!
# `Lib.Stailq` — singly linked tail queues as `<sys/queue.h>` has them

The head of a queue keeps the address of the last `next` field. When the queue is empty that address is the one of
the head itself, so a head that is copied elsewhere while it is empty points to where it was before, and a head that
was never initialised points nowhere.

`Stailq` says of a head what its users can tell. An `Edit` is what a program does to a whole list: it replaces the list
or appends to it.
-/

namespace Bmd.Lib

/-- Where `stqh_last` points. -/
inductive StailqLast where
  /-- nowhere: the memory of the head is zero -/
  | null
  /-- to the field that ends the queue -/
  | own
  /-- to a field outside of the queue -/
  | astray
  deriving DecidableEq, Repr

/-- A queue: the elements that are reached from the head, and its pointer to the last field. -/
structure Stailq (α : Type) where
  items : List α
  last : StailqLast

namespace Stailq

variable {α : Type} {q : Stailq α}

/-- The memory of a head from `calloc`. -/
def zeroed : Stailq α := { items := [], last := .null }

/-- `STAILQ_INIT`. -/
def init : Stailq α := { items := [], last := .own }

/-- The head is copied to another address. -/
def moved (q : Stailq α) : Stailq α :=
  if q.items.isEmpty ∧ q.last = .own then { q with last := .astray } else q

/-- `STAILQ_INSERT_TAIL`; `none` is a write through the null pointer. Through an astray pointer the element is linked
    to memory that the head does not reach, and the next one behind it. -/
def insertTail (q : Stailq α) (x : α) : Option (Stailq α) :=
  match q.last with
  | .null => none
  | .own => some { q with items := q.items ++ [x] }
  | .astray => some q

/-- The elements of a list are inserted one by one. -/
def appendAll (q : Stailq α) (xs : List α) : Option (Stailq α) := xs.foldlM insertTail q

theorem appendAll_cons (q : Stailq α) (x : α) (xs : List α) :
    q.appendAll (x :: xs) = (q.insertTail x).bind (·.appendAll xs) := rfl

theorem appendAll_append (q : Stailq α) (xs ys : List α) :
    q.appendAll (xs ++ ys) = (q.appendAll xs).bind (·.appendAll ys) := by
  rw [appendAll, List.foldlM_append]
  rfl

theorem appendAll_own (l xs : List α) :
    appendAll { items := l, last := .own } xs = some { items := l ++ xs, last := .own } := by
  induction xs generalizing l with
  | nil => simp [appendAll]
  | cons x xs ih =>
    rw [appendAll_cons]
    show appendAll { items := l ++ [x], last := .own } xs = _
    rw [ih]
    simp

theorem appendAll_astray (h : q.last = .astray) (xs : List α) : q.appendAll xs = some q := by
  induction xs with
  | nil => rfl
  | cons x xs ih =>
    have hx : q.insertTail x = some q := by simp [insertTail, h]
    rw [appendAll_cons, hx]
    exact ih

theorem appendAll_null (h : q.last = .null) {xs : List α} (hxs : xs ≠ []) : q.appendAll xs = none := by
  cases xs with
  | nil => exact absurd rfl hxs
  | cons x xs =>
    have hx : q.insertTail x = none := by simp [insertTail, h]
    rw [appendAll_cons, hx]
    rfl

end Stailq

/-! ## Edits -/

/-- A change to a whole list. -/
structure Edit (α : Type) where
  replace : Bool
  items : List α

namespace Edit

variable {α : Type} {es : List (Edit α)}

/-- What an edit is to make of a list. -/
def apply (l : List α) (e : Edit α) : List α := if e.replace then e.items else l ++ e.items

/-- What edits are to make of a list, one after the other. -/
def applyAll (l : List α) (es : List (Edit α)) : List α := es.foldl apply l

/-- The number of elements that edits bring. -/
def total (es : List (Edit α)) : Nat := (es.map (·.items.length)).sum

theorem total_append (es es' : List (Edit α)) : total (es ++ es') = total es + total es' := by
  simp [total]

/-- Some edit replaces the list. -/
def Replaces (es : List (Edit α)) : Prop := ∃ e ∈ es, e.replace = true

/-- No edit brings an element. -/
def Blank (es : List (Edit α)) : Prop := ∀ e ∈ es, e.items = []

/-- The edits before the first one that replaces the list. -/
def lead (es : List (Edit α)) : List (Edit α) := es.takeWhile fun e => !e.replace

/-- Every edit that replaces the list finds it empty. -/
def Lossless (l : List α) : List (Edit α) → Prop
  | [] => True
  | e :: es => (e.replace = true → l = []) ∧ Lossless (e.apply l) es

theorem applyAll_of_replaces (h : Replaces es) (l l' : List α) : applyAll l es = applyAll l' es := by
  induction es generalizing l l' with
  | nil =>
    obtain ⟨e, he, -⟩ := h
    cases he
  | cons e es ih =>
    cases hr : e.replace with
    | true => simp [applyAll, apply, hr]
    | false =>
      obtain ⟨e', he', hrep⟩ := h
      have hes : Replaces es := by
        rcases List.mem_cons.mp he' with rfl | hmem
        · rw [hr] at hrep
          cases hrep
        · exact ⟨e', hmem, hrep⟩
      exact ih hes (apply l e) (apply l' e)

/-- Without a replacement the elements are appended. -/
theorem applyAll_eq_nil (h : ¬Replaces es) : applyAll [] es = [] ↔ Blank es := by
  have happ : ∀ l : List α, applyAll l es = l ++ es.flatMap (·.items) := by
    induction es with
    | nil => simp [applyAll]
    | cons e es ih =>
      intro l
      have he : e.replace = false := by
        by_contra hne
        exact h ⟨e, List.mem_cons_self, by simpa using hne⟩
      have hes : ¬Replaces es := fun ⟨e', hmem, hrep⟩ => h ⟨e', List.mem_cons_of_mem _ hmem, hrep⟩
      have hstep : applyAll l (e :: es) = applyAll (l ++ e.items) es := by simp [applyAll, apply, he]
      rw [hstep, ih hes]
      simp
  rw [happ]
  simp [Blank, List.flatMap_eq_nil_iff]

/-- Edits keep as many elements as they bring exactly if they lose none. -/
theorem length_applyAll (l : List α) (es : List (Edit α)) :
    (applyAll l es).length ≤ l.length + total es ∧
      ((applyAll l es).length = l.length + total es ↔ Lossless l es) := by
  induction es generalizing l with
  | nil => simp [applyAll, total, Lossless]
  | cons e es ih =>
    obtain ⟨hle, heq⟩ := ih (apply l e)
    have htotal : total (e :: es) = e.items.length + total es := by simp [total]
    have hcons : applyAll l (e :: es) = applyAll (apply l e) es := rfl
    cases hr : e.replace with
    | true =>
      have happ : apply l e = e.items := by simp [apply, hr]
      rw [happ] at hle heq
      simp only [Lossless, hr, happ, hcons, htotal, ← heq, true_implies, ← List.length_eq_zero_iff]
      omega
    | false =>
      have happ : apply l e = l ++ e.items := by simp [apply, hr]
      rw [happ, List.length_append] at hle heq
      simp only [Lossless, hr, happ, hcons, htotal, ← heq, Bool.false_eq_true, false_implies, true_and]
      omega

theorem lossless_of_not_replaces (h : ¬Replaces es) (l : List α) : Lossless l es := by
  induction es generalizing l with
  | nil => exact True.intro
  | cons e es ih =>
    refine ⟨fun hrep => absurd ⟨e, List.mem_cons_self, hrep⟩ h, ih ?_ _⟩
    exact fun ⟨e', hmem, hrep⟩ => h ⟨e', List.mem_cons_of_mem _ hmem, hrep⟩

end Edit

namespace Stailq

variable {α : Type} {q : Stailq α}

/-- An edit: `STAILQ_INIT` if it replaces the list, and the insertions. -/
def edit (q : Stailq α) (e : Edit α) : Option (Stailq α) := (if e.replace then init else q).appendAll e.items

/-- Edits, one after the other. -/
def edits (q : Stailq α) (es : List (Edit α)) : Option (Stailq α) := es.foldlM edit q

theorem edits_cons (q : Stailq α) (e : Edit α) (es : List (Edit α)) :
    q.edits (e :: es) = (q.edit e).bind (·.edits es) := rfl

theorem edits_singleton (q : Stailq α) (e : Edit α) : q.edits [e] = q.edit e := by
  rw [edits_cons]
  cases q.edit e <;> rfl

theorem edits_append (q : Stailq α) (es es' : List (Edit α)) : q.edits (es ++ es') = (q.edits es).bind (·.edits es') := by
  rw [edits, List.foldlM_append]
  rfl

theorem edit_replace (q : Stailq α) {e : Edit α} (h : e.replace = true) :
    q.edit e = some { items := e.apply q.items, last := .own } := by
  rw [edit, if_pos h, init, appendAll_own, Edit.apply, if_pos h, List.nil_append]

theorem edits_own (l : List α) (es : List (Edit α)) :
    edits { items := l, last := .own } es = some { items := Edit.applyAll l es, last := .own } := by
  induction es generalizing l with
  | nil => rfl
  | cons e es ih =>
    have he : edit { items := l, last := .own } e = some { items := e.apply l, last := .own } := by
      cases hr : e.replace with
      | true => exact edit_replace _ hr
      | false => simp [edit, Edit.apply, hr, appendAll_own]
    rw [edits_cons, he]
    exact ih (e.apply l)

/-- A head whose pointer is astray takes elements only from the first replacement on. -/
theorem edits_astray (h : q.last = .astray) (es : List (Edit α)) :
    (Edit.Replaces es → q.edits es = some { items := Edit.applyAll q.items es, last := .own }) ∧
      (¬Edit.Replaces es → q.edits es = some q) := by
  induction es with
  | nil => exact ⟨fun ⟨e, he, _⟩ => absurd he List.not_mem_nil, fun _ => rfl⟩
  | cons e es ih =>
    cases hr : e.replace with
    | true =>
      have hrep : Edit.Replaces (e :: es) := ⟨e, List.mem_cons_self, hr⟩
      refine ⟨fun _ => ?_, fun hno => absurd hrep hno⟩
      rw [edits_cons, edit_replace q hr]
      exact edits_own _ _
    | false =>
      have he : q.edit e = some q := by simp [edit, hr, appendAll_astray h]
      have hrest : Edit.Replaces (e :: es) ↔ Edit.Replaces es := by simp [Edit.Replaces, hr]
      rw [hrest, edits_cons, he]
      refine ⟨fun hrep => (ih.1 hrep).trans ?_, ih.2⟩
      have hsame : Edit.applyAll q.items es = Edit.applyAll (e.apply q.items) es := Edit.applyAll_of_replaces hrep _ _
      rw [hsame]
      rfl

/-- A head that was never initialised takes no element before the first replacement. -/
theorem edits_null {q' : Stailq α} (h : q.last = .null) {es : List (Edit α)} (hq : q.edits es = some q') :
    Edit.Blank (Edit.lead es) ∧ q'.items = Edit.applyAll q.items es := by
  induction es with
  | nil =>
    obtain rfl := Option.some.inj hq
    exact ⟨fun e he => absurd he List.not_mem_nil, rfl⟩
  | cons e es ih =>
    rw [edits_cons] at hq
    cases hr : e.replace with
    | true =>
      rw [edit_replace q hr] at hq
      obtain rfl := Option.some.inj ((edits_own _ _).symm.trans hq)
      refine ⟨?_, rfl⟩
      simp [Edit.lead, Edit.Blank, hr]
    | false =>
      by_cases hitems : e.items = []
      · have he : q.edit e = some q := by simp [edit, hr, hitems, appendAll]
        have happ : e.apply q.items = q.items := by simp [Edit.apply, hr, hitems]
        rw [he] at hq
        obtain ⟨hblank, hres⟩ := ih hq
        refine ⟨?_, ?_⟩
        · have hlead : Edit.lead (e :: es) = e :: Edit.lead es := by simp [Edit.lead, hr]
          rw [hlead]
          exact List.forall_mem_cons.mpr ⟨hitems, hblank⟩
        · show q'.items = Edit.applyAll (e.apply q.items) es
          rw [happ]
          exact hres
      · have he : q.edit e = none := by simp [edit, hr, appendAll_null h hitems]
        rw [he] at hq
        cases hq

end Stailq

end Bmd.Lib
