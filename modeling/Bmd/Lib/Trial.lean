import Mathlib.Order.Defs.Unbundled

/-!
# `Lib.Trial` — programs that may give up and leave their work behind

A program of type `Trial ε σ α` runs on a state `σ`. It returns a value or stops with an `ε`; in both cases there is a
final state, so that what a program did before it stopped can be spoken of.

`Tracks S R m` says two things about the runs of `m`: each moves its state along `S`, and two runs from states related
by `R` end in the same way, in states related by `R`.
-/

namespace Bmd.Lib

/-- A program on a state `σ` that may stop with an `ε`. -/
abbrev Trial (ε σ : Type) := ExceptT ε (StateM σ)

namespace Trial

variable {ε σ α β : Type}

/-! ## Runs -/

theorem bind_run (m : Trial ε σ α) (f : α → Trial ε σ β) (s : σ) :
    (m >>= f) s = match m s with
      | (.ok x, s') => f x s'
      | (.error e, s') => (.error e, s') := by
  show (m >>= ExceptT.bindCont f : StateM σ (Except ε β)) s = _
  show (match m s with | (r, s') => ExceptT.bindCont f r s') = _
  cases h : m s with
  | mk r s' => cases r <;> rfl

/-- What a run of `m` returns, if it does, satisfies `P`. -/
def Yields (P : α → Prop) (m : Trial ε σ α) : Prop := ∀ s x s', m s = (.ok x, s') → P x

theorem Yields.pure {P : α → Prop} {x : α} (h : P x) : Yields P (pure x : Trial ε σ α) := by
  rintro s _ _ ⟨⟩
  exact h

theorem Yields.bind {P : β → Prop} {Q : α → Prop} {m : Trial ε σ α} {f : α → Trial ε σ β} (hm : Yields Q m)
    (hf : ∀ x, Q x → Yields P (f x)) : Yields P (m >>= f) := by
  intro s x s' hrun
  rw [bind_run] at hrun
  split at hrun
  · next y t hy => exact hf y (hm s y t hy) t x s' hrun
  · cases hrun

theorem Yields.then {P : β → Prop} {m : Trial ε σ α} {f : α → Trial ε σ β} (hf : ∀ x, Yields P (f x)) :
    Yields P (m >>= f) :=
  .bind (Q := fun _ => True) (fun _ _ _ _ => trivial) fun x _ => hf x

theorem Yields.last (m : Trial ε σ α) (y : β) : Yields (· = y) (m >>= fun _ => Pure.pure y) := .then fun _ => .pure rfl

/-! ## Programs that move along a relation and keep in step -/

/-- Two runs from `R`-related states end in the same way, in related states. -/
def Lockstep (R : σ → σ → Prop) (m : Trial ε σ α) : Prop := ∀ s u, R s u → (m s).1 = (m u).1 ∧ R (m s).2 (m u).2

/-- Every run of `m` moves along `S`, and two runs keep in step. -/
class Tracks (S R : σ → σ → Prop) (m : Trial ε σ α) : Prop where
  moves : ∀ s, S s (m s).2
  lockstep : Lockstep R m

namespace Tracks

variable {S R : σ → σ → Prop} [IsPreorder σ S]

instance (x : α) : Tracks S R (pure x : Trial ε σ α) := ⟨refl_of S, fun _ _ h => ⟨rfl, h⟩⟩

instance (e : ε) : Tracks S R (throw e : Trial ε σ α) := ⟨refl_of S, fun _ _ h => ⟨rfl, h⟩⟩

theorem bind {m : Trial ε σ α} {f : α → Trial ε σ β} (hm : Tracks S R m) (hf : ∀ x, Tracks S R (f x)) :
    Tracks S R (m >>= f) := by
  constructor
  · intro s
    refine trans_of S (hm.moves s) ?_
    rw [bind_run]
    split
    · next x s' h =>
      rw [h]
      exact (hf x).moves s'
    · next e s' h =>
      rw [h]
      exact refl_of S s'
  · intro s u h
    obtain ⟨hres, hR⟩ := hm.lockstep s u h
    rw [bind_run, bind_run]
    cases hs : m s with
    | mk r s' =>
      cases hu : m u with
      | mk r' u' =>
        rw [hs, hu] at hres hR
        cases hres
        cases r with
        | ok x => exact (hf x).lockstep s' u' hR
        | error e => exact ⟨rfl, hR⟩

instance {m : Trial ε σ α} {f : α → Trial ε σ β} [hm : Tracks S R m] [hf : ∀ x, Tracks S R (f x)] :
    Tracks S R (m >>= f) := hm.bind hf

omit [IsPreorder σ S] in
theorem ite {c : Prop} [Decidable c] {m n : Trial ε σ α} (hm : Tracks S R m) (hn : Tracks S R n) :
    Tracks S R (if c then m else n) := by
  by_cases hc : c
  · rw [if_pos hc]
    exact hm
  · rw [if_neg hc]
    exact hn

instance {c : Prop} [Decidable c] {m n : Trial ε σ α} [hm : Tracks S R m] [hn : Tracks S R n] :
    Tracks S R (if c then m else n) := hm.ite hn

/-- A loop over a list with a state of its own. -/
theorem foldlM {f : β → α → Trial ε σ β} (h : ∀ b x, Tracks S R (f b x)) : ∀ (l : List α) (b : β),
    Tracks S R (l.foldlM f b)
  | [], b => inferInstanceAs (Tracks S R (pure b))
  | x :: l, b => by
    rw [List.foldlM_cons]
    exact (h b x).bind fun b' => foldlM h l b'

end Tracks

end Trial

end Bmd.Lib
