import Mathlib.Logic.Function.Iterate
import Mathlib.Logic.Relation

/-!
# `Lib.Loop` — loops that may not return

A round of a loop returns a result or goes on with a new state. `loop` runs it with fuel, so a loop that never returns
is one that gives `none` for every amount of it. `loop_returns_iff` is the rule for termination: a measure decreases in
every round, except in the states in which nothing changes any more.
-/

namespace Bmd.Lib

variable {σ ρ : Type} {step : σ → ρ ⊕ σ} {s s' : σ} {r : ρ}

/-- At most `fuel` rounds; `none` when the loop has not returned after them. -/
def loop (step : σ → ρ ⊕ σ) : Nat → σ → Option ρ
  | 0, _ => none
  | fuel + 1, s =>
    match step s with
    | .inl r => some r
    | .inr s' => loop step fuel s'

/-- Any number of rounds that go on. -/
def Rounds (step : σ → ρ ⊕ σ) : σ → σ → Prop := Relation.ReflTransGen fun s s' => step s = .inr s'

theorem loop_return {fuel : Nat} (h : step s = .inl r) : loop step (fuel + 1) s = some r := by
  rw [loop, h]

theorem loop_next {fuel : Nat} (h : step s = .inr s') : loop step (fuel + 1) s = loop step fuel s' := by
  rw [loop, h]

/-- A round that changes nothing is repeated for ever. -/
theorem loop_stuck (h : step s = .inr s) : ∀ fuel, loop step fuel s = none
  | 0 => rfl
  | fuel + 1 => (loop_next h).trans (loop_stuck h fuel)

/-- **When a loop returns.** Let a round that goes on take `s` to `next s`, and decrease a measure unless it changes
    nothing. Then the loop returns exactly if one of the states up to that measure ends it. -/
theorem loop_returns_iff (measure : σ → Nat) {stuck : σ → Prop} {next : σ → σ} (hstuck : ∀ s, stuck s → step s = .inr s)
    (hnext : ∀ s s', step s = .inr s' → s' = next s)
    (hdec : ∀ s s', ¬stuck s → step s = .inr s' → measure s' < measure s) (s : σ) :
    (∃ fuel r, loop step fuel s = some r) ↔ ∃ n ≤ measure s, (step (next^[n] s)).isLeft := by
  constructor
  · rintro ⟨fuel, r, hret⟩
    induction fuel generalizing s with
    | zero => cases hret
    | succ fuel ih =>
      cases hstep : step s with
      | inl r => exact ⟨0, Nat.zero_le _, by rw [Function.iterate_zero_apply, hstep]; rfl⟩
      | inr s' =>
        have hfree : ¬stuck s := fun hs => by
          rw [loop_stuck (hstuck s hs)] at hret
          cases hret
        obtain ⟨n, hn, hleft⟩ := ih s' ((loop_next hstep).symm.trans hret)
        rw [hnext s s' hstep, ← Function.iterate_succ_apply] at hleft
        exact ⟨n + 1, Nat.lt_of_le_of_lt hn (hdec s s' hfree hstep), hleft⟩
  · rintro ⟨n, -, hleft⟩
    induction n generalizing s with
    | zero =>
      obtain ⟨r, hr⟩ := Sum.isLeft_iff.mp hleft
      exact ⟨1, r, loop_return hr⟩
    | succ n ih =>
      cases hstep : step s with
      | inl r => exact ⟨1, r, loop_return hstep⟩
      | inr s' =>
        rw [Function.iterate_succ_apply, ← hnext s s' hstep] at hleft
        obtain ⟨fuel, r, hret⟩ := ih s' hleft
        exact ⟨fuel + 1, r, (loop_next hstep).trans hret⟩

end Bmd.Lib
