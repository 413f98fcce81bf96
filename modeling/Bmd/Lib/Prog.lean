import Mathlib.Order.Defs.Unbundled

/-!
# `Lib.Prog` — programs over a state that may end the process, and rules for reasoning about them

A program of type `Prog ε σ α` runs on a state `σ` and either returns a value with a new state or ends the
process with an `ε`. Statements about programs are *partial*: they speak of the runs that return.

* `Keeps R m` — every run of `m` that returns relates its two states by `R`. For a preorder `R` this is
  closed under sequencing, branching and list loops, so a whole function keeps `R` when its parts do.
* `Behaves R E m` — besides, a run that ends the process does so with an `E`. A class, so that it is found for
  programs without case distinctions on data. `Preserves R m` and `Avoids e m` are its two halves.
* `Gives I m Q` — from a state with `I` a run ends with `I` and a result with `Q`.
* `Agree P m m'` — from a state with `P` the two programs do the same.
-/

namespace Bmd.Lib

/-- A program on a state `σ` that may end the process with an `ε`. -/
abbrev Prog (ε σ : Type) := StateT σ (Except ε)

namespace Prog

variable {ε σ α β : Type}

/-! ## Inversion of runs that return -/

theorem except_bind_ok {x : Except ε α} {f : α → Except ε β} {b : β} :
    (x >>= f) = .ok b ↔ ∃ a, x = .ok a ∧ f a = .ok b := by
  cases x with
  | error e =>
    constructor
    · intro h; cases h
    · rintro ⟨a, h, _⟩; cases h
  | ok a =>
    constructor
    · intro h; exact ⟨a, rfl, h⟩
    · rintro ⟨a', h, hf⟩; cases h; exact hf

variable {s s' : σ}

theorem pure_ok {x y : α} : (pure x : Prog ε σ α) s = .ok (y, s') ↔ x = y ∧ s = s' := by
  show Except.ok (x, s) = Except.ok (y, s') ↔ _
  constructor
  · intro h; cases h; exact ⟨rfl, rfl⟩
  · rintro ⟨rfl, rfl⟩; rfl

variable {m : Prog ε σ α} {f : α → Prog ε σ β}

theorem bind_ok {s s'' : σ} {y : β} :
    (m >>= f) s = .ok (y, s'') ↔ ∃ x s', m s = .ok (x, s') ∧ f x s' = .ok (y, s'') := by
  show (m s >>= fun p => f p.1 p.2) = .ok (y, s'') ↔ _
  cases h : m s with
  | error e =>
    constructor
    · intro h'; cases h'
    · rintro ⟨x, s', h', _⟩; cases h'
  | ok p =>
    constructor
    · intro h'; exact ⟨p.1, p.2, rfl, h'⟩
    · rintro ⟨x, s', h', hf⟩; cases h'; exact hf

/-- The two runs that a run of a sequence consists of. -/
theorem of_bind {s'' : σ} {y : β} (h : (m >>= f) s = .ok (y, s'')) :
    ∃ x s', m s = .ok (x, s') ∧ f x s' = .ok (y, s'') := bind_ok.mp h

/-- What follows a run that returns. -/
theorem bind_of_ok {x : α} (h : m s = .ok (x, s')) : (m >>= f) s = f x s' := by
  show (m s >>= fun p => f p.1 p.2) = f x s'
  rw [h]
  rfl

theorem get_ok {s t s' : σ} : (get : Prog ε σ σ) s = .ok (t, s') ↔ s = t ∧ s = s' := by
  show Except.ok (s, s) = Except.ok (t, s') ↔ _
  constructor
  · intro h; cases h; exact ⟨rfl, rfl⟩
  · rintro ⟨rfl, rfl⟩; rfl

/-- What follows the reading of the state. -/
theorem get_bind {f : σ → Prog ε σ α} {x : α} (h : ((get : Prog ε σ σ) >>= f) s = .ok (x, s')) :
    f s s = .ok (x, s') := h

theorem set_ok {t s s' : σ} {u : PUnit} : (set t : Prog ε σ PUnit) s = .ok (u, s') ↔ s' = t := by
  show Except.ok (PUnit.unit, t) = Except.ok (u, s') ↔ _
  constructor
  · intro h; cases h; rfl
  · rintro rfl; rfl

theorem modify_ok {f : σ → σ} {u : PUnit} : (modify f : Prog ε σ PUnit) s = .ok (u, s') ↔ s' = f s := by
  show Except.ok (PUnit.unit, f s) = Except.ok (u, s') ↔ _
  constructor
  · intro h; cases h; rfl
  · rintro rfl; rfl

theorem of_modify {f : σ → σ} {u : PUnit} (h : (modify f : Prog ε σ PUnit) s = .ok (u, s')) : s' = f s :=
  modify_ok.mp h

theorem throw_ok {e : ε} {x : α} : (throw e : Prog ε σ α) s = .ok (x, s') ↔ False := by
  show Except.error e = Except.ok (x, s') ↔ _
  constructor
  · intro h; cases h
  · exact False.elim

/-! ## Relations kept by a program -/

/-- Every run of `m` that returns relates its initial to its final state by `R`. -/
def Keeps (R : σ → σ → Prop) (m : Prog ε σ α) : Prop := ∀ s x s', m s = .ok (x, s') → R s s'

section Keeps

variable {R : σ → σ → Prop} [IsPreorder σ R]

theorem Keeps.pure (x : α) : Keeps R (Pure.pure x : Prog ε σ α) := by
  intro s y s' h
  obtain ⟨_, rfl⟩ := pure_ok.mp h
  exact refl_of R s

theorem Keeps.bind (hm : Keeps R m) (hf : ∀ x, Keeps R (f x)) : Keeps R (m >>= f) := by
  intro s y s'' h
  obtain ⟨x, s', h1, h2⟩ := bind_ok.mp h
  exact trans_of R (hm s x s' h1) (hf x s' y s'' h2)

theorem Keeps.get : Keeps R (MonadState.get : Prog ε σ σ) := by
  intro s t s' h
  obtain ⟨_, rfl⟩ := get_ok.mp h
  exact refl_of R s

omit [IsPreorder σ R] in
/-- A program that reads the state it runs on. -/
theorem Keeps.get_bind {f : σ → Prog ε σ α} (h : ∀ s x s', f s s = .ok (x, s') → R s s') :
    Keeps R (MonadState.get >>= f) := by
  intro s x s'' hs
  obtain ⟨t, s', h1, h2⟩ := bind_ok.mp hs
  obtain ⟨rfl, rfl⟩ := get_ok.mp h1
  exact h _ _ _ h2

omit [IsPreorder σ R] in
theorem Keeps.throw (e : ε) : Keeps R (throw e : Prog ε σ α) := by
  intro s x s' h
  exact (throw_ok.mp h).elim

omit [IsPreorder σ R] in
theorem Keeps.modify {f : σ → σ} (h : ∀ s, R s (f s)) : Keeps R (modify f : Prog ε σ PUnit) := by
  intro s u s' hs
  rw [modify_ok.mp hs]
  exact h s

omit [IsPreorder σ R] in
theorem Keeps.ite {c : Prop} [Decidable c] {m n : Prog ε σ α} (hm : c → Keeps R m) (hn : ¬c → Keeps R n) :
    Keeps R (if c then m else n) := by
  by_cases hc : c
  · rw [if_pos hc]; exact hm hc
  · rw [if_neg hc]; exact hn hc

omit [IsPreorder σ R] in
theorem Keeps.mono {R' : σ → σ → Prop} (h : Keeps R m) (hR : ∀ s s', R s s' → R' s s') :
    Keeps R' m := fun s x s' hs => hR s s' (h s x s' hs)

end Keeps

/-! ## How a program behaves -/

/-- A run of `m` that returns relates its two states by `R`, and one that ends the process does so with an `E`. -/
class Behaves (R : σ → σ → Prop) (E : ε → Prop) (m : Prog ε σ α) : Prop where
  keeps : Keeps R m
  ends : ∀ s e, m s = .error e → E e

/-- The process may be ended with `e`. -/
class Allows (E : ε → Prop) (e : ε) : Prop where
  allowed : E e

instance (e : ε) : Allows (fun _ => True) e := ⟨trivial⟩

section Behaves

variable {R : σ → σ → Prop} {E : ε → Prop}

/-- The run from `s` returns, in a state related to it. -/
def Reaches (R : σ → σ → Prop) (m : Prog ε σ α) (s : σ) : Prop := ∃ x s', m s = .ok (x, s') ∧ R s s'

/-- A program that always returns. -/
theorem Behaves.of_run (h : ∀ s, Reaches R m s) : Behaves R E m where
  keeps s x s' hs := by
    obtain ⟨y, t, hm, hR⟩ := h s
    cases hs.symm.trans hm
    exact hR
  ends s e hs := by
    obtain ⟨y, t, hm, -⟩ := h s
    cases hs.symm.trans hm

/-- A program that reads the state it runs on and always returns. -/
theorem Behaves.get_run {f : σ → Prog ε σ α} (h : ∀ s, Reaches R (f s) s) :
    Behaves R E (MonadState.get >>= f) := .of_run h

theorem Behaves.modify {f : σ → σ} (h : ∀ s, R s (f s)) : Behaves R E (modify f : Prog ε σ PUnit) :=
  .of_run fun s => ⟨_, _, rfl, h s⟩

instance (e : ε) [h : Allows E e] : Behaves R E (MonadExcept.throw e : Prog ε σ α) where
  keeps := .throw e
  ends s e' hs := by
    cases hs
    exact h.allowed

instance {c : Prop} [Decidable c] {m n : Prog ε σ α} [hm : Behaves R E m] [hn : Behaves R E n] :
    Behaves R E (if c then m else n) := by
  by_cases hc : c
  · rw [if_pos hc]
    exact hm
  · rw [if_neg hc]
    exact hn

variable [IsPreorder σ R]

instance (x : α) : Behaves R E (Pure.pure x : Prog ε σ α) := .of_run fun s => ⟨x, s, rfl, refl_of R s⟩

instance : Behaves R E (MonadState.get : Prog ε σ σ) := .of_run fun s => ⟨s, s, rfl, refl_of R s⟩

theorem Behaves.bind (hm : Behaves R E m) (hf : ∀ x, Behaves R E (f x)) :
    Behaves R E (m >>= f) where
  keeps := hm.keeps.bind fun x => (hf x).keeps
  ends s e h := by
    have h : (m s >>= fun p => f p.1 p.2) = .error e := h
    cases hs : m s with
    | error e' =>
      rw [hs] at h
      cases h
      exact hm.ends s e hs
    | ok p =>
      rw [hs] at h
      exact (hf p.1).ends p.2 e h

instance {m : Prog ε σ α} {f : α → Prog ε σ β} [hm : Behaves R E m] [hf : ∀ x, Behaves R E (f x)] :
    Behaves R E (m >>= f) := hm.bind hf

/-- The result is matched on. -/
instance {m : Prog ε σ (Option α)} {f : Option α → Prog ε σ β} [hm : Behaves R E m] [h0 : Behaves R E (f none)]
    [h1 : ∀ x, Behaves R E (f (some x))] : Behaves R E (m >>= f) :=
  hm.bind fun
    | none => h0
    | some x => h1 x

end Behaves

/-- `Keeps`, to be found by instance search. -/
abbrev Preserves (R : σ → σ → Prop) (m : Prog ε σ α) : Prop := Behaves R (fun _ => True) m

/-- The property is carried from the one state to the other. -/
def Carries (I : σ → Prop) (s s' : σ) : Prop := I s → I s'

instance (I : σ → Prop) : IsPreorder σ (Carries I) where
  refl _ := id
  trans _ _ _ h h' := h' ∘ h

theorem Preserves.of_keeps {R : σ → σ → Prop} (h : Keeps R m) : Preserves R m :=
  ⟨h, fun _ _ _ => trivial⟩

theorem keeps {R : σ → σ → Prop} [hm : Preserves R m] : Keeps R m := hm.keeps

theorem preserved {R : σ → σ → Prop} [hm : Preserves R m] {x : α}
    (h : m s = .ok (x, s')) : R s s' := hm.keeps s x s' h

/-! ## What a program returns -/

/-- A run of `m` from a state with `I` ends in one with `I`, and what it returns has `Q`. -/
def Gives (I : σ → Prop) (m : Prog ε σ α) (Q : α → Prop) : Prop :=
  ∀ s x s', m s = .ok (x, s') → I s → I s' ∧ Q x

section Gives

variable {I : σ → Prop} {Q Q' : α → Prop} {P : β → Prop}

theorem Gives.pure {x : α} (h : Q x) : Gives I (Pure.pure x : Prog ε σ α) Q := by
  intro s y s' hs hI
  obtain ⟨rfl, rfl⟩ := pure_ok.mp hs
  exact ⟨hI, h⟩

theorem Gives.of_preserves [hm : Preserves (Carries I) m] : Gives I m fun _ => True :=
  fun s x s' hs hI => ⟨hm.keeps s x s' hs hI, trivial⟩

theorem Gives.mono (hm : Gives I m Q) (h : ∀ x, Q x → Q' x) : Gives I m Q' :=
  fun s x s' hs hI => ⟨(hm s x s' hs hI).1, h x (hm s x s' hs hI).2⟩

theorem Gives.bind (hm : Gives I m Q) (hf : ∀ x, Q x → Gives I (f x) P) : Gives I (m >>= f) P := by
  intro s y s'' h hI
  obtain ⟨x, s', h1, h2⟩ := of_bind h
  obtain ⟨hI', hx⟩ := hm s x s' h1 hI
  exact hf x hx s' y s'' h2 hI'

/-- What follows may count on the result. -/
theorem Gives.then (hm : Gives I m Q) (hf : ∀ x, Q x → Preserves (Carries I) (f x)) : Preserves (Carries I) (m >>= f) :=
  .of_keeps fun s y s' h hI =>
    (hm.bind (P := fun _ => True) (fun x hx s y s' hs hI => ⟨(hf x hx).keeps s y s' hs hI, trivial⟩) s y s' h hI).1

end Gives

/-! ## Programs that do the same -/

/-- The programs do the same from every state with `P`. -/
def Agree (P : σ → Prop) (m m' : Prog ε σ α) : Prop := ∀ s, P s → m s = m' s

theorem Agree.refl {P : σ → Prop} (m : Prog ε σ α) : Agree P m m := fun _ _ => rfl

theorem Agree.bind {P Q : σ → Prop} {m m' : Prog ε σ α} {f f' : α → Prog ε σ β} (hm : Agree P m m')
    (hQ : ∀ s x s', P s → m' s = .ok (x, s') → Q s') (hf : ∀ x, Agree Q (f x) (f' x)) :
    Agree P (m >>= f) (m' >>= f') := by
  intro s hs
  show (m s >>= fun p => f p.1 p.2) = (m' s >>= fun p => f' p.1 p.2)
  rw [hm s hs]
  cases h : m' s with
  | error e => rfl
  | ok p => exact hf p.1 p.2 (hQ s p.1 p.2 hs h)

/-- Programs that read the state they run on. -/
theorem Agree.get_bind {P : σ → Prop} {f f' : σ → Prog ε σ α} (h : ∀ s, P s → f s s = f' s s) :
    Agree P (MonadState.get >>= f) (MonadState.get >>= f') := h

/-! ## Ways of ending that a program avoids -/

/-- Two states of which nothing is asked. -/
def Unrelated (_ _ : σ) : Prop := True

instance : IsPreorder σ Unrelated where
  refl _ := trivial
  trans _ _ _ _ _ := trivial

/-- No run of `m` ends with `e`. -/
abbrev Avoids (e : ε) (m : Prog ε σ α) : Prop := Behaves Unrelated (· ≠ e) m

theorem Avoids.ne {e : ε} (h : Avoids e m) (s : σ) : m s ≠ .error e := fun hs => h.ends s e hs rfl

/-- A program that ends the process in no way returns. -/
theorem Avoids.returns (m : Prog ε σ α) [h : ∀ e, Avoids e m] (s : σ) : ∃ x s', m s = .ok (x, s') := by
  cases hs : m s with
  | error e => exact ((h e).ne s hs).elim
  | ok p => exact ⟨p.1, p.2, rfl⟩

/-! ## Programs that return -/

/-- The run from `s` returns. -/
def Returns (m : Prog ε σ α) (s : σ) : Prop := ∃ x s', m s = .ok (x, s')

/-- `Q` holds where `m` leads to, if it says that it gets there. -/
def Meets (Q : σ → Prop) (m : Prog ε σ Bool) (s : σ) : Prop := ∀ t, m s = .ok (true, t) → Q t

section Returns

variable {Q : σ → Prop} {s s' : σ} {y : α}

theorem Returns.bind_iff {f : α → Prog ε σ β} (h : m s = .ok (y, s')) : Returns (m >>= f) s ↔ Returns (f y) s' := by
  rw [Returns, bind_of_ok h]
  rfl

theorem Returns.bind {f : α → Prog ε σ β} :
    Returns (m >>= f) s ↔ Returns m s ∧ ∀ y t, m s = .ok (y, t) → Returns (f y) t := by
  constructor
  · rintro ⟨x, s', h⟩
    obtain ⟨y, t, hm, h⟩ := of_bind h
    refine ⟨⟨y, t, hm⟩, fun y' t' hm' => ?_⟩
    rw [hm] at hm'
    cases hm'
    exact ⟨x, s', h⟩
  · rintro ⟨⟨y, t, hm⟩, hf⟩
    exact (Returns.bind_iff hm).mpr (hf y t hm)

/-- What follows cannot fail. -/
theorem Returns.bind_total {f : α → Prog ε σ β} (hf : ∀ y h, Avoids h (f y)) : Returns (m >>= f) s ↔ Returns m s := by
  rw [Returns.bind]
  refine and_iff_left fun y t _ => ?_
  have := hf y
  exact Avoids.returns (f y) t

theorem returns_pure (y : α) : Returns (Pure.pure y : Prog ε σ α) s := ⟨y, s, rfl⟩

theorem not_returns_throw {e : ε} : ¬Returns (MonadExcept.throw e : Prog ε σ α) s := fun ⟨_, _, h⟩ => by cases h

theorem Meets.bind_iff {f : α → Prog ε σ Bool} (h : m s = .ok (y, s')) : Meets Q (m >>= f) s ↔ Meets Q (f y) s' := by
  rw [Meets, bind_of_ok h]
  rfl

theorem Meets.bind {f : α → Prog ε σ Bool} :
    Meets Q (m >>= f) s ↔ ∀ y t, m s = .ok (y, t) → Meets Q (f y) t := by
  refine ⟨fun h y t hm => (Meets.bind_iff hm).mp h, fun h t ht => ?_⟩
  obtain ⟨y, s1, hm, ht⟩ := of_bind ht
  exact h y s1 hm t ht

theorem Meets.of_false : Meets Q (Pure.pure false : Prog ε σ Bool) s := nofun

theorem meets_pure {b : Bool} : Meets Q (Pure.pure b : Prog ε σ Bool) s ↔ (b = true → Q s) := by
  cases b
  · simp [Meets.of_false]
  · refine ⟨fun h _ => h s rfl, fun h t ht => ?_⟩
    cases ht
    exact h rfl

end Returns

end Prog

end Bmd.Lib
