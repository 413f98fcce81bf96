import Bmd.Conf.Load
import Bmd.Correctness.Expr

/-!
# `Correctness.Calc` — the operations that `calc_expr` performs

C leaves an operation on `long` undefined when its result, or for `%` the quotient, is no `long`, and a division by
zero. `operations` lists what an evaluation performs; `Cfexpr.checked` computes with integers of any size and stops at
the first result that C has no value for.
-/

namespace Bmd

open Lib

variable {vars : Variables} {v : Int} {op : BinOp} {a b : Int} {l : Cfexpr}

/-! ## Operations -/

/-- An operation of `calc_expr` with the values of its operands. -/
inductive Operation where
  | neg (left : Int)
  | bin (op : BinOp) (left right : Int)
  deriving DecidableEq, Repr

/-- C defines the operation: there is no overflow, the divisor is not zero, and it is not -1 under `LONG_MIN`. -/
def Operation.Defined : Operation → Prop
  | .neg a => inLong (-1 * a)
  | .bin .add a b => inLong (a + b)
  | .bin .sub a b => inLong (a - b)
  | .bin .mul a b => inLong (a * b)
  | .bin .div a b => b ≠ 0 ∧ ¬divTraps a b
  | .bin .mod a b => b ≠ 0 ∧ ¬divTraps a b

/-- An operation on computed operands; `/` is not reached with a zero divisor. -/
def performed (op : BinOp) (a b : Int) : List Operation := if op = .div ∧ b = 0 then [] else [.bin op a b]

/-- What `calc_expr` performs on its way. An operand is not evaluated after one that failed. -/
def operations (vars : Variables) : Cfexpr → List Operation
  | .num _ => []
  | .var _ => []
  | .neg left => operations vars left ++
    match calcExpr vars left with
    | .ok a => [.neg a]
    | .error _ => []
  | .bin op left right => operations vars left ++
    match calcExpr vars left with
    | .error _ => []
    | .ok a => operations vars right ++
      match calcExpr vars right with
      | .error _ => []
      | .ok b => performed op a b

/-- **An evaluation that is free of traps**: it returns -1 or a value, and every operation on the way is defined. -/
def Untrapped (vars : Variables) (e : Cfexpr) : Prop :=
  calcExpr vars e ≠ .error .trap ∧ ∀ op ∈ operations vars e, op.Defined

/-! ## Checked arithmetic -/

/-- The integer, if it is a `long`. -/
def asLong (v : Int) : Except CalcStop Int := if inLong v then .ok v else .error .trap

/-- The operators over the integers; `trap` where C has no value. -/
def BinOp.checked (a b : Int) : BinOp → Except CalcStop Int
  | .add => asLong (a + b)
  | .sub => asLong (a - b)
  | .mul => asLong (a * b)
  | .div => if b = 0 then .error .error else asLong (a.tdiv b)
  | .mod => if b = 0 then .error .trap else (asLong (a.tdiv b)).map fun _ => a.tmod b

/-- The value of an expression over the integers. -/
def Cfexpr.checked (vars : Variables) : Cfexpr → Except CalcStop Int
  | .num val => calcNumber val
  | .var key =>
    match vars.getVar key with
    | none => .error .error
    | some val => calcNumber val
  | .neg left => do
    let a ← left.checked vars
    asLong (-a)
  | .bin op left right => do
    let a ← left.checked vars
    let b ← right.checked vars
    op.checked a b

/-! ## Values are in the range -/

theorem clamp_inLong (v : Int) : inLong (clamp v) := by
  unfold clamp inLong longMin longMax
  omega

theorem calcNumber_inLong {text : String} (h : calcNumber text = .ok v) : inLong v := by
  unfold calcNumber at h
  split at h
  · cases h
  · next n hn =>
    obtain rfl : n = v := Except.ok.inj h
    unfold strtolAll strtol at hn
    cases hscan : scanInt 0 text.toList with
    | none =>
      rw [hscan] at hn
      split at hn
      · next heq =>
        obtain rfl := (Prod.mk.inj heq).1
        obtain rfl := Option.some.inj hn
        decide
      · cases hn
    | some p =>
      rw [hscan] at hn
      split at hn
      · next heq =>
        obtain rfl := (Prod.mk.inj heq).1
        obtain rfl := Option.some.inj hn
        exact clamp_inLong p.1
      · cases hn

theorem calcExpr_inLong : ∀ {e : Cfexpr} {v : Int}, calcExpr vars e = .ok v → inLong v
  | .num _, _, h => calcNumber_inLong h
  | .var key, _, h => by
    unfold calcExpr at h
    split at h
    · cases h
    · exact calcNumber_inLong h
  | .neg left, v, h => by
    unfold calcExpr at h
    obtain ⟨a, -, h⟩ := Prog.except_bind_ok.mp h
    obtain rfl := Except.ok.inj h
    exact wrap64_inLong _
  | .bin op left right, v, h => by
    unfold calcExpr at h
    obtain ⟨a, ha, h⟩ := Prog.except_bind_ok.mp h
    obtain ⟨b, -, h⟩ := Prog.except_bind_ok.mp h
    exact BinOp.calc_inLong (calcExpr_inLong ha) h

/-! ## Both evaluations agree up to the first undefined operation -/

theorem ok_ne_trap (v : Int) : (.ok v : Except CalcStop Int) ≠ .error .trap := by
  intro h
  cases h

theorem error_ne_ok {stop : CalcStop} (h : (.error stop : Except CalcStop Int) = .ok v) : False := by
  cases h

theorem asLong_of_inLong (h : inLong v) : asLong v = .ok v := if_pos h

theorem asLong_ne_trap : asLong v ≠ .error .trap ↔ inLong v := by
  constructor
  · intro h
    by_contra hv
    exact h (if_neg hv)
  · intro hv
    rw [asLong_of_inLong hv]
    exact ok_ne_trap v

/-- The checked operators stop at the operations that C does not define. -/
theorem BinOp.performed_defined_iff (ha : inLong a) :
    (∀ o ∈ performed op a b, o.Defined) ↔ op.checked a b ≠ .error .trap := by
  cases op with
  | add | sub | mul =>
    simp only [performed, reduceCtorEq, false_and, if_false, List.forall_mem_singleton, Operation.Defined]
    exact asLong_ne_trap.symm
  | div =>
    by_cases hb : b = 0
    · simp [performed, BinOp.checked, hb]
    · simp only [performed, hb, and_false, if_false, List.forall_mem_singleton, Operation.Defined, ne_eq,
        not_false_eq_true, true_and, BinOp.checked]
      exact (tdiv_inLong_iff ha).symm.trans asLong_ne_trap.symm
  | mod =>
    by_cases hb : b = 0
    · simp [performed, BinOp.checked, Operation.Defined, hb]
    · simp only [performed, reduceCtorEq, false_and, if_false, List.forall_mem_singleton, Operation.Defined, ne_eq, hb,
        not_false_eq_true, true_and, BinOp.checked]
      refine (tdiv_inLong_iff ha).symm.trans ?_
      by_cases hq : inLong (a.tdiv b)
      · rw [asLong_of_inLong hq]
        exact iff_of_true hq (ok_ne_trap _)
      · rw [asLong, if_neg hq]
        exact iff_of_false hq fun h => h rfl

/-- A defined operation has the value of the integers. -/
theorem BinOp.checked_eq_calc (ha : inLong a) (h : op.checked a b ≠ .error .trap) : op.checked a b = op.calc a b := by
  cases op with
  | add | sub | mul =>
    have hv := asLong_ne_trap.mp h
    exact (asLong_of_inLong hv).trans (congrArg Except.ok (wrap64_of_inLong hv).symm)
  | div =>
    simp only [BinOp.checked, BinOp.calc] at h ⊢
    split
    · rfl
    · next hb =>
      rw [if_neg hb] at h
      have hq := asLong_ne_trap.mp h
      have hne : ¬divTraps a b := (tdiv_inLong_iff ha).mp hq
      rw [asLong_of_inLong hq, if_neg hne]
  | mod =>
    simp only [BinOp.checked, BinOp.calc] at h ⊢
    by_cases hb : b = 0
    · exact absurd (if_pos hb) h
    · rw [if_neg hb] at h ⊢
      have hq : inLong (a.tdiv b) := by
        by_contra hq
        exact h (by rw [asLong, if_neg hq]; rfl)
      rw [asLong_of_inLong hq, if_neg fun hor => hor.elim hb ((tdiv_inLong_iff ha).mp hq)]
      rfl

theorem untrapped_neg : Untrapped vars (.neg l) ↔ Untrapped vars l ∧ ∀ a, calcExpr vars l = .ok a → inLong (-a) := by
  unfold Untrapped
  simp only [operations, calcExpr, List.forall_mem_append]
  cases hl : calcExpr vars l with
  | error stop =>
    exact ⟨fun h => ⟨⟨h.1, h.2.1⟩, fun _ ha => (error_ne_ok ha).elim⟩, fun h => ⟨h.1.1, h.1.2, List.forall_mem_nil _⟩⟩
  | ok a =>
    simp only [List.forall_mem_singleton, Operation.Defined, Int.neg_one_mul]
    constructor
    · rintro ⟨-, hops, hneg⟩
      refine ⟨⟨ok_ne_trap a, hops⟩, fun b hb => ?_⟩
      exact Except.ok.inj hb ▸ hneg
    · rintro ⟨⟨-, hops⟩, hneg⟩
      exact ⟨ok_ne_trap _, hops, hneg a rfl⟩

theorem untrapped_bin {r : Cfexpr} : Untrapped vars (.bin op l r) ↔ Untrapped vars l ∧ ∀ a, calcExpr vars l = .ok a →
      Untrapped vars r ∧ ∀ b, calcExpr vars r = .ok b → op.checked a b ≠ .error .trap := by
  unfold Untrapped
  simp only [operations, calcExpr, List.forall_mem_append]
  cases hl : calcExpr vars l with
  | error stop =>
    exact ⟨fun h => ⟨⟨h.1, h.2.1⟩, fun _ ha => (error_ne_ok ha).elim⟩, fun h => ⟨h.1.1, h.1.2, List.forall_mem_nil _⟩⟩
  | ok a =>
    have ha := calcExpr_inLong hl
    simp only [List.forall_mem_append]
    cases hr : calcExpr vars r with
    | error stop =>
      constructor
      · rintro ⟨hstop, hleft, hright, -⟩
        refine ⟨⟨ok_ne_trap a, hleft⟩, fun _ _ => ?_⟩
        exact ⟨⟨hstop, hright⟩, fun _ hb => (error_ne_ok hb).elim⟩
      · rintro ⟨⟨-, hleft⟩, h⟩
        obtain ⟨⟨hstop, hright⟩, -⟩ := h a rfl
        exact ⟨hstop, hleft, hright, List.forall_mem_nil _⟩
    | ok b =>
      constructor
      · rintro ⟨-, hleft, hright, hop⟩
        refine ⟨⟨ok_ne_trap a, hleft⟩, fun a' ha' => ⟨⟨ok_ne_trap b, hright⟩, fun b' hb' => ?_⟩⟩
        obtain rfl := Except.ok.inj ha'
        obtain rfl := Except.ok.inj hb'
        exact (BinOp.performed_defined_iff ha).mp hop
      · rintro ⟨⟨-, hleft⟩, h⟩
        obtain ⟨⟨-, hright⟩, hop⟩ := h a rfl
        have hchecked := hop b rfl
        refine ⟨?_, hleft, hright, (BinOp.performed_defined_iff ha).mpr hchecked⟩
        show op.calc a b ≠ _
        rw [← BinOp.checked_eq_calc ha hchecked]
        exact hchecked

theorem calcNumber_ne_trap (text : String) : calcNumber text ≠ .error .trap := by
  unfold calcNumber
  split
  · intro h
    cases h
  · exact ok_ne_trap _

/-- The integers and `calc_expr` give the same, unless the integers show an operation that is not defined. -/
theorem checked_spec (vars : Variables) : ∀ e : Cfexpr,
    (Untrapped vars e ∧ e.checked vars = calcExpr vars e) ∨ (¬Untrapped vars e ∧ e.checked vars = .error .trap)
  | .num val => .inl ⟨⟨calcNumber_ne_trap val, List.forall_mem_nil _⟩, rfl⟩
  | .var key => by
    refine .inl ⟨⟨?_, List.forall_mem_nil _⟩, rfl⟩
    unfold calcExpr
    split
    · intro h
      cases h
    · exact calcNumber_ne_trap _
  | .neg l => by
    rw [untrapped_neg, Cfexpr.checked, calcExpr]
    obtain ⟨hl, heq⟩ | ⟨hl, heq⟩ := checked_spec vars l
    · rw [heq]
      cases hcalc : calcExpr vars l with
      | error stop => exact .inl ⟨⟨hl, fun _ ha => (error_ne_ok ha).elim⟩, rfl⟩
      | ok a =>
        by_cases hneg : inLong (-a)
        · refine .inl ⟨⟨hl, fun b hb => ?_⟩, ?_⟩
          · exact Except.ok.inj hb ▸ hneg
          · show asLong (-a) = .ok (wrap64 (-1 * a))
            rw [Int.neg_one_mul, wrap64_of_inLong hneg, asLong_of_inLong hneg]
        · exact .inr ⟨fun h => hneg (h.2 a rfl), if_neg hneg⟩
    · rw [heq]
      exact .inr ⟨fun h => hl h.1, rfl⟩
  | .bin op l r => by
    rw [untrapped_bin, Cfexpr.checked, calcExpr]
    obtain ⟨hl, heq⟩ | ⟨hl, heq⟩ := checked_spec vars l
    · rw [heq]
      cases hcalc : calcExpr vars l with
      | error stop => exact .inl ⟨⟨hl, fun _ ha => (error_ne_ok ha).elim⟩, rfl⟩
      | ok a =>
        have ha := calcExpr_inLong hcalc
        show (_ ∧ (r.checked vars >>= fun b => op.checked a b) = (calcExpr vars r >>= fun b => op.calc a b)) ∨
          (_ ∧ (r.checked vars >>= fun b => op.checked a b) = _)
        obtain ⟨hr, heq⟩ | ⟨hr, heq⟩ := checked_spec vars r
        · rw [heq]
          cases hcalc : calcExpr vars r with
          | error stop => exact .inl ⟨⟨hl, fun _ _ => ⟨hr, fun _ hb => (error_ne_ok hb).elim⟩⟩, rfl⟩
          | ok b =>
            by_cases hop : op.checked a b = .error .trap
            · exact .inr ⟨fun h => (h.2 a rfl).2 b rfl hop, hop⟩
            · refine .inl ⟨⟨hl, fun a' ha' => ⟨hr, fun b' hb' => ?_⟩⟩, BinOp.checked_eq_calc ha hop⟩
              obtain rfl := Except.ok.inj ha'
              obtain rfl := Except.ok.inj hb'
              exact hop
        · rw [heq]
          exact .inr ⟨fun h => hr (h.2 a rfl).1, rfl⟩
    · rw [heq]
      exact .inr ⟨fun h => hl h.1, rfl⟩

/-- **When the evaluation of an expression is free of traps**: exactly when the computation with integers of any size
    meets no result outside of `long` and no remainder by zero. The value is then the one of the integers. -/
theorem untrapped_iff_checked (vars : Variables) (e : Cfexpr) :
    (Untrapped vars e ↔ e.checked vars ≠ .error .trap) ∧ (Untrapped vars e → calcExpr vars e = e.checked vars) := by
  obtain ⟨he, heq⟩ | ⟨he, heq⟩ := checked_spec vars e
  · refine ⟨iff_of_true he ?_, fun _ => heq.symm⟩
    rw [heq]
    exact he.1
  · exact ⟨iff_of_false he fun h => h heq, fun h => absurd h he⟩

/-- `vm a { memory = $((1 % 0)); }` -/
def remainderByZero : Cfsection :=
  { name := some "a"
    params := [{ key := some (.str "memory"), vals := [{ tokens := [.expr (.bin .mod (.num "1") (.num "0"))], args := [] }]
                 operator := 0 }]
    argdefs := [], applied := 0, duplicate := 0, owner := 0, filename := "/m" }

/-- **A configuration ends the process that loads it**: `%` is not protected against zero. The quotient of the least
    `long` and -1 traps as well, and its negative and a sum that is too large overflow. -/
theorem expansion_traps :
    ¬Untrapped (.ofGlobals []) (.bin .mod (.num "1") (.num "0")) ∧
    ¬Untrapped (.ofGlobals []) (.bin .div (.num "-9223372036854775808") (.num "-1")) ∧
    ¬Untrapped (.ofGlobals []) (.neg (.num "-9223372036854775808")) ∧
    ¬Untrapped (.ofGlobals []) (.bin .add (.num "9223372036854775807") (.num "1")) ∧
    finishLoadConfig (.of []) (.init "/m") true true { Pctxt.empty with cfvms := [remainderByZero] } = .crash := by
  refine ⟨fun h => h.1 rfl, fun h => h.1 rfl, fun h => ?_, fun h => ?_, rfl⟩
  · have hneg : inLong (-1 * -9223372036854775808) := h.2 (.neg (-9223372036854775808)) (by decide +kernel)
    revert hneg
    decide
  · have hsum : inLong (9223372036854775807 + 1) := h.2 (.bin .add 9223372036854775807 1) (by decide +kernel)
    revert hsum
    decide

end Bmd
