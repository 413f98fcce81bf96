import Bmd.Conf.Expr

/-!
# `Correctness.Expr` — arithmetic expansion and its standard meaning

An expression is a chain of operands with operators between them; an operand in parentheses is a chain of its own.
`Chain.tree` is what the parser builds, nested to the right; `Chain.standard` is the tree with the precedence and the
association of C and `sh(1)`. Both are compared on the integers that the operands stand for. `goodOps` are the
sequences of operators for which they always agree.
-/

namespace Bmd

open Lib

variable {vars : Variables} {v : Int} {o : BinOp} {r : List BinOp} {st : List ExprSym} {ts : List ExprToken}
  {e l : Cfexpr} {a b w : Int}

/-! ## Chains -/

mutual

/-- A number, a variable or a chain in parentheses, with or without a minus before it. -/
inductive Operand where
  | num (neg : Bool) (val : String)
  | var (neg : Bool) (key : String)
  | paren (neg : Bool) (c : Chain)

/-- Operands with operators between them. -/
inductive Chain where
  | one (x : Operand)
  | cons (x : Operand) (o : BinOp) (rest : Chain)

end

/-- A minus before an operand. -/
def signTokens (neg : Bool) : List ExprToken := if neg then [.op .sub] else []

/-- An operand with its minus. -/
def signed (neg : Bool) (e : Cfexpr) : Cfexpr := if neg then .neg e else e

mutual

def Operand.tokens : Operand → List ExprToken
  | .num neg val => signTokens neg ++ [.number val]
  | .var neg key => signTokens neg ++ [.var key]
  | .paren neg c => signTokens neg ++ .lpar :: (c.tokens ++ [.rpar])

def Chain.tokens : Chain → List ExprToken
  | .one x => x.tokens
  | .cons x o rest => x.tokens ++ .op o :: rest.tokens

end

mutual

/-- The tree for an operand, nested to the right inside. -/
def Operand.tree : Operand → Cfexpr
  | .num neg val => signed neg (.num val)
  | .var neg key => signed neg (.var key)
  | .paren neg c => signed neg c.tree

/-- **The tree that the parser builds.** -/
def Chain.tree : Chain → Cfexpr
  | .one x => x.tree
  | .cons x o rest => .bin o x.tree rest.tree

end

/-! ## The grammar -/

/-- The rules for `expr`. -/
inductive Derives : List ExprToken → Prop where
  | number (val : String) : Derives [.number val]
  | var (key : String) : Derives [.var key]
  | bin {l r : List ExprToken} (o : BinOp) (hl : Derives l) (hr : Derives r) : Derives (l ++ .op o :: r)
  | negParen {l : List ExprToken} (h : Derives l) : Derives (.op .sub :: .lpar :: (l ++ [.rpar]))
  | negNumber (val : String) : Derives [.op .sub, .number val]
  | negVar (key : String) : Derives [.op .sub, .var key]
  | paren {l : List ExprToken} (h : Derives l) : Derives (.lpar :: (l ++ [.rpar]))

/-- Two chains with an operator between them. -/
def Chain.append : Chain → BinOp → Chain → Chain
  | .one x, o, d => .cons x o d
  | .cons x o' rest, o, d => .cons x o' (rest.append o d)

theorem Chain.tokens_append : ∀ (c : Chain) (o : BinOp) (d : Chain),
    (c.append o d).tokens = c.tokens ++ .op o :: d.tokens
  | .one _, _, _ => rfl
  | .cons x o' rest, o, d => by
    rw [append, tokens, tokens_append rest o d, tokens, List.append_assoc]
    rfl

/-- What is derived is a chain. -/
theorem Derives.exists_chain (h : Derives ts) : ∃ c : Chain, c.tokens = ts := by
  induction h with
  | number val => exact ⟨.one (.num false val), rfl⟩
  | var key => exact ⟨.one (.var false key), rfl⟩
  | bin o _ _ ihl ihr =>
    obtain ⟨c, rfl⟩ := ihl
    obtain ⟨d, rfl⟩ := ihr
    exact ⟨c.append o d, c.tokens_append o d⟩
  | negParen _ ih =>
    obtain ⟨c, rfl⟩ := ih
    exact ⟨.one (.paren true c), rfl⟩
  | negNumber val => exact ⟨.one (.num true val), rfl⟩
  | negVar key => exact ⟨.one (.var true key), rfl⟩
  | paren _ ih =>
    obtain ⟨c, rfl⟩ := ih
    exact ⟨.one (.paren false c), rfl⟩

mutual

theorem Operand.derives : ∀ x : Operand, Derives x.tokens
  | .num false val => .number val
  | .num true val => .negNumber val
  | .var false key => .var key
  | .var true key => .negVar key
  | .paren false c => .paren c.derives
  | .paren true c => .negParen c.derives

/-- A chain can be derived. -/
theorem Chain.derives : ∀ c : Chain, Derives c.tokens
  | .one x => x.derives
  | .cons x o rest => .bin o x.derives rest.derives

end

/-- **The sequences that the grammar derives** are the chains. -/
theorem derives_iff : Derives ts ↔ ∃ c : Chain, c.tokens = ts := by
  constructor
  · exact Derives.exists_chain
  · rintro ⟨c, rfl⟩
    exact c.derives

/-! ## The parser -/

/-- An operand may begin, and no minus waits for it. -/
inductive Ready : List ExprSym → Prop where
  | nil : Ready []
  | op (o : BinOp) (st : List ExprSym) : Ready (.op o :: st)
  | lpar (st : List ExprSym) : Ready (.lpar :: st)

/-- The stack after a chain. -/
def Chain.push : Chain → List ExprSym → List ExprSym
  | .one x, st => .expr x.tree :: st
  | .cons x o rest, st => rest.push (.op o :: .expr x.tree :: st)

theorem pushOperand_ready (h : Ready st) : pushOperand e st = some (.expr e :: st) := by
  cases h <;> rfl

theorem shiftExpr_lpar (neg : Bool) (h : Ready st) :
    (signTokens neg ++ [ExprToken.lpar]).foldlM shiftExpr st = some (.lpar :: (if neg then .neg :: st else st)) := by
  cases neg <;> cases h <;> rfl

theorem pushOperand_sign (neg : Bool) (h : Ready st) :
    pushOperand e (if neg then .neg :: st else st) = some (.expr (signed neg e) :: st) := by
  cases neg with
  | false => exact pushOperand_ready h
  | true => rfl

/-- A chain on the stack is reduced from its end. -/
theorem Chain.reduce_push : ∀ (c : Chain) (st : List ExprSym), ∃ e rest,
    c.push st = .expr e :: rest ∧ reduceExpr e rest = reduceExpr c.tree st
  | .one x, st => ⟨x.tree, st, rfl, rfl⟩
  | .cons x o rest, st => by
    obtain ⟨e, s, hpush, hred⟩ := rest.reduce_push (.op o :: .expr x.tree :: st)
    exact ⟨e, s, hpush, hred⟩

mutual

theorem Operand.shift : ∀ (x : Operand) {st : List ExprSym}, Ready st →
    x.tokens.foldlM shiftExpr st = some (.expr x.tree :: st)
  | .num false _, _, h => by cases h <;> rfl
  | .num true _, _, h => by cases h <;> rfl
  | .var false _, _, h => by cases h <;> rfl
  | .var true _, _, h => by cases h <;> rfl
  | .paren neg c, st, h => by
    have hc := c.shift (.lpar (if neg then .neg :: st else st))
    obtain ⟨e, rest, hpush, hred⟩ := c.reduce_push (.lpar :: (if neg then .neg :: st else st))
    have htok : (Operand.paren neg c).tokens = (signTokens neg ++ [.lpar]) ++ (c.tokens ++ [.rpar]) := by
      rw [Operand.tokens, List.append_assoc]
      rfl
    rw [htok, List.foldlM_append, shiftExpr_lpar neg h]
    show (c.tokens ++ [ExprToken.rpar]).foldlM shiftExpr _ = _
    rw [List.foldlM_append, hc, hpush]
    show shiftExpr (.expr e :: rest) .rpar >>= pure = _
    simp only [shiftExpr, hred]
    show pushOperand c.tree _ >>= pure = _
    rw [pushOperand_sign neg h]
    rfl

theorem Chain.shift : ∀ (c : Chain) {st : List ExprSym}, Ready st →
    c.tokens.foldlM shiftExpr st = some (c.push st)
  | .one x, _, h => x.shift h
  | .cons x o rest, st, h => by
    rw [Chain.tokens, List.foldlM_append, x.shift h]
    show rest.tokens.foldlM shiftExpr (.op o :: .expr x.tree :: st) = _
    exact rest.shift (.op o _)

end

/-- **The parser accepts every chain** and nests it to the right. -/
theorem parseExpr_tokens (c : Chain) : parseExpr c.tokens = some c.tree := by
  obtain ⟨e, rest, hpush, hred⟩ := c.reduce_push []
  have hrun := c.shift .nil
  rw [hpush] at hrun
  simp only [parseExpr, hrun, hred]
  rfl

/-! ## The standard meaning -/

/-- The operators that bind tighter. -/
def BinOp.isMul : BinOp → Bool
  | .mul | .div | .mod => true
  | .add | .sub => false

/-- A left operand with its operator takes the right one. -/
def closeTree : Option (Cfexpr × BinOp) → Cfexpr → Cfexpr
  | none, e => e
  | some (l, o), e => .bin o l e

mutual

/-- The standard tree for an operand. -/
def Operand.standard : Operand → Cfexpr
  | .num neg val => signed neg (.num val)
  | .var neg key => signed neg (.var key)
  | .paren neg c => signed neg (c.standardGo none none)

/-- The standard tree for a chain behind a sum and a product that are not complete yet. -/
def Chain.standardGo (sum prod : Option (Cfexpr × BinOp)) : Chain → Cfexpr
  | .one x => closeTree sum (closeTree prod x.standard)
  | .cons x o rest =>
    if o.isMul then rest.standardGo sum (some (closeTree prod x.standard, o))
    else rest.standardGo (some (closeTree sum (closeTree prod x.standard), o)) none

end

/-- **The tree of C and `sh(1)`**: `*`, `/` and `%` bind tighter than `+` and `-`, and operators associate to the
    left. -/
def Chain.standard (c : Chain) : Cfexpr := c.standardGo none none

/-- The operators on integers, as far as the result is a `long`. For `%` it is the quotient that C wants to be one. -/
def BinOp.exact (a b : Int) : BinOp → Option Int
  | .add => within (a + b)
  | .sub => within (a - b)
  | .mul => within (a * b)
  | .div => if b = 0 then none else within (a.tdiv b)
  | .mod => if b = 0 then none else (within (a.tdiv b)).map fun _ => a.tmod b

/-- The value of a tree over the integers: every number is a `long` and so is every result, and no divisor is zero. -/
def Cfexpr.exact (vars : Variables) : Cfexpr → Option Int
  | .num val => (intOf 0 val).bind within
  | .var key => ((vars.getVar key).bind (intOf 0)).bind within
  | .neg left => (left.exact vars).bind fun v => within (-v)
  | .bin op left right => (left.exact vars).bind fun a => (right.exact vars).bind fun b => op.exact a b

/-- The expansion has the standard value wherever there is one. -/
def Chain.meansStandard (c : Chain) : Prop :=
  ∀ vars v, c.standard.exact vars = some v → (parseExpr c.tokens).map (calcExpr vars) = some (.ok v)

/-! ## The operators that nesting to the right respects -/

/-- The operators of a chain. -/
def Chain.ops : Chain → List BinOp
  | .one _ => []
  | .cons _ o rest => o :: rest.ops

/-- Sums; after the first `-` only one product; in a product either `*` throughout, or one `/` or `%` alone. -/
def goodOps : List BinOp → Prop
  | [] => True
  | .add :: r => goodOps r
  | .sub :: r => (∀ o ∈ r, o.isMul) ∧ goodOps r
  | .mul :: r => ∀ o ∈ r, o = .mul
  | .div :: r => r = []
  | .mod :: r => r = []

mutual

/-- The operators inside of an operand are good. -/
def Operand.good : Operand → Prop
  | .num _ _ => True
  | .var _ _ => True
  | .paren _ c => goodOps c.ops ∧ c.operandsGood

/-- The operators inside of all operands are good. -/
def Chain.operandsGood : Chain → Prop
  | .one x => x.good
  | .cons x _ rest => x.good ∧ rest.operandsGood

end

/-! ### One operator -/

theorem BinOp.exact_inLong (ha : inLong a) (h : o.exact a b = some v) : inLong v := by
  cases o with
  | add | sub | mul => exact (within_eq_some.mp h).1 ▸ (within_eq_some.mp h).2
  | div =>
    simp only [BinOp.exact] at h
    split at h
    · cases h
    · exact (within_eq_some.mp h).1 ▸ (within_eq_some.mp h).2
  | mod =>
    simp only [BinOp.exact] at h
    split at h
    · cases h
    · obtain ⟨_, _, rfl⟩ := Option.map_eq_some_iff.mp h
      exact tmod_inLong ha b

/-- Where the operator has an exact value, `calc_expr` computes it. -/
theorem BinOp.calc_of_exact (ha : inLong a) (h : o.exact a b = some v) : o.calc a b = .ok v := by
  cases o with
  | add | sub | mul =>
    obtain ⟨rfl, hv⟩ := within_eq_some.mp h
    exact congrArg Except.ok (wrap64_of_inLong hv)
  | div =>
    simp only [BinOp.exact] at h
    split at h
    · cases h
    · next hb =>
      obtain ⟨rfl, hv⟩ := within_eq_some.mp h
      have hq : ¬divTraps a b := (tdiv_inLong_iff ha).mp hv
      simp only [BinOp.calc, hb, hq, if_false]
  | mod =>
    simp only [BinOp.exact] at h
    split at h
    · cases h
    · next hb =>
      obtain ⟨q, hq, rfl⟩ := Option.map_eq_some_iff.mp h
      have hv : ¬divTraps a b := (tdiv_inLong_iff ha).mp (within_eq_some.mp hq).2
      simp only [BinOp.calc, hb, hv, or_self, if_false]

/-- A value of the tree is a `long`. -/
theorem Cfexpr.exact_inLong : ∀ {e : Cfexpr} {v : Int}, e.exact vars = some v → inLong v
  | .num _, _, h => by
    obtain ⟨_, _, hv⟩ := Option.bind_eq_some_iff.mp h
    exact (within_eq_some.mp hv).1 ▸ (within_eq_some.mp hv).2
  | .var _, _, h => by
    obtain ⟨_, _, hv⟩ := Option.bind_eq_some_iff.mp h
    exact (within_eq_some.mp hv).1 ▸ (within_eq_some.mp hv).2
  | .neg _, _, h => by
    obtain ⟨_, _, hv⟩ := Option.bind_eq_some_iff.mp h
    exact (within_eq_some.mp hv).1 ▸ (within_eq_some.mp hv).2
  | .bin _ _ _, _, h => by
    obtain ⟨a, ha, h⟩ := Option.bind_eq_some_iff.mp h
    obtain ⟨b, _, h⟩ := Option.bind_eq_some_iff.mp h
    exact BinOp.exact_inLong (exact_inLong ha) h

theorem exact_bin_eq_some {r : Cfexpr} : (Cfexpr.bin o l r).exact vars = some v ↔
      ∃ a, l.exact vars = some a ∧ ∃ b, r.exact vars = some b ∧ o.exact a b = some v := by
  simp only [Cfexpr.exact, Option.bind_eq_some_iff]

/-- The `calc_expr` of an operation on computed operands. -/
theorem calcExpr_bin {r : Cfexpr} (hl : calcExpr vars l = .ok a)
    (hr : calcExpr vars r = .ok b) : calcExpr vars (.bin o l r) = o.calc a b := by
  unfold calcExpr
  rw [hl, hr]
  rfl

theorem calcExpr_bin_ok {r : Cfexpr} (h : calcExpr vars (.bin o l r) = .ok w) :
    ∃ a b, calcExpr vars l = .ok a ∧ calcExpr vars r = .ok b ∧ o.calc a b = .ok w := by
  unfold calcExpr at h
  cases hl : calcExpr vars l with
  | error e => rw [hl] at h; cases h
  | ok a =>
    cases hr : calcExpr vars r with
    | error e => rw [hl, hr] at h; cases h
    | ok b => exact ⟨a, b, rfl, rfl, by rw [hl, hr] at h; exact h⟩

/-- A text in the range is read as it is. -/
theorem calcNumber_of_exact {text : String} (h : (intOf 0 text).bind within = some v) : calcNumber text = .ok v := by
  obtain ⟨n, hn, hw⟩ := Option.bind_eq_some_iff.mp h
  obtain ⟨rfl, hv⟩ := within_eq_some.mp hw
  unfold calcNumber
  rw [strtolAll_of_intOf hn hv]

theorem calcExpr_num {val : String} (h : (Cfexpr.num val).exact vars = some v) :
    calcExpr vars (.num val) = .ok v := calcNumber_of_exact h

theorem calcExpr_var {key : String} (h : (Cfexpr.var key).exact vars = some v) : calcExpr vars (.var key) = .ok v := by
  obtain ⟨n, hn, hw⟩ := Option.bind_eq_some_iff.mp h
  obtain ⟨val, hval, hn⟩ := Option.bind_eq_some_iff.mp hn
  simp only [calcExpr, hval]
  exact calcNumber_of_exact (Option.bind_eq_some_iff.mpr ⟨n, hn, hw⟩)

/-! ### Good operators

The proofs below follow the two values through a chain. A sum or a product that is not complete yet stands on the left
of the standard tree, while on the right the parser's tree has the value of the whole rest; the two are congruent
modulo 2⁶⁴ even where the sum of the rest alone would leave the range.
-/

/-- The operand has its standard value in the parser's tree. -/
def Operand.right (vars : Variables) (x : Operand) : Prop :=
  ∀ v, x.standard.exact vars = some v → calcExpr vars x.tree = .ok v

/-- So has every operand of the chain. -/
def Chain.operandsRight (vars : Variables) : Chain → Prop
  | .one x => x.right vars
  | .cons x _ rest => x.right vars ∧ rest.operandsRight vars

/-- Good operators that begin with a product are those of this product. -/
theorem goodOps_product (h : goodOps (o :: r)) (ho : o.isMul = true) : ∀ o' ∈ o :: r, o'.isMul := by
  refine List.forall_mem_cons.mpr ⟨ho, fun o' ho' => ?_⟩
  cases o with
  | add | sub => cases ho
  | mul => rw [h o' ho']; rfl
  | div | mod => rw [show r = [] from h] at ho'; cases ho'

/-- A product is complete before the sum it belongs to. -/
theorem standardGo_of_mul {sum : Option (Cfexpr × BinOp)} : ∀ {c : Chain} {prod : Option (Cfexpr × BinOp)},
    (∀ o ∈ c.ops, o.isMul) → c.standardGo sum prod = closeTree sum (c.standardGo none prod)
  | .one _, _, _ => by simp only [Chain.standardGo, closeTree]
  | .cons x o rest, prod, h => by
    have ho : o.isMul = true := h o List.mem_cons_self
    simp only [Chain.standardGo, ho, if_true]
    exact standardGo_of_mul fun o' ho' => h o' (List.mem_cons_of_mem _ ho')

/-- Factors behind a product. -/
theorem calc_factors : ∀ {c : Chain} {p : Cfexpr} {v : Int}, c.operandsRight vars →
    (∀ o ∈ c.ops, o = .mul) → (c.standardGo none (some (p, .mul))).exact vars = some v →
    ∃ q w, p.exact vars = some q ∧ calcExpr vars c.tree = .ok w ∧ v ≡ q * w [ZMOD 2 ^ 64]
  | .one x, p, v, hx, _, h => by
    simp only [Chain.standardGo, closeTree] at h
    obtain ⟨q, hq, w, hw, hv⟩ := exact_bin_eq_some.mp h
    obtain ⟨rfl, _⟩ := within_eq_some.mp hv
    exact ⟨q, w, hq, hx w hw, rfl⟩
  | .cons x o rest, p, v, ⟨hx, hrest⟩, hops, h => by
    obtain rfl : o = .mul := hops o List.mem_cons_self
    simp only [Chain.standardGo, BinOp.isMul, if_true, closeTree] at h
    obtain ⟨q', w, hq', hw, hv⟩ :=
      calc_factors hrest (fun o' ho' => hops o' (List.mem_cons_of_mem _ ho')) h
    obtain ⟨q, hq, a, ha, hqa⟩ := exact_bin_eq_some.mp hq'
    obtain ⟨rfl, _⟩ := within_eq_some.mp hqa
    refine ⟨q, wrap64 (a * w), hq, calcExpr_bin (hx a ha) hw, ?_⟩
    calc v ≡ q * a * w [ZMOD 2 ^ 64] := hv
      _ = q * (a * w) := Int.mul_assoc q a w
      _ ≡ q * wrap64 (a * w) [ZMOD 2 ^ 64] := (wrap64_modEq (a * w)).symm.mul_left q

variable {c : Chain} {e' : Cfexpr} {p : Int} {n : Digit} {sum prod : Option (Cfexpr × BinOp)} {o' : BinOp}

/-- A product with good operators. -/
theorem calc_product (hc : c.operandsRight vars) (hmul : ∀ o ∈ c.ops, o.isMul)
    (hops : goodOps c.ops) (h : (c.standardGo none none).exact vars = some v) : calcExpr vars c.tree = .ok v := by
  cases c with
  | one x =>
    simp only [Chain.standardGo, closeTree] at h
    exact hc v h
  | cons x o rest =>
    have ho : o.isMul = true := hmul o List.mem_cons_self
    obtain ⟨hx, hrest⟩ := hc
    have hv := Cfexpr.exact_inLong h
    simp only [Chain.standardGo, ho, if_true, closeTree] at h
    cases o with
    | add | sub => cases ho
    | mul =>
      obtain ⟨q, w, hq, hw, hqw⟩ := calc_factors hrest hops h
      show calcExpr vars (.bin .mul x.tree rest.tree) = _
      rw [calcExpr_bin (hx q hq) hw]
      have heq : v = wrap64 (q * w) := eq_of_modEq hv (wrap64_inLong _) (hqw.trans (wrap64_modEq _).symm)
      rw [heq]
      rfl
    | div | mod =>
      -- The operator stands alone, so that both trees are the same one.
      cases rest with
      | cons _ _ _ => cases hops
      | one y =>
        simp only [Chain.standardGo, closeTree] at h
        obtain ⟨a, ha, b, hb, hab⟩ := exact_bin_eq_some.mp h
        show calcExpr vars (.bin _ x.tree y.tree) = _
        rw [calcExpr_bin (hx a ha) (hrest b hb)]
        exact BinOp.calc_of_exact (Cfexpr.exact_inLong ha) hab

/-- The sum of an additive operator. -/
def BinOp.addTo (s w : Int) : BinOp → Int
  | .sub => s - w
  | _ => s + w

/-- One product behind a sum. -/
theorem calc_summand (hc : c.operandsRight vars)
    (hops : goodOps c.ops) (ho : o.isMul = false) (hmul : ∀ o' ∈ c.ops, o'.isMul)
    (h : (c.standardGo (some (e, o)) none).exact vars = some v) :
    ∃ s w, e.exact vars = some s ∧ calcExpr vars c.tree = .ok w ∧ v ≡ o.addTo s w [ZMOD 2 ^ 64] := by
  rw [standardGo_of_mul hmul] at h
  obtain ⟨s, hs, w, hw, hv⟩ := exact_bin_eq_some.mp h
  refine ⟨s, w, hs, calc_product hc hmul hops hw, ?_⟩
  cases o with
  | add | sub => rw [← (within_eq_some.mp hv).1]; rfl
  | mul | div | mod => cases ho

/-- Good operators behind a sum; behind a `-` they are those of one product. -/
theorem calc_summands : ∀ {c : Chain} {e : Cfexpr} {o : BinOp} {v : Int}, c.operandsRight vars →
    goodOps c.ops → o.isMul = false → (o = .sub → ∀ o' ∈ c.ops, o'.isMul) →
    (c.standardGo (some (e, o)) none).exact vars = some v →
    ∃ s w, e.exact vars = some s ∧ calcExpr vars c.tree = .ok w ∧ v ≡ o.addTo s w [ZMOD 2 ^ 64]
  | .one x, e, o, v, hc, hops, ho, _, h => calc_summand hc hops ho (fun _ hmem => nomatch hmem) h
  | .cons x o' rest, e, o, v, hc, hops, ho, hsub, h => by
    by_cases hmul : ∀ o'' ∈ (Chain.cons x o' rest).ops, o''.isMul
    · exact calc_summand hc hops ho hmul h
    -- There is another summand, and so the operator before this one is a `+`.
    obtain rfl : o = .add := by
      cases o with
      | add => rfl
      | sub => exact (hmul (hsub rfl)).elim
      | mul | div | mod => cases ho
    obtain ⟨hx, hrest⟩ := hc
    cases o' with
    | add =>
      obtain ⟨s', w, hs', hw, hv⟩ := calc_summands (o := .add) hrest hops rfl nofun h
      obtain ⟨s, hs, a, ha, hsa⟩ := exact_bin_eq_some.mp hs'
      obtain ⟨rfl, _⟩ := within_eq_some.mp hsa
      refine ⟨s, wrap64 (a + w), hs, calcExpr_bin (hx a ha) hw, ?_⟩
      calc v ≡ s + a + w [ZMOD 2 ^ 64] := hv
        _ = s + (a + w) := Int.add_assoc s a w
        _ ≡ s + wrap64 (a + w) [ZMOD 2 ^ 64] := (wrap64_modEq (a + w)).symm.add_left s
    | sub =>
      obtain ⟨s', w, hs', hw, hv⟩ := calc_summands (o := .sub) hrest hops.2 rfl (fun _ => hops.1) h
      obtain ⟨s, hs, a, ha, hsa⟩ := exact_bin_eq_some.mp hs'
      obtain ⟨rfl, _⟩ := within_eq_some.mp hsa
      refine ⟨s, wrap64 (a - w), hs, calcExpr_bin (hx a ha) hw, ?_⟩
      calc v ≡ s + a - w [ZMOD 2 ^ 64] := hv
        _ = s + (a - w) := Int.add_sub_assoc s a w
        _ ≡ s + wrap64 (a - w) [ZMOD 2 ^ 64] := (wrap64_modEq (a - w)).symm.add_left s
    | mul | div | mod => exact (hmul (goodOps_product hops rfl)).elim

/-- The parser's tree for a chain with good operators has the standard value. -/
theorem calc_chain (hc : c.operandsRight vars) (hops : goodOps c.ops)
    (h : c.standard.exact vars = some v) : calcExpr vars c.tree = .ok v := by
  by_cases hmul : ∀ o ∈ c.ops, o.isMul
  · exact calc_product hc hmul hops h
  have hv := Cfexpr.exact_inLong h
  cases c with
  | one x => exact (hmul fun _ hmem => nomatch hmem).elim
  | cons x o rest =>
    obtain ⟨hx, hrest⟩ := hc
    cases o with
    | add =>
      obtain ⟨s, w, hs, hw, heq⟩ := calc_summands (o := .add) hrest hops rfl nofun h
      show calcExpr vars (.bin .add x.tree rest.tree) = _
      rw [calcExpr_bin (hx s hs) hw, eq_of_modEq hv (wrap64_inLong _) (heq.trans (wrap64_modEq _).symm)]
      rfl
    | sub =>
      obtain ⟨s, w, hs, hw, heq⟩ := calc_summands (o := .sub) hrest hops.2 rfl (fun _ => hops.1) h
      show calcExpr vars (.bin .sub x.tree rest.tree) = _
      rw [calcExpr_bin (hx s hs) hw, eq_of_modEq hv (wrap64_inLong _) (heq.trans (wrap64_modEq _).symm)]
      rfl
    | mul | div | mod => exact (hmul (goodOps_product hops rfl)).elim

/-- A minus before a tree that has its standard value. -/
theorem calc_signed (neg : Bool) (h : ∀ v, e.exact vars = some v → calcExpr vars e' = .ok v)
    (hv : (signed neg e).exact vars = some v) : calcExpr vars (signed neg e') = .ok v := by
  cases neg with
  | false => exact h v hv
  | true =>
    obtain ⟨a, ha, hn⟩ := Option.bind_eq_some_iff.mp hv
    obtain ⟨rfl, hlong⟩ := within_eq_some.mp hn
    show calcExpr vars (.neg e') = _
    unfold calcExpr
    rw [h a ha]
    show Except.ok (wrap64 (-1 * a)) = _
    rw [Int.neg_one_mul, wrap64_of_inLong hlong]

mutual

theorem Operand.right_of_good : ∀ {x : Operand}, x.good → x.right vars
  | .num neg _, _ => fun _ hv => calc_signed neg (fun _ => calcExpr_num) hv
  | .var neg _, _ => fun _ hv => calc_signed neg (fun _ => calcExpr_var) hv
  | .paren neg _, h => fun _ hv =>
    calc_signed neg (fun _ hw => calc_chain (Chain.operandsRight_of_good h.2) h.1 hw) hv

theorem Chain.operandsRight_of_good : ∀ {c : Chain}, c.operandsGood → c.operandsRight vars
  | .one _, h => Operand.right_of_good h
  | .cons _ _ _, h => ⟨Operand.right_of_good h.1, Chain.operandsRight_of_good h.2⟩

end

/-- **With good operators throughout, an expansion has its standard value.** -/
theorem Chain.meansStandard_of_good (hops : goodOps c.ops) (hc : c.operandsGood) : c.meansStandard := by
  intro vars v hv
  rw [parseExpr_tokens]
  exact congrArg some (calc_chain (operandsRight_of_good hc) hops hv)

/-! ### Other operators

For every other sequence there are digits with which the two values differ. The tail of a chain is made of operands
that change nothing, whichever way it is nested.
-/

/-- The digits in use. -/
inductive Digit where
  | zero | one | two | three

def Digit.text : Digit → String
  | .zero => "0"
  | .one => "1"
  | .two => "2"
  | .three => "3"

def Digit.val : Digit → Int
  | .zero => 0
  | .one => 1
  | .two => 2
  | .three => 3

/-- A digit as an operand. -/
def digit (n : Digit) : Operand := .num false n.text

/-- The right operand that changes no left operand smaller than 3. -/
def BinOp.unit : BinOp → Digit
  | .add | .sub => .zero
  | .mul | .div => .one
  | .mod => .three

/-- A digit before operands that change nothing. -/
def neutral (n : Digit) : List BinOp → Chain
  | [] => .one (digit n)
  | o :: r => .cons (digit n) o (neutral o.unit r)

@[simp] theorem neutral_ops (n : Digit) (r : List BinOp) : (neutral n r).ops = r := by
  induction r generalizing n with
  | nil => rfl
  | cons o r ih => rw [neutral, Chain.ops, ih]

theorem neutral_operandsGood (n : Digit) (r : List BinOp) : (neutral n r).operandsGood := by
  induction r generalizing n with
  | nil => trivial
  | cons o r ih => exact ⟨trivial, ih o.unit⟩

theorem digit_exact (vars : Variables) (n : Digit) : (digit n).standard.exact vars = some n.val := by
  cases n <;> rfl

theorem digit_calc (vars : Variables) (n : Digit) : calcExpr vars (digit n).tree = .ok n.val := by
  cases n <;> rfl

theorem digit_inLong (n : Digit) : inLong n.val := by
  cases n <;> decide

theorem BinOp.exact_unit (hp : 0 ≤ p ∧ p < 3) (ho : o.isMul = true) : o.exact p o.unit.val = some p := by
  obtain rfl | rfl | rfl : p = 0 ∨ p = 1 ∨ p = 2 := by omega
  all_goals
    cases o with
    | add | sub => cases ho
    | mul | div | mod => rfl

/-- The value of a digit before neutral operands, nested to the right. -/
theorem calc_neutral (h : calcExpr vars (neutral n r).tree = .ok w) : w = n.val ∨ n = .three ∧ w = 0 := by
  induction r generalizing n w with
  | nil => exact .inl (Except.ok.inj ((digit_calc vars n).symm.trans h)).symm
  | cons o r ih =>
    obtain ⟨a, b, ha, hb, hw⟩ := calcExpr_bin_ok h
    obtain rfl : n.val = a := Except.ok.inj ((digit_calc vars n).symm.trans ha)
    have hb := ih hb
    cases o with
    | add | sub | mul | div =>
      obtain rfl | ⟨h3, _⟩ := hb
      · cases n <;> exact .inl (Except.ok.inj hw).symm
      · cases h3
    | mod =>
      obtain rfl | ⟨_, rfl⟩ := hb
      · cases n
        · exact .inl (Except.ok.inj hw).symm
        · exact .inl (Except.ok.inj hw).symm
        · exact .inl (Except.ok.inj hw).symm
        · exact .inr ⟨rfl, (Except.ok.inj hw).symm⟩
      · cases hw

theorem exact_closeTree_congr {ctx : Option (Cfexpr × BinOp)}
    (h : e.exact vars = e'.exact vars) : (closeTree ctx e).exact vars = (closeTree ctx e').exact vars := by
  cases ctx with
  | none => exact h
  | some p =>
    unfold closeTree Cfexpr.exact
    rw [h]

/-- The standard value of a digit before neutral operands. -/
theorem exact_neutral {s : Int} (hprod : (closeTree prod (digit n).standard).exact vars = some p) (hp : 0 ≤ p ∧ p < 3)
    (hsum : (closeTree sum (closeTree prod (digit n).standard)).exact vars = some s) :
    ((neutral n r).standardGo sum prod).exact vars = some s := by
  induction r generalizing n sum prod p with
  | nil => exact hsum
  | cons o r ih =>
    have hs := Cfexpr.exact_inLong hsum
    unfold neutral Chain.standardGo
    by_cases ho : o.isMul = true
    · rw [if_pos ho]
      have hunit : (closeTree (some (closeTree prod (digit n).standard, o)) (digit o.unit).standard).exact vars = some p :=
        exact_bin_eq_some.mpr ⟨p, hprod, _, digit_exact vars o.unit, BinOp.exact_unit hp ho⟩
      refine ih hunit hp ?_
      rw [exact_closeTree_congr (hunit.trans hprod.symm)]
      exact hsum
    · rw [if_neg ho]
      refine ih (p := 0) ?_ (by omega) ?_
      · cases o with
        | add | sub => rfl
        | mul | div | mod => exact (ho rfl).elim
      · refine exact_bin_eq_some.mpr ⟨s, hsum, 0, ?_, ?_⟩
        · cases o with
          | add | sub => rfl
          | mul | div | mod => exact (ho rfl).elim
        · cases o with
          | add => exact within_eq_some.mpr ⟨Int.add_zero s, by rwa [Int.add_zero]⟩
          | sub => exact within_eq_some.mpr ⟨Int.sub_zero s, by rwa [Int.sub_zero]⟩
          | mul | div | mod => exact (ho rfl).elim

/-- The chain has the standard value `v`, and the parser's tree has none that is congruent to it. -/
structure Spoilt (c : Chain) (v : Int) : Prop where
  good : c.operandsGood
  bounds : -3 ≤ v ∧ v ≤ 3
  standard : ∀ vars, c.standard.exact vars = some v
  apart : ∀ vars w, calcExpr vars c.tree = .ok w → ¬w ≡ v [ZMOD 2 ^ 64]

theorem Spoilt.not_meansStandard (h : Spoilt c v) : ¬c.meansStandard := by
  intro hstd
  have hok := hstd (.ofGlobals []) v (h.standard _)
  rw [parseExpr_tokens] at hok
  exact h.apart _ v (Option.some.inj hok) rfl

theorem BinOp.calc_inLong (ha : inLong a) (h : o.calc a b = .ok w) : inLong w := by
  cases o with
  | add | sub | mul => exact Except.ok.inj h ▸ wrap64_inLong _
  | div =>
    simp only [BinOp.calc] at h
    split at h
    · cases h
    split at h
    · cases h
    · next hq => exact Except.ok.inj h ▸ (tdiv_inLong_iff ha).mpr hq
  | mod =>
    simp only [BinOp.calc] at h
    split at h
    · cases h
    · exact Except.ok.inj h ▸ tmod_inLong ha b

/-! #### Three operands -/

/-- A digit and two others that are nested the wrong way. -/
theorem spoilt_head {a b : Digit} (r : List BinOp) (ho : o.isMul = true) (hn : n.val < 3)
    (hstd : (o.exact a.val b.val).bind (o'.exact · n.val) = some v) (hv : -3 ≤ v ∧ v ≤ 3)
    (hmul : o'.isMul = true → 0 ≤ v ∧ v < 3) (hcalc : (o'.calc b.val n.val >>= (o.calc a.val ·)) ≠ .ok v) :
    Spoilt (.cons (digit a) o (.cons (digit b) o' (neutral n r))) v := by
  refine ⟨⟨trivial, trivial, neutral_operandsGood n r⟩, hv, ?_, ?_⟩
  · intro vars
    obtain ⟨q, hq, hqv⟩ := Option.bind_eq_some_iff.mp hstd
    have hab : (Cfexpr.bin o (digit a).standard (digit b).standard).exact vars = some q :=
      exact_bin_eq_some.mpr ⟨_, digit_exact vars a, _, digit_exact vars b, hq⟩
    have habn : (closeTree (some (Cfexpr.bin o (digit a).standard (digit b).standard, o')) (digit n).standard).exact vars
        = some v := exact_bin_eq_some.mpr ⟨q, hab, _, digit_exact vars n, hqv⟩
    unfold Chain.standard Chain.standardGo Chain.standardGo
    rw [if_pos ho]
    by_cases ho' : o'.isMul = true
    · rw [if_pos ho']
      exact exact_neutral habn (hmul ho') habn
    · rw [if_neg ho']
      exact exact_neutral (digit_exact vars n) ⟨by cases n <;> decide, hn⟩ habn
  · intro vars w hw hmod
    obtain ⟨x, y, hx, hy, hxy⟩ := calcExpr_bin_ok hw
    obtain ⟨x', y', hx', hy', hxy'⟩ := calcExpr_bin_ok hy
    obtain rfl : a.val = x := Except.ok.inj ((digit_calc vars a).symm.trans hx)
    obtain rfl : b.val = x' := Except.ok.inj ((digit_calc vars b).symm.trans hx')
    obtain rfl : y' = n.val := (calc_neutral hy').resolve_right fun h3 => by rw [h3.1] at hn; revert hn; decide
    have hwv : w = v := eq_of_modEq (BinOp.calc_inLong (digit_inLong a) hxy)
      (by unfold inLong longMin longMax; omega) hmod
    apply hcalc
    rw [hxy', ← hwv]
    exact hxy

/-- A product with another operator than `*` behind its first. -/
theorem exists_spoilt_head (r : List BinOp) (ho : o.isMul = true) (hne : ¬(o = .mul ∧ o' = .mul)) :
    ∃ c v, c.ops = o :: o' :: r ∧ Spoilt c v := by
  have found (a b n : Digit) (v : Int) (h : Spoilt (.cons (digit a) o (.cons (digit b) o' (neutral n r))) v) :
      ∃ c v, c.ops = o :: o' :: r ∧ Spoilt c v := by
    refine ⟨_, v, ?_, h⟩
    simp only [Chain.ops, neutral_ops]
  cases o with
  | add | sub => cases ho
  | mul =>
    cases o' with
    | add => exact found .two .one .one 3 (spoilt_head r rfl (by decide) rfl (by decide) nofun nofun)
    | sub => exact found .two .one .one 1 (spoilt_head r rfl (by decide) rfl (by decide) nofun nofun)
    | mul => exact (hne ⟨rfl, rfl⟩).elim
    | div => exact found .two .one .two 1 (spoilt_head r rfl (by decide) rfl (by decide) (by decide) nofun)
    | mod => exact found .two .one .two 0 (spoilt_head r rfl (by decide) rfl (by decide) (by decide) nofun)
  | div =>
    cases o' with
    | add => exact found .one .one .one 2 (spoilt_head r rfl (by decide) rfl (by decide) nofun nofun)
    | sub => exact found .one .one .one 0 (spoilt_head r rfl (by decide) rfl (by decide) nofun nofun)
    | mul => exact found .one .one .two 2 (spoilt_head r rfl (by decide) rfl (by decide) (by decide) nofun)
    | div => exact found .one .one .two 0 (spoilt_head r rfl (by decide) rfl (by decide) (by decide) nofun)
    | mod => exact found .one .one .one 0 (spoilt_head r rfl (by decide) rfl (by decide) (by decide) nofun)
  | mod =>
    cases o' with
    | add => exact found .zero .one .one 1 (spoilt_head r rfl (by decide) rfl (by decide) nofun nofun)
    | sub => exact found .zero .one .one (-1) (spoilt_head r rfl (by decide) rfl (by decide) nofun nofun)
    | mul => exact found .one .two .two 2 (spoilt_head r rfl (by decide) rfl (by decide) (by decide) nofun)
    | div => exact found .one .one .two 0 (spoilt_head r rfl (by decide) rfl (by decide) (by decide) nofun)
    | mod => exact found .one .two .two 1 (spoilt_head r rfl (by decide) rfl (by decide) (by decide) nofun)

/-! #### Operands in front -/

/-- A tree that has the value of another wherever that one has any. -/
def Cfexpr.refines (vars : Variables) (e e' : Cfexpr) : Prop := ∀ v, e.exact vars = some v → e'.exact vars = some v

theorem standardGo_refines : ∀ {c : Chain} {sum sum' prod prod' : Option (Cfexpr × BinOp)},
    (∀ e e', Cfexpr.refines vars e e' → (closeTree sum e).refines vars (closeTree sum' e')) →
    (∀ e e', Cfexpr.refines vars e e' → (closeTree prod e).refines vars (closeTree prod' e')) →
    (c.standardGo sum prod).refines vars (c.standardGo sum' prod')
  | .one x, sum, sum', prod, prod', hsum, hprod => hsum _ _ (hprod _ _ fun _ h => h)
  | .cons x o rest, sum, sum', prod, prod', hsum, hprod => by
    have hbin {l l' : Cfexpr} (hl : l.refines vars l') (e e' : Cfexpr) (he : e.refines vars e') :
        (Cfexpr.bin o l e).refines vars (.bin o l' e') := by
      intro v hv
      obtain ⟨a, ha, b, hb, hab⟩ := exact_bin_eq_some.mp hv
      exact exact_bin_eq_some.mpr ⟨a, hl a ha, b, he b hb, hab⟩
    have hx := hprod x.standard x.standard fun _ h => h
    unfold Chain.standardGo
    split
    · exact standardGo_refines hsum (hbin hx)
    · exact standardGo_refines (hbin (hsum _ _ hx)) fun _ _ h => h

/-- `0 +` or `1 *` in front. -/
theorem Spoilt.neutral {n : Digit} (h : Spoilt c v) (hn : n = .zero ∧ o = .add ∨ n = .one ∧ o = .mul) :
    Spoilt (.cons (digit n) o c) v := by
  have hexact : ∀ b, inLong b → o.exact n.val b = some b := by
    rcases hn with ⟨rfl, rfl⟩ | ⟨rfl, rfl⟩ <;> intro b hb
    · exact within_eq_some.mpr ⟨Int.zero_add b, (Int.zero_add b).symm ▸ hb⟩
    · exact within_eq_some.mpr ⟨Int.one_mul b, (Int.one_mul b).symm ▸ hb⟩
  have hcalc : ∀ b, o.calc n.val b = .ok (wrap64 b) := by
    rcases hn with ⟨rfl, rfl⟩ | ⟨rfl, rfl⟩ <;> intro b
    · exact congrArg (Except.ok <| wrap64 ·) (Int.zero_add b)
    · exact congrArg (Except.ok <| wrap64 ·) (Int.one_mul b)
  have hclose (vars : Variables) (e e' : Cfexpr) (he : e.refines vars e') :
      e.refines vars (.bin o (digit n).standard e') := fun w hw =>
    exact_bin_eq_some.mpr ⟨n.val, digit_exact vars n, w, he w hw, hexact w (Cfexpr.exact_inLong hw)⟩
  refine ⟨⟨trivial, h.good⟩, h.bounds, fun vars => ?_, fun vars w hw hmod => ?_⟩
  · rcases hn with ⟨rfl, rfl⟩ | ⟨rfl, rfl⟩
    · have href : (c.standardGo none none).refines vars (c.standardGo (some (_, .add)) none) :=
        standardGo_refines (hclose vars) fun _ _ he => he
      exact href v (h.standard vars)
    · have href : (c.standardGo none none).refines vars (c.standardGo none (some (_, .mul))) :=
        standardGo_refines (fun _ _ he => he) (hclose vars)
      exact href v (h.standard vars)
  · obtain ⟨x, y, hx, hy, hxy⟩ := calcExpr_bin_ok hw
    obtain rfl : n.val = x := Except.ok.inj ((digit_calc vars n).symm.trans hx)
    obtain rfl : wrap64 y = w := Except.ok.inj ((hcalc y).symm.trans hxy)
    exact h.apart vars y hy ((wrap64_modEq y).symm.trans hmod)

/-- `0 -` in front of a product. -/
theorem Spoilt.zero_sub (h : Spoilt c v) (hmul : ∀ o ∈ c.ops, o.isMul) : Spoilt (.cons (digit .zero) .sub c) (-v) := by
  have hv := h.bounds
  refine ⟨⟨trivial, h.good⟩, by omega, ?_, ?_⟩
  · intro vars
    unfold Chain.standard Chain.standardGo
    rw [if_neg (by decide), standardGo_of_mul hmul]
    refine exact_bin_eq_some.mpr ⟨0, digit_exact vars .zero, v, h.standard vars, within_eq_some.mpr ⟨Int.zero_sub v, ?_⟩⟩
    unfold inLong longMin longMax
    omega
  · intro vars w hw hmod
    obtain ⟨x, y, hx, hy, hxy⟩ := calcExpr_bin_ok hw
    obtain rfl : (0 : Int) = x := Except.ok.inj ((digit_calc vars .zero).symm.trans hx)
    obtain rfl : wrap64 (0 - y) = w := Except.ok.inj hxy
    rw [Int.zero_sub] at hmod
    exact h.apart vars y hy (Int.neg_modEq_neg.mp ((wrap64_modEq (-y)).symm.trans hmod))

/-! #### A sum behind a minus -/

/-- A digit, ones up to the first additive operator and behind it, and neutral operands. -/
def late (n : Digit) : List BinOp → Chain
  | [] => .one (digit n)
  | o :: r => .cons (digit n) o (if o.isMul then late .one r else neutral .one r)

/-- What the first additive operator makes of a one. -/
def firstSign : List BinOp → Int
  | [] => 0
  | .add :: _ => 1
  | .sub :: _ => -1
  | _ :: r => firstSign r

theorem firstSign_cases (r : List BinOp) : firstSign r = 1 ∨ firstSign r = -1 ∨ ∀ o ∈ r, o.isMul := by
  induction r with
  | nil => exact .inr (.inr fun _ h => nomatch h)
  | cons o r ih =>
    cases o with
    | add => exact .inl rfl
    | sub => exact .inr (.inl rfl)
    | mul | div | mod =>
      refine ih.imp_right (Or.imp_right fun h => ?_)
      exact List.forall_mem_cons.mpr ⟨rfl, h⟩

@[simp] theorem late_ops (n : Digit) (r : List BinOp) : (late n r).ops = r := by
  induction r generalizing n with
  | nil => rfl
  | cons o r ih =>
    unfold late Chain.ops
    split
    · rw [ih]
    · rw [neutral_ops]

theorem late_operandsGood (n : Digit) (r : List BinOp) : (late n r).operandsGood := by
  induction r generalizing n with
  | nil => trivial
  | cons o r ih =>
    refine ⟨trivial, ?_⟩
    split
    · exact ih .one
    · exact neutral_operandsGood .one r

/-- The first product and the sum before it are zero. -/
theorem exact_late (hprod : (closeTree prod (digit n).standard).exact vars = some 0)
    (hsum : ∀ e, e.exact vars = some 0 → (closeTree sum e).exact vars = some 0) :
    ((late n r).standardGo sum prod).exact vars = some (firstSign r) := by
  induction r generalizing n prod with
  | nil => exact hsum _ hprod
  | cons o r ih =>
    have hone : (digit .one).standard.exact vars = some 1 := digit_exact vars .one
    unfold late Chain.standardGo
    cases o with
    | add | sub => exact exact_neutral hone (by decide) (exact_bin_eq_some.mpr ⟨0, hsum _ hprod, 1, hone, rfl⟩)
    | mul | div | mod => exact ih (exact_bin_eq_some.mpr ⟨0, hprod, 1, hone, rfl⟩)

/-- Nested to the right, a zero before a product makes it zero, and a zero before a one leaves that one. -/
theorem calc_late {y : Int} (h : calcExpr vars (late .zero r).tree = .ok y) : y = 0 ∨ y = firstSign r := by
  cases r with
  | nil => exact .inl (Except.ok.inj ((digit_calc vars .zero).symm.trans h)).symm
  | cons o r =>
    obtain ⟨a, b, ha, hb, hab⟩ := calcExpr_bin_ok h
    obtain rfl : (0 : Int) = a := Except.ok.inj ((digit_calc vars .zero).symm.trans ha)
    cases o with
    | add | sub =>
      obtain rfl : b = 1 := (calc_neutral hb).resolve_right fun h3 => nomatch h3.1
      exact .inr (Except.ok.inj hab).symm
    | mul =>
      simp only [BinOp.calc, Int.zero_mul] at hab
      exact .inl (Except.ok.inj hab).symm
    | div =>
      simp only [BinOp.calc, Int.zero_tdiv] at hab
      split at hab
      · cases hab
      split at hab
      · cases hab
      · exact .inl (Except.ok.inj hab).symm
    | mod =>
      simp only [BinOp.calc, Int.zero_tmod] at hab
      split at hab
      · cases hab
      · exact .inl (Except.ok.inj hab).symm

/-- `0 - 0` in front of a sum. -/
theorem spoilt_late (hr : ¬∀ o ∈ r, o.isMul) : Spoilt (.cons (digit .zero) .sub (late .zero r)) (firstSign r) := by
  have hsign : firstSign r = 1 ∨ firstSign r = -1 :=
    (firstSign_cases r).imp_right fun h => h.resolve_right hr
  refine ⟨⟨trivial, late_operandsGood .zero r⟩, by omega, ?_, ?_⟩
  · intro vars
    have hzero : (digit .zero).standard.exact vars = some 0 := digit_exact vars .zero
    refine exact_late hzero fun e he => ?_
    exact exact_bin_eq_some.mpr ⟨0, hzero, 0, he, rfl⟩
  · intro vars w hw
    obtain ⟨x, y, hx, hy, hxy⟩ := calcExpr_bin_ok hw
    obtain rfl : (0 : Int) = x := Except.ok.inj ((digit_calc vars .zero).symm.trans hx)
    obtain rfl : wrap64 (0 - y) = w := Except.ok.inj hxy
    obtain rfl | rfl := calc_late hy
    · obtain h | h := hsign <;> rw [h] <;> decide
    · obtain h | h := hsign <;> rw [h] <;> decide

/-- Every other sequence of operators is spoilt by some digits. -/
theorem exists_spoilt : ∀ ops : List BinOp, ¬goodOps ops → ∃ c v, c.ops = ops ∧ Spoilt c v
  | [], h => (h trivial).elim
  | .add :: r, h => by
    obtain ⟨c, v, rfl, hc⟩ := exists_spoilt r h
    exact ⟨_, v, rfl, hc.neutral (.inl ⟨rfl, rfl⟩)⟩
  | .sub :: r, h => by
    by_cases hmul : ∀ o ∈ r, o.isMul
    · obtain ⟨c, v, rfl, hc⟩ := exists_spoilt r fun hr => h ⟨hmul, hr⟩
      exact ⟨_, -v, rfl, hc.zero_sub hmul⟩
    · refine ⟨_, _, ?_, spoilt_late hmul⟩
      simp only [Chain.ops, late_ops]
  | [.mul], h => (h fun _ hmem => nomatch hmem).elim
  | .mul :: .mul :: r, h => by
    obtain ⟨c, v, hc, hs⟩ := exists_spoilt (.mul :: r) fun hr => h (List.forall_mem_cons.mpr ⟨rfl, hr⟩)
    exact ⟨_, v, congrArg _ hc, hs.neutral (.inr ⟨rfl, rfl⟩)⟩
  | .mul :: .add :: r, _ | .mul :: .sub :: r, _ | .mul :: .div :: r, _ | .mul :: .mod :: r, _ =>
    exists_spoilt_head r rfl nofun
  | [.div], h | [.mod], h => (h rfl).elim
  | .div :: o' :: r, _ | .mod :: o' :: r, _ => exists_spoilt_head r rfl nofun

/-! ## The expansion -/

/-- **What arithmetic expansion means.** The grammar derives the chains and no other sequence. A sequence of operators
    stands for its standard meaning, whatever its operands are, exactly when it is good. -/
theorem expansion_standard_iff (ts : List ExprToken) (ops : List BinOp) :
    (Derives ts ↔ ∃ c : Chain, c.tokens = ts) ∧
    ((∀ c : Chain, c.ops = ops → c.operandsGood → c.meansStandard) ↔ goodOps ops) := by
  refine ⟨derives_iff, fun h => ?_, ?_⟩
  · by_contra hbad
    obtain ⟨c, v, hops, hc⟩ := exists_spoilt ops hbad
    exact hc.not_meansStandard (h c hops hc.good)
  · rintro hgood c rfl hc
    exact c.meansStandard_of_good hgood hc

/-- `$((5 - 2 - 1))` has the standard value 2; it is expanded to 4. -/
theorem expansion_nested_right :
    Derives [.number "5", .op .sub, .number "2", .op .sub, .number "1"] ∧
    (Chain.cons (.num false "5") .sub (.cons (.num false "2") .sub (.one (.num false "1")))).standard.exact
      (.ofGlobals initGlobalVars) = some 2 ∧
    (parseExpr [.number "5", .op .sub, .number "2", .op .sub, .number "1"]).map
      (calcExpr (.ofGlobals initGlobalVars)) = some (.ok 4) := by
  refine ⟨.bin (l := [.number "5"]) .sub (.number "5") (.bin (l := [.number "2"]) .sub (.number "2") (.number "1")), ?_, ?_⟩
  · rfl
  · rfl

end Bmd
