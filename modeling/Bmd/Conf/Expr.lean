import Bmd.Conf.Variables
import Bmd.Lib.Long

/-!
# `Conf.Expr` — arithmetic expansion (`confparse.y`, `calc_expr`)

The rules for `expr` declare no precedence. After `expr op expr` the generated parser could reduce or shift the next
operator; it shifts, so operators wait on the stack until the closing parenthesis or the end of the expansion, and
are then reduced from the last one back to the first.
-/

namespace Bmd

open Lib

/-! ## Syntax -/

/-- The operators of `expr op expr`. -/
inductive BinOp where
  | add | sub | mul | div | mod
  deriving DecidableEq, Repr

/-- The tokens between `$((` and `))`. The operator `-` is also the unary minus. -/
inductive ExprToken where
  | number (val : String)
  | var (key : String)
  | op (o : BinOp)
  | lpar
  | rpar
  deriving DecidableEq, Repr

/-- `struct cfexpr`; the operator `~` is `neg`. -/
inductive Cfexpr where
  | num (val : String)
  | var (key : String)
  | neg (left : Cfexpr)
  | bin (op : BinOp) (left right : Cfexpr)
  deriving DecidableEq, Repr

/-! ## The parser -/

/-- The symbols on the parser's stack. A `-` that is shifted where an operand may begin is the unary one. -/
inductive ExprSym where
  | neg
  | op (o : BinOp)
  | lpar
  | expr (e : Cfexpr)
  deriving DecidableEq, Repr

/-- The reductions by `expr : expr op expr`, with `e` on top of the stack. -/
def reduceExpr (e : Cfexpr) : List ExprSym → Cfexpr × List ExprSym
  | .op o :: .expr l :: rest => reduceExpr (.bin o l e) rest
  | stack => (e, stack)

/-- An operand is complete: it is an `expr` of its own, or with the minus before it. -/
def pushOperand (e : Cfexpr) : List ExprSym → Option (List ExprSym)
  | .expr _ :: _ => none
  | .neg :: rest => some (.expr (.neg e) :: rest)
  | stack => some (.expr e :: stack)

/-- What the parser does on a token; `none` is a syntax error. -/
def shiftExpr (stack : List ExprSym) : ExprToken → Option (List ExprSym)
  | .number val => pushOperand (.num val) stack
  | .var key => pushOperand (.var key) stack
  | .op o =>
    match stack with
    | .expr _ :: _ => some (.op o :: stack)
    | .neg :: _ => none
    | _ => if o = .sub then some (.neg :: stack) else none
  | .lpar =>
    match stack with
    | .expr _ :: _ => none
    | _ => some (.lpar :: stack)
  | .rpar =>
    match stack with
    | .expr e :: rest =>
      match reduceExpr e rest with
      | (e, .lpar :: rest) => pushOperand e rest
      | _ => none
    | _ => none

/-- The tree for the tokens of an expansion. -/
def parseExpr (tokens : List ExprToken) : Option Cfexpr :=
  match tokens.foldlM shiftExpr [] with
  | some (.expr e :: rest) =>
    match reduceExpr e rest with
    | (e, []) => some e
    | _ => none
  | _ => none

/-! ## Evaluation -/

/-- How an evaluation ends without a value: `calc_expr` returns -1, or the processor traps. -/
inductive CalcStop where
  | error
  | trap
  deriving DecidableEq, Repr

/-- The quotient of the least `long` and -1 is no `long`; the division instruction traps on it. -/
def divTraps (a b : Int) : Prop := a = longMin ∧ b = -1

instance (a b : Int) : Decidable (divTraps a b) := inferInstanceAs (Decidable (a = longMin ∧ b = -1))

/-- The operators on `long`. Only `/` is protected against a zero divisor. -/
def BinOp.calc (a b : Int) : BinOp → Except CalcStop Int
  | .add => .ok (wrap64 (a + b))
  | .sub => .ok (wrap64 (a - b))
  | .mul => .ok (wrap64 (a * b))
  | .div => if b = 0 then .error .error else if divTraps a b then .error .trap else .ok (a.tdiv b)
  | .mod => if b = 0 ∨ divTraps a b then .error .trap else .ok (a.tmod b)

/-- A number, or the text of a variable. -/
def calcNumber (text : String) : Except CalcStop Int :=
  match strtolAll 0 text with
  | none => .error .error
  | some n => .ok n

/-- `calc_expr`. -/
def calcExpr (vars : Variables) : Cfexpr → Except CalcStop Int
  | .num val => calcNumber val
  | .var key =>
    match vars.getVar key with
    | none => .error .error
    | some val => calcNumber val
  | .neg left => do
    let left ← calcExpr vars left
    return wrap64 (-1 * left)
  | .bin op left right => do
    let left ← calcExpr vars left
    let right ← calcExpr vars right
    op.calc left right

end Bmd
