import Multiparty.Expr.Basic

/-!
# Rendering of expressions

Operators are written without blanks.  An operand is parenthesised when it
binds more loosely than the operator around it; a right operand, and either
bound of a range, also when it binds equally tightly.
-/

namespace Multiparty

/-- How tightly an operator binds. -/
def Operator.level : Operator → Nat
  | .shl | .shr => 2
  | .add | .sub => 3
  | .mul | .div | .mod => 4

namespace Expr

/-- How tightly the outermost constructor of an expression binds. -/
def level : Expr → Nat
  | seq .. => 0
  | range .. => 1
  | binary op .. => op.level
  | lit _ | var _ => 5

/-- Wrap a text in parentheses when they are `needed`. -/
def parenthesize (needed : Bool) (text : String) : String :=
  if needed then "(" ++ text ++ ")" else text

/-- The text of an expression. -/
def render : Expr → String
  | lit value => toString value.toInt
  | var name => name
  | binary op left right =>
      parenthesize (left.level < op.level) left.render ++ op.symbol ++
        parenthesize (right.level ≤ op.level) right.render
  | seq first second =>
      first.render ++ "," ++ parenthesize (second.level ≤ 0) second.render
  | range low high =>
      parenthesize (low.level ≤ 1) low.render ++ ".." ++
        parenthesize (high.level ≤ 1) high.render

/-- The texts of several dimensions, each in brackets. -/
def renderIndices (dimensions : List Expr) : String :=
  String.join (dimensions.map fun expression => "[" ++ expression.render ++ "]")

end Expr

/-- The text of an evaluation error. -/
def EvalError.message : EvalError → String
  | .unbound name => s!"Variable {name} is not bound"
  | .arithmetic cause => cause.message
  | .notScalar expression =>
      s!"Expression {expression.render} does not denote a single integer"

end Multiparty
