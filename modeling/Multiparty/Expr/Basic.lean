import Multiparty.Expr.Operator
import Multiparty.SortedList

/-!
# Parameter expressions

Expressions index role families (`Worker[i+1]`), size payload arrays and bound
loops.  A range stands for every index between its bounds, both included; a
sequence juxtaposes two dimensions.  Only literals, variables and operators
denote a single integer, and `Expr.evaluate` computes it under an assignment of
the variables.
-/

namespace Multiparty

/-- Symbolic integer expressions. -/
inductive Expr where
  | lit (value : Int64)
  | var (name : String)
  | binary (op : Operator) (left right : Expr)
  | seq (first second : Expr)
  | range (low high : Expr)
  deriving DecidableEq

/-- A partial assignment of integers to variables. -/
abbrev Assignment := String → Option Int64

namespace Assignment

/-- The assignment that binds no variable. -/
def empty : Assignment := fun _ => none

/-- The assignment listed by `bindings`; the first binding of a name counts. -/
def ofList (bindings : List (String × Int64)) : Assignment :=
  fun name => bindings.lookup name

end Assignment

/-- Why an expression has no value. -/
inductive EvalError where
  | unbound (name : String)
  | arithmetic (cause : ArithmeticError)
  | notScalar (expression : Expr)
  deriving DecidableEq

namespace Expr

/-- The value of a scalar expression; operands are evaluated from the left. -/
def evaluate (assignment : Assignment) : Expr → Except EvalError Int64
  | lit value => .ok value
  | var name =>
      match assignment name with
      | some value => .ok value
      | none => .error (.unbound name)
  | binary op left right =>
      match left.evaluate assignment with
      | .error cause => .error cause
      | .ok leftValue =>
          match right.evaluate assignment with
          | .error cause => .error cause
          | .ok rightValue =>
              (op.apply leftValue rightValue).mapError .arithmetic
  | seq first second => .error (.notScalar (.seq first second))
  | range low high => .error (.notScalar (.range low high))

/-- The value of an expression that needs no variable. -/
def value? (expression : Expr) : Option Int64 :=
  (expression.evaluate .empty).toOption

/-- The variables of an expression from left to right, with repeats. -/
def vars : Expr → List String
  | lit _ => []
  | var name => [name]
  | binary _ left right | seq left right | range left right =>
      left.vars ++ right.vars

/-- The variables of an expression in increasing order, each once. -/
def freeVars (expression : Expr) : List String :=
  sortDistinct expression.vars

/-- No variable occurs. -/
def isClosed : Expr → Bool
  | lit _ => true
  | var _ => false
  | binary _ left right | seq left right | range left right =>
      left.isClosed && right.isClosed

theorem isClosed_iff_vars_eq_nil {expression : Expr} :
    expression.isClosed = true ↔ expression.vars = [] := by
  induction expression with
  | lit => simp [isClosed, vars]
  | var => simp [isClosed, vars]
  | binary _ left right leftIH rightIH => simp [isClosed, vars, leftIH, rightIH]
  | seq left right leftIH rightIH => simp [isClosed, vars, leftIH, rightIH]
  | range left right leftIH rightIH => simp [isClosed, vars, leftIH, rightIH]

theorem mem_freeVars {name : String} {expression : Expr} :
    name ∈ expression.freeVars ↔ name ∈ expression.vars :=
  mem_sortDistinct

end Expr

end Multiparty
