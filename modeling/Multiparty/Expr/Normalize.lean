import Multiparty.Expr.Basic

/-!
# Normalisation of expressions

`Expr.normalize` brings indices that differ by the order and grouping of their
literals, such as `1+i` and `i+1`, to one form.  Arithmetic stays checked: an
operation on literals that has no result is left in place.

* An operation on two literals is replaced by its result.
* `x-c` becomes `x+(-c)`, unless `-c` is out of range.
* A literal operand of `+` or `*` stands on the right, and
  `(x op a) op b` becomes `x op (a op b)` when `a op b` has a result.
* `x+0`, `x-0`, `x*1`, `x/1`, `x<<0` and `x>>0` become `x`, and `x*0` becomes `0`.
-/

namespace Multiparty

namespace Expr

/-- An operation on two literals: its result, or itself if it has none. -/
def fold (op : Operator) (left right : Int64) : Expr :=
  match op.apply left right with
  | .ok value => lit value
  | .error _ => binary op (lit left) (lit right)

/-- What `operand op constant` is by a unit or zero law of the operator. -/
def cancel? (op : Operator) (operand : Expr) (constant : Int64) : Option Expr :=
  match op with
  | .add | .sub | .shl | .shr => if constant = 0 then some operand else none
  | .mul =>
      if constant = 1 then some operand
      else if constant = 0 then some (lit 0)
      else none
  | .div => if constant = 1 then some operand else none
  | .mod => none

/-- The normal form of `operand op constant` for a commutative operator and a
normal operand.  The constant is merged with the literal that ends the operand,
as often as the merged literal again meets another one. -/
def attach (op : Operator) : Expr → Int64 → Expr
  | lit value, constant => fold op value constant
  | binary inner left (lit last), constant =>
      match cancel? op (binary inner left (lit last)) constant with
      | some cancelled => cancelled
      | none =>
          if inner = op then
            match op.apply last constant with
            | .ok merged => attach op left merged
            | .error _ => binary op (binary inner left (lit last)) (lit constant)
          else
            binary op (binary inner left (lit last)) (lit constant)
  | operand, constant =>
      (cancel? op operand constant).getD (binary op operand (lit constant))

/-- The normal form of an operation on normal operands. -/
def rebuild : Operator → Expr → Expr → Expr
  | op, lit left, lit right => fold op left right
  | .sub, left, lit constant =>
      match fit? (-constant.toInt) with
      | some negated => attach .add left negated
      | none => binary .sub left (lit constant)
  | op, lit constant, right =>
      if op.isCommutative then attach op right constant
      else binary op (lit constant) right
  | op, left, lit constant =>
      if op.isCommutative then attach op left constant
      else (cancel? op left constant).getD (binary op left (lit constant))
  | op, left, right => binary op left right

/-- The normal form of an expression. -/
def normalize : Expr → Expr
  | lit value => lit value
  | var name => var name
  | binary op left right => rebuild op left.normalize right.normalize
  | seq first second => seq first.normalize second.normalize
  | range low high => range low.normalize high.normalize

end Expr

end Multiparty
