import Multiparty.Expr.Basic

/-!
# Overlap of expressions

Two expressions overlap when they may denote a common index under some
assignment of their variables.  The test is conservative: it answers `false`
only for extents that it can tell apart, namely two constant intervals that do
not meet, or two different constant distances from one variable.
-/

namespace Multiparty

/-- What is known of the indices denoted by a one-dimensional expression. -/
inductive Extent where
  | interval (low high : Int64)
  | shifted (name : String) (distance : Int64)
  | unknown
  deriving DecidableEq

namespace Extent

/-- Whether two extents may have a common index. -/
def overlaps : Extent → Extent → Bool
  | interval low₁ high₁, interval low₂ high₂ => low₁ ≤ high₂ && low₂ ≤ high₁
  | shifted name₁ distance₁, shifted name₂ distance₂ =>
      name₁ != name₂ || distance₁ == distance₂
  | _, _ => true

end Extent

namespace Expr

/-- The variable and the constant distance from it, for an expression that adds
constants to one variable and subtracts constants from it. -/
def offset? : Expr → Option (String × Int64)
  | var name => some (name, 0)
  | binary .add left right =>
      match right.value? with
      | some constant =>
          left.offset?.bind fun (name, distance) =>
            (fit? (distance.toInt + constant.toInt)).map (name, ·)
      | none =>
          left.value?.bind fun constant =>
            right.offset?.bind fun (name, distance) =>
              (fit? (distance.toInt + constant.toInt)).map (name, ·)
  | binary .sub left right =>
      right.value?.bind fun constant =>
        left.offset?.bind fun (name, distance) =>
          (fit? (distance.toInt - constant.toInt)).map (name, ·)
  | _ => none

/-- The extent of a scalar or a range. -/
def extent : Expr → Extent
  | range low high =>
      match low.value?, high.value? with
      | some lowValue, some highValue => .interval lowValue highValue
      | _, _ => .unknown
  | expression =>
      match expression.value? with
      | some value => .interval value value
      | none =>
          match expression.offset? with
          | some (name, distance) => .shifted name distance
          | none => .unknown

/-- Whether two expressions may denote a common index. -/
def overlaps : Expr → Expr → Bool
  | seq first₁ second₁, seq first₂ second₂ =>
      first₁.overlaps first₂ && second₁.overlaps second₂
  | left, right => left.extent.overlaps right.extent

/-- Overlap of dimensions that may be left open; an open one meets everything. -/
def overlapsOptional : Option Expr → Option Expr → Bool
  | some left, some right => left.overlaps right
  | _, _ => true

end Expr

end Multiparty
