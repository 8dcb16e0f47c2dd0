/-!
# Checked integer operators

Parameters of roles, payloads and loops are 64-bit integers.  An operator
either yields the exact result or reports why there is none; the one exception
is the left shift, which keeps the low 64 bits of the shifted value.
-/

namespace Multiparty

/-- The 64-bit integer that denotes `value`, when `value` is in range. -/
def fit? (value : Int) : Option Int64 :=
  if Int64.minValue.toInt ≤ value ∧ value ≤ Int64.maxValue.toInt then
    some (Int64.ofInt value)
  else
    none

/-- A value fits exactly as the word that denotes it. -/
theorem fit?_eq_some_iff {value : Int} {word : Int64} :
    fit? value = some word ↔ word.toInt = value := by
  unfold fit?
  constructor
  · intro fits
    split at fits
    case isTrue bounds =>
      cases fits
      exact Int64.toInt_ofInt_of_le (by simpa using bounds.1)
        (Int.lt_add_one_of_le bounds.2)
    case isFalse => cases fits
  · intro denotes
    subst denotes
    rw [if_pos ⟨Int64.minValue_le_toInt word, Int64.toInt_le word⟩,
      Int64.ofInt_toInt]

/-- Binary arithmetic operators. -/
inductive Operator where
  | add
  | sub
  | mul
  | div
  | mod
  | shl
  | shr
  deriving DecidableEq

/-- Why an operator has no result. -/
inductive ArithmeticError where
  | overflow (op : Operator) (left right : Int64)
  | divisionByZero
  deriving DecidableEq

namespace Operator

/-- The sign written between the operands. -/
def symbol : Operator → String
  | add => "+"
  | sub => "-"
  | mul => "*"
  | div => "/"
  | mod => "%"
  | shl => "<<"
  | shr => ">>"

/-- Operators whose operands may be exchanged and regrouped. -/
def isCommutative : Operator → Bool
  | add | mul => true
  | _ => false

/-- The number of places of a shift, when it is less than the word size. -/
def shiftAmount? (amount : Int64) : Option Nat :=
  if 0 ≤ amount.toInt ∧ amount.toInt < 64 then some amount.toInt.toNat else none

/-- The result of an operator whose right operand is not a zero divisor.
Division truncates toward zero, and a remainder exists only together with its
quotient.  A left shift keeps the low 64 bits; a right shift rounds down. -/
def result? (left right : Int64) : Operator → Option Int64
  | add => fit? (left.toInt + right.toInt)
  | sub => fit? (left.toInt - right.toInt)
  | mul => fit? (left.toInt * right.toInt)
  | div => fit? (left.toInt.tdiv right.toInt)
  | mod =>
      (fit? (left.toInt.tdiv right.toInt)).bind fun _ =>
        fit? (left.toInt.tmod right.toInt)
  | shl =>
      (shiftAmount? right).map fun (places : Nat) =>
        Int64.ofInt (left.toInt <<< places)
  | shr =>
      (shiftAmount? right).map fun (places : Nat) =>
        Int64.ofInt (left.toInt >>> places)

/-- Operators that a zero on the right makes meaningless. -/
def divides : Operator → Bool
  | div | mod => true
  | _ => false

/-- Apply an operator, reporting division by zero and overflow. -/
def apply (op : Operator) (left right : Int64) :
    Except ArithmeticError Int64 :=
  if op.divides && right == 0 then
    .error .divisionByZero
  else
    match op.result? left right with
    | some value => .ok value
    | none => .error (.overflow op left right)

end Operator

/-- The text of an arithmetic error. -/
def ArithmeticError.message : ArithmeticError → String
  | .overflow op left right =>
      s!"Arithmetic overflow in {left.toInt} {op.symbol} {right.toInt}"
  | .divisionByZero => "Division by zero"

end Multiparty
