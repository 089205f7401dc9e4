import WindowFold.Expr.Text
import WindowFold.Value.Text

/-!
Why the run of a block stops.
-/

namespace WindowFold

inductive RunError where
  | unboundFact (f : Fact)
  | rowOutside (row : Value) (rows : Nat)
  | argumentOutside (index arity : Nat)
  | unsetSlot (slot : SlotId)
  | unsetLocal (var : LocalId)
  | divisionByZero
  | notList (slot : SlotId) (held : Value)
  | notBoolean (found : Value)
  | badOperand (op : UnaryOp) (found : Value)
  | badOperands (op : ArithOp) (left right : Value)
  | negationOverflow
  | arithmeticOverflow
  | incomparable (left right : Value)
  | unordered
  deriving Repr

def UnaryOp.name : UnaryOp → String
  | .not => "Not"
  | .neg => "Neg"
  | .isNull => "IsNull"
  | .isNotNull => "IsNotNull"

def ArithOp.name : ArithOp → String
  | .add => "Add"
  | .sub => "Sub"
  | .mul => "Mul"
  | .div => "Div"

def RunError.message : RunError → String
  | .unboundFact f => "frame input " ++ f.text ++ " is not bound"
  | .rowOutside row rows =>
    "row " ++ row.text ++ " outside partition of " ++ toString rows ++ " row(s)"
  | .argumentOutside index arity =>
    "argument " ++ toString index ++ " out of range for row with " ++ toString arity ++ " value(s)"
  | .unsetSlot s => "accumulator slot " ++ s.text ++ " read before reset"
  | .unsetLocal v => v.text ++ " read before declaration"
  | .divisionByZero => "division by zero"
  | .notList s v => "type mismatch: " ++ s.text ++ " holds " ++ v.text ++ " not a list"
  | .notBoolean v => "type mismatch: expected boolean, got " ++ v.text
  | .badOperand op v => "type mismatch: " ++ op.name ++ " on " ++ v.text
  | .badOperands op l r => "type mismatch: " ++ l.text ++ " " ++ op.name ++ " " ++ r.text
  | .negationOverflow => "type mismatch: overflow in negation"
  | .arithmeticOverflow => "type mismatch: overflow in integer arithmetic"
  | .incomparable l r => "type mismatch: cannot compare " ++ l.text ++ " with " ++ r.text
  | .unordered => "type mismatch: NaN in comparison"

end WindowFold
