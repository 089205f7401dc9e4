import WindowFold.Machine.Error

/-!
Operators on values.

Two signed words are added, compared and so on exactly, and a result that is no signed word is
an error.  As soon as one operand is anything else, a whole number beyond the signed words
included, both are read as doubles.  NULL passes through every operator but the tests for NULL.
-/

namespace WindowFold

def wordResult (n : Int) : Except RunError Value :=
  if IsWord n then .ok (.int n) else .error .arithmeticOverflow

/-- Division drops the fraction. -/
def ArithOp.words (op : ArithOp) (a b : Int) : Except RunError Value :=
  match op with
  | .add => wordResult (a + b)
  | .sub => wordResult (a - b)
  | .mul => wordResult (a * b)
  | .div => if b = 0 then .error .divisionByZero else wordResult (a.tdiv b)

def ArithOp.floats (op : ArithOp) (x y : Float) : Except RunError Value :=
  match op with
  | .add => .ok (.ofFloat (x + y))
  | .sub => .ok (.ofFloat (x - y))
  | .mul => .ok (.ofFloat (x * y))
  | .div => if y == 0 then .error .divisionByZero else .ok (.ofFloat (x / y))

def ArithOp.apply (op : ArithOp) (l r : Value) : Except RunError Value :=
  match l, r with
  | .null, _ | _, .null => .ok .null
  | _, _ =>
    match l.word?, r.word? with
    | some a, some b => op.words a b
    | _, _ =>
      match l.float?, r.float? with
      | some x, some y => op.floats x y
      | _, _ => .error (.badOperands op l r)

def CompareOp.holds (op : CompareOp) (o : Ordering) : Bool :=
  match op with
  | .eq => o.isEq
  | .ne => o.isNe
  | .lt => o.isLT
  | .le => o.isLE
  | .gt => o.isGT
  | .ge => o.isGE

def compareFloats (x y : Float) : Except RunError Ordering :=
  if x < y then .ok .lt
  else if x == y then .ok .eq
  else if y < x then .ok .gt
  else .error .unordered

/-- The order of two values of one kind, neither of them NULL. -/
def Value.order (l r : Value) : Except RunError Ordering :=
  match l, r with
  | .bool a, .bool b => .ok (compare a b)
  | .string s, .string t => .ok (compare s t)
  | _, _ =>
    match l.word?, r.word? with
    | some a, some b => .ok (compare a b)
    | _, _ =>
      match l.float?, r.float? with
      | some x, some y => compareFloats x y
      | _, _ => .error (.incomparable l r)

def CompareOp.apply (op : CompareOp) (l r : Value) : Except RunError Value :=
  match l, r with
  | .null, _ | _, .null => .ok .null
  | _, _ => (l.order r).map fun o => .bool (op.holds o)

/-- Three-valued truth, NULL being unknown. -/
def Value.truth : Value → Except RunError (Option Bool)
  | .bool b => .ok (some b)
  | .null => .ok none
  | v => .error (.notBoolean v)

def Value.ofTruth : Option Bool → Value
  | some b => .bool b
  | none => .null

/-- The truth value that decides the outcome whatever the other side is. -/
def LogicOp.absorbing : LogicOp → Bool
  | .and => false
  | .or => true

def LogicOp.combine (op : LogicOp) (a b : Option Bool) : Option Bool :=
  if a = some op.absorbing ∨ b = some op.absorbing then some op.absorbing
  else if a = none ∨ b = none then none
  else some (!op.absorbing)

def negate (v : Value) : Except RunError Value :=
  match v.word?, v.float? with
  | some n, _ => if IsWord (-n) then .ok (.int (-n)) else .error .negationOverflow
  | none, some x => .ok (.ofFloat (-x))
  | none, none => .error (.badOperand .neg v)

def UnaryOp.apply (op : UnaryOp) (v : Value) : Except RunError Value :=
  match op, v with
  | .isNull, .null => .ok (.bool true)
  | .isNull, _ => .ok (.bool false)
  | .isNotNull, .null => .ok (.bool false)
  | .isNotNull, _ => .ok (.bool true)
  | _, .null => .ok .null
  | .not, .bool b => .ok (.bool !b)
  | .not, v => .error (.badOperand .not v)
  | .neg, v => negate v

end WindowFold
