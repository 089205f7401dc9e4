import WindowFold.DataType

/-!
Run-time values.

Whole numbers and doubles are different values even when they are equal in size.  A double held
by a value is finite: `ofFloat` reads every other one as NULL.
-/

namespace WindowFold

inductive Value where
  | null
  | bool (b : Bool)
  | int (n : Int)
  | float (x : Float)
  | string (s : String)
  | array (items : List Value)
  | object (fields : List (String × Value))
  deriving Repr, Inhabited

/-- A whole number that fits a signed word of 64 bits. -/
abbrev IsWord (n : Int) : Prop := -0x8000000000000000 ≤ n ∧ n < 0x8000000000000000

/-- The double nearest to a whole number of at most 64 bits. -/
def wordToFloat (n : Int) : Float :=
  if n < 0 then -(n.natAbs.toUInt64.toFloat) else n.natAbs.toUInt64.toFloat

namespace Value

def ofFloat (x : Float) : Value := if x.isFinite then .float x else .null

/-- Put a field into fields sorted by name; a name already there gets the new value. -/
def insertField (name : String) (v : Value) : List (String × Value) → List (String × Value)
  | [] => [(name, v)]
  | (n, w) :: rest =>
    if name = n then (n, v) :: rest
    else if name < n then (name, v) :: (n, w) :: rest
    else (n, w) :: insertField name v rest

/-- An object from its fields as they were read, the last of equally named ones winning. -/
def ofFields (fields : List (String × Value)) : Value :=
  .object (fields.foldl (fun acc f => insertField f.1 f.2 acc) [])

def dataType : Value → DataType
  | .null => .null
  | .bool _ => .bool
  | .int _ => .int
  | .float _ => .float
  | .string _ => .string
  | .array _ => .array
  | .object _ => .any

/-- The number behind a value as a signed word, if it is one. -/
def word? : Value → Option Int
  | .int n => if IsWord n then some n else none
  | _ => none

/-- The number behind a value as a double. -/
def float? : Value → Option Float
  | .int n => some (wordToFloat n)
  | .float x => some x
  | _ => none

end Value
end WindowFold
