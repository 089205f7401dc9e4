/-!
Column types, ordered by promotion: an operand of either type can be read at the promoted one.
-/

namespace WindowFold

inductive DataType where
  | null
  | bool
  | int
  | float
  | string
  | array
  | any
  deriving DecidableEq, Repr

namespace DataType

def text : DataType → String
  | .null => "Null"
  | .bool => "Bool"
  | .int => "Int"
  | .float => "Float"
  | .string => "String"
  | .array => "Array"
  | .any => "Any"

def numeric : DataType → Bool
  | .int | .float => true
  | _ => false

/-- NULL takes the other side's type, numbers meet in floats, and nothing else meets below `any`. -/
def promote (a b : DataType) : DataType :=
  if a = b then a
  else
    match a, b with
    | .null, t | t, .null => t
    | .int, .float | .float, .int => .float
    | _, _ => .any

def listText (ts : List DataType) : String :=
  "[" ++ ", ".intercalate (ts.map text) ++ "]"

end DataType
end WindowFold
