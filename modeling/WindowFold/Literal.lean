import WindowFold.Decimal.Layout
import WindowFold.Value.Basic

/-!
Constants of generated code.
-/

namespace WindowFold

inductive Literal where
  | string (s : String)
  | int (n : Int)
  | float (x : Float)
  | bool (b : Bool)
  | null
  deriving DecidableEq, Repr

namespace Literal

/-- A double that is not a number has no literal of its own and is NULL. -/
def ofFloat (x : Float) : Literal := if x.isNaN then .null else .float x

def dataType : Literal → DataType
  | .string _ => .string
  | .int _ => .int
  | .float _ => .float
  | .bool _ => .bool
  | .null => .null

/-- An infinite double evaluates to NULL. -/
def value : Literal → Value
  | .string s => .string s
  | .int n => .int n
  | .float x => .ofFloat x
  | .bool b => .bool b
  | .null => .null

def int? : Literal → Option Int
  | .int n => some n
  | _ => none

def bool? : Literal → Option Bool
  | .bool b => some b
  | _ => none

/-- Doubles keep a plain point from `1e-4` up to below `1e16`, and a tie goes upward. -/
def floatLayout : Decimal.Layout where
  tie := .upward
  plainFrom := -4
  plainBelow := 16
  plus := false

/-- Strings stand between quotes as they are. -/
def text : Literal → String
  | .string s => "\"" ++ s ++ "\""
  | .int n => toString n
  | .float x => floatLayout.text x
  | .bool b => if b then "true" else "false"
  | .null => "NULL"

/-- The text with the kind of literal around it. -/
def tagged : Literal → String
  | .string s => "String(" ++ text (.string s) ++ ")"
  | .int n => "Int(" ++ text (.int n) ++ ")"
  | .float x => "Float(" ++ text (.float x) ++ ")"
  | .bool b => "Bool(" ++ text (.bool b) ++ ")"
  | .null => "Null"

example : (Literal.float (Float.ofBits 0x3E60000000000000)).text = "2.9802322387695313e-8" := by
  decide +kernel

example : (Literal.float (Float.ofBits 0x4341C37937E08000)).text = "1e16" := by decide +kernel

end Literal
end WindowFold
