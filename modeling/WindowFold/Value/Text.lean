import WindowFold.Decimal.Layout
import WindowFold.Value.Basic

/-!
The compact text of a value: no blanks, fields in the order they are held, and only the
characters escaped that have to be.
-/

namespace WindowFold
namespace Value

/-- Doubles keep a plain point from `1e-5` up to below `1e16`, and a tie goes to the even digit. -/
def floatLayout : Decimal.Layout where
  tie := .toEven
  plainFrom := -5
  plainBelow := 16
  plus := true

def hexDigit (n : Nat) : Char := Nat.digitChar (n % 16)

/-- A character inside a quoted text. -/
def escape (c : Char) : List Char :=
  match c with
  | '"' => ['\\', '"']
  | '\\' => ['\\', '\\']
  | '\x08' => ['\\', 'b']
  | '\x0c' => ['\\', 'f']
  | '\n' => ['\\', 'n']
  | '\r' => ['\\', 'r']
  | '\t' => ['\\', 't']
  | c =>
    if c.toNat < 0x20 then ['\\', 'u', '0', '0', hexDigit (c.toNat / 16), hexDigit c.toNat]
    else [c]

def quoted (s : String) : String :=
  "\"" ++ String.ofList (s.toList.flatMap escape) ++ "\""

mutual

def text : Value → String
  | .null => "null"
  | .bool b => if b then "true" else "false"
  | .int n => toString n
  | .float x => floatLayout.text x
  | .string s => quoted s
  | .array items => "[" ++ itemTexts items ++ "]"
  | .object fields => "\x7b" ++ fieldTexts fields ++ "\x7d"

def itemTexts : List Value → String
  | [] => ""
  | v :: rest => v.text ++ (if rest.isEmpty then "" else ",") ++ itemTexts rest

def fieldTexts : List (String × Value) → String
  | [] => ""
  | (name, v) :: rest =>
    quoted name ++ ":" ++ v.text ++ (if rest.isEmpty then "" else ",") ++ fieldTexts rest

end

example : (Value.array [.int (-1), .null, .string "a\"\n"]).text = "[-1,null,\"a\\\"\\n\"]" := by
  decide

example : (Value.float (Float.ofBits 0x3E60000000000000)).text = "2.9802322387695312e-8" := by
  decide +kernel

example : (Value.float (Float.ofBits 0x4341C37937E08000)).text = "1e+16" := by decide +kernel

end Value
end WindowFold
