import WindowFold.Expr.Basic

/-!
The text of an expression.
-/

namespace WindowFold

def SlotId.text (s : SlotId) : String := "acc$" ++ toString s.index

def LocalId.text (l : LocalId) : String := "local$" ++ toString l.index

def Fact.text : Fact → String
  | .currentRow => "CurrentRow"
  | .frameStart => "FrameStart"
  | .frameEnd => "FrameEnd"
  | .hasRows => "HasRows"
  | .rowCount => "PartitionRowCount"

def ArithOp.symbol : ArithOp → String
  | .add => "+"
  | .sub => "-"
  | .mul => "*"
  | .div => "/"

def CompareOp.symbol : CompareOp → String
  | .eq => "="
  | .ne => "<>"
  | .lt => "<"
  | .le => "<="
  | .gt => ">"
  | .ge => ">="

def LogicOp.symbol : LogicOp → String
  | .and => "AND"
  | .or => "OR"

def BinaryOp.symbol : BinaryOp → String
  | .arith op => op.symbol
  | .compare op => op.symbol
  | .logic op => op.symbol

/-- The text before an operand and the text after it. -/
def UnaryOp.around : UnaryOp → String × String
  | .not => ("NOT (", ")")
  | .neg => ("-(", ")")
  | .isNull => ("(", ") IS NULL")
  | .isNotNull => ("(", ") IS NOT NULL")

/-- Every compound except a choice is closed by brackets, so no precedence is needed. -/
def Expr.text : Expr → String
  | .literal l => l.text
  | .slot id => id.text
  | .var id => id.text
  | .fact f => f.text
  | .argument index row => "arg" ++ toString index ++ "@[" ++ row.text ++ "]"
  | .unary op e => op.around.1 ++ e.text ++ op.around.2
  | .binary op l r => "(" ++ l.text ++ " " ++ op.symbol ++ " " ++ r.text ++ ")"
  | .choose c t e =>
    "CASE WHEN " ++ c.text ++ " THEN " ++ t.text ++ " ELSE " ++ e.text ++ " END"
  | .emptyList => "[]"

end WindowFold
