import WindowFold.Expr.Text
import WindowFold.Stmt.Basic

/-!
The text of a block: a statement a line, two blanks for each branch around it.
-/

namespace WindowFold
namespace Stmt

def pad (depth : Nat) : String := String.ofList (List.replicate (2 * depth) ' ')

mutual

def text (depth : Nat) : Stmt → String
  | .declare v name e =>
    pad depth ++ "let " ++ name ++ "$" ++ toString v.index ++ " = " ++ e.text ++ ";\n"
  | .setLocal v e => pad depth ++ v.text ++ " = " ++ e.text ++ ";\n"
  | .assign s e => pad depth ++ s.text ++ " = " ++ e.text ++ ";\n"
  | .push s e => pad depth ++ s.text ++ ".push(" ++ e.text ++ ");\n"
  | .reserve s e => pad depth ++ s.text ++ ".reserve(" ++ e.text ++ ");\n"
  | .branch c yes no =>
    pad depth ++ "if " ++ c.text ++ " \x7b\n" ++ textAll (depth + 1) yes
      ++ (if no.isEmpty then "" else pad depth ++ "\x7d else \x7b\n" ++ textAll (depth + 1) no)
      ++ pad depth ++ "\x7d\n"

def textAll (depth : Nat) : List Stmt → String
  | [] => ""
  | s :: rest => s.text depth ++ textAll depth rest

end

end Stmt

/-- The text of a block. -/
def blockText (stmts : List Stmt) : String := Stmt.textAll 0 stmts

end WindowFold
