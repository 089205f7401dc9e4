import WindowFold.Expr.Basic

/-!
Statements of generated code, and what can be read off them about the slots they touch.
-/

namespace WindowFold

inductive Stmt where
  | declare (var : LocalId) (name : String) (init : Expr)
  | setLocal (var : LocalId) (value : Expr)
  | assign (slot : SlotId) (value : Expr)
  /-- Put a value at the end of the list that the slot holds. -/
  | push (slot : SlotId) (value : Expr)
  /-- Make room in the list that the slot holds; the amount is a hint. -/
  | reserve (slot : SlotId) (amount : Expr)
  | branch (cond : Expr) (yes no : List Stmt)
  deriving Repr

namespace Stmt

mutual

/-- The slots a statement reads or writes, in the order of its text. -/
def touched : Stmt → List SlotId
  | .declare _ _ e => e.slots
  | .setLocal _ e => e.slots
  | .assign s e => s :: e.slots
  | .push s e => s :: e.slots
  | .reserve s e => s :: e.slots
  | .branch c yes no => c.slots ++ touchedAll yes ++ touchedAll no

def touchedAll : List Stmt → List SlotId
  | [] => []
  | s :: rest => s.touched ++ touchedAll rest

end

mutual

/-- The slots a statement may write, whichever way its branches go. -/
def written : Stmt → List SlotId
  | .declare _ _ _ => []
  | .setLocal _ _ => []
  | .assign s _ => [s]
  | .push s _ => [s]
  | .reserve s _ => [s]
  | .branch _ yes no => writtenAll yes ++ writtenAll no

def writtenAll : List Stmt → List SlotId
  | [] => []
  | s :: rest => s.written ++ writtenAll rest

end

theorem writtenAll_append (a b : List Stmt) :
    writtenAll (a ++ b) = writtenAll a ++ writtenAll b := by
  induction a with
  | nil => rfl
  | cons s rest ih => simp [writtenAll, ih]

mutual

/-- The slots a statement assigns whichever way its branches go.  Growing a list assigns nothing. -/
def assigned : Stmt → List SlotId
  | .assign s _ => [s]
  | .branch _ yes no => (assignedAll yes).filter (assignedAll no).contains
  | .declare _ _ _ => []
  | .setLocal _ _ => []
  | .push _ _ => []
  | .reserve _ _ => []

def assignedAll : List Stmt → List SlotId
  | [] => []
  | s :: rest => s.assigned ++ assignedAll rest

end

theorem assignedAll_append (a b : List Stmt) :
    assignedAll (a ++ b) = assignedAll a ++ assignedAll b := by
  induction a with
  | nil => rfl
  | cons s rest ih => simp [assignedAll, ih]

/-- A branch assigns what both of its sides assign. -/
theorem mem_assigned_branch {c : Expr} {yes no : List Stmt} {s : SlotId} :
    s ∈ (Stmt.branch c yes no).assigned ↔ s ∈ assignedAll yes ∧ s ∈ assignedAll no := by
  simp [assigned]

end Stmt
end WindowFold
