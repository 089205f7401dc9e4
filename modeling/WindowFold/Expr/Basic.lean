import WindowFold.Literal

/-!
Expressions of generated code.
-/

namespace WindowFold

/-- A slot of an accumulator.  Ids are unique within one pass. -/
structure SlotId where
  index : Nat
  deriving DecidableEq, Repr

/-- A local variable of the generated block. -/
structure LocalId where
  index : Nat
  deriving DecidableEq, Repr

/-- What the engine that runs the block knows about the frame of the current row. -/
inductive Fact where
  | currentRow
  | frameStart
  | frameEnd
  | hasRows
  | rowCount
  deriving DecidableEq, Repr

inductive UnaryOp where
  | not
  | neg
  | isNull
  | isNotNull
  deriving DecidableEq, Repr

inductive ArithOp where
  | add
  | sub
  | mul
  | div
  deriving DecidableEq, Repr

inductive CompareOp where
  | eq
  | ne
  | lt
  | le
  | gt
  | ge
  deriving DecidableEq, Repr

inductive LogicOp where
  | and
  | or
  deriving DecidableEq, Repr

inductive BinaryOp where
  | arith (op : ArithOp)
  | compare (op : CompareOp)
  | logic (op : LogicOp)
  deriving DecidableEq, Repr

inductive Expr where
  | literal (l : Literal)
  | slot (id : SlotId)
  | var (id : LocalId)
  | fact (f : Fact)
  /-- Value `index` of the partition row that `row` evaluates to. -/
  | argument (index : Nat) (row : Expr)
  | unary (op : UnaryOp) (operand : Expr)
  | binary (op : BinaryOp) (left right : Expr)
  /-- `no` is taken unless the condition is true. -/
  | choose (cond yes no : Expr)
  | emptyList
  deriving DecidableEq, Repr

namespace Expr

def int (n : Int) : Expr := .literal (.int n)
def float (x : Float) : Expr := .literal (.ofFloat x)
def bool (b : Bool) : Expr := .literal (.bool b)
def string (s : String) : Expr := .literal (.string s)
def null : Expr := .literal .null

def isNull (e : Expr) : Expr := .unary .isNull e
def isNotNull (e : Expr) : Expr := .unary .isNotNull e
def not (e : Expr) : Expr := .unary .not e

def add (a b : Expr) : Expr := .binary (.arith .add) a b
def sub (a b : Expr) : Expr := .binary (.arith .sub) a b
def div (a b : Expr) : Expr := .binary (.arith .div) a b
def eq (a b : Expr) : Expr := .binary (.compare .eq) a b
def lt (a b : Expr) : Expr := .binary (.compare .lt) a b
def ge (a b : Expr) : Expr := .binary (.compare .ge) a b
def and (a b : Expr) : Expr := .binary (.logic .and) a b
def or (a b : Expr) : Expr := .binary (.logic .or) a b

def int? : Expr → Option Int
  | .literal l => l.int?
  | _ => none

def bool? : Expr → Option Bool
  | .literal l => l.bool?
  | _ => none

/-- The slots an expression reads, left to right, repeated as often as they are read. -/
def slots : Expr → List SlotId
  | .literal _ | .var _ | .fact _ | .emptyList => []
  | .slot id => [id]
  | .argument _ row => row.slots
  | .unary _ e => e.slots
  | .binary _ l r => l.slots ++ r.slots
  | .choose c t e => c.slots ++ t.slots ++ e.slots

end Expr
end WindowFold
