import WindowFold.Emit.Emission
import WindowFold.Frame

/-!
One call of an aggregate: its signature, and the slots its state lives in.
-/

namespace WindowFold

structure Signature where
  /-- In lower case. -/
  name : String
  argTypes : List DataType
  returns : DataType
  nullable : Bool
  distinct : Bool
  deriving DecidableEq, Repr

namespace Signature

def of (name : String) (argTypes : List DataType) (returns : DataType) (nullable distinct : Bool) :
    Signature where
  name := name.toLower
  argTypes := argTypes
  returns := returns
  nullable := nullable
  distinct := distinct

def arity (s : Signature) : Nat := s.argTypes.length

end Signature

structure Slot where
  id : SlotId
  type : DataType
  deriving DecidableEq, Repr

/-- The slots of one call, in the order of its state, under the name of the call. -/
structure Accumulator where
  owner : String
  slots : List Slot
  deriving DecidableEq, Repr

namespace Accumulator

def size (a : Accumulator) : Nat := a.slots.length

def slot (a : Accumulator) (i : Nat) : Except EmitError SlotId :=
  match a.slots[i]? with
  | some s => .ok s.id
  | none => .error (.slotCount a.owner (i + 1) a.size)

/-- The expression that reads a slot. -/
def read (a : Accumulator) (i : Nat) : Except EmitError Expr :=
  (a.slot i).map Expr.slot

def reads (a : Accumulator) : List Expr := a.slots.map fun s => .slot s.id

def owns (a : Accumulator) (s : SlotId) : Bool := a.slots.any fun t => t.id == s

theorem owns_iff {a : Accumulator} {s : SlotId} :
    a.owns s = true ↔ s ∈ a.slots.map Slot.id := by
  simp [owns]

end Accumulator

/-- What every phase of a call is given. -/
structure Site where
  signature : Signature
  accumulator : Accumulator

namespace Site

def slot (c : Site) (i : Nat) : Emission SlotId := .ofExcept (c.accumulator.slot i)

def read (c : Site) (i : Nat) : Emission Expr := .ofExcept (c.accumulator.read i)

/-- The argument of a call that takes one. -/
def soleArgument (c : Site) (args : List Expr) : Emission Expr :=
  match args with
  | [v] => pure v
  | _ => .fail (.argumentCount c.signature.name 1 args.length)

end Site

/-- What a windowed phase is given besides: the frame, and the arguments at any row. -/
structure Window where
  frame : Frame
  /-- Refuses a list of another length than the call's arity. -/
  argumentsAt : Expr → Except EmitError (List Expr)

/-- The arguments of a call as expressions of the row they are read at.  An engine that cannot
tell them for some row says so when it is asked for that row. -/
abbrev RowArguments := Expr → Except EmitError (List Expr)

namespace RowArguments

/-- Arguments that can be told for every row. -/
def total (f : Expr → List Expr) : RowArguments := fun row => .ok (f row)

/-- Arguments read from the columns of the partition. -/
def columns (arity : Nat) : RowArguments :=
  total fun row => (List.range arity).map fun i => .argument i row

end RowArguments

def Site.window (c : Site) (frame : Frame) (t : RowArguments) : Window where
  frame := frame
  argumentsAt := fun row => do
    let args ← t row
    if args.length = c.signature.arity then .ok args
    else .error (.argumentCount c.signature.name c.signature.arity args.length)

end WindowFold
