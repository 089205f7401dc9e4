import WindowFold.Machine.Operators

/-!
Evaluation of expressions over one partition.
-/

namespace WindowFold

/-- The frame of one row as the engine sees it while a block runs. -/
structure FrameFacts where
  currentRow : Option Int
  frameStart : Option Int
  frameEnd : Option Int
  hasRows : Bool
  rowCount : Int
  deriving DecidableEq, Repr

namespace FrameFacts

def known (current first last count : Int) : FrameFacts where
  currentRow := some current
  frameStart := some first
  frameEnd := some last
  hasRows := 0 < count
  rowCount := count

def empty : FrameFacts where
  currentRow := none
  frameStart := none
  frameEnd := none
  hasRows := false
  rowCount := 0

def position : Option Int → Value
  | some n => .int n
  | none => .null

def value (w : FrameFacts) : Fact → Value
  | .currentRow => position w.currentRow
  | .frameStart => position w.frameStart
  | .frameEnd => position w.frameEnd
  | .hasRows => .bool w.hasRows
  | .rowCount => .int w.rowCount

end FrameFacts

/-- What stays fixed while a block runs: the partition and the frame. -/
structure Env where
  rows : List (List Value)
  frame : Option FrameFacts

structure Store where
  slots : SlotId → Option Value
  locals : LocalId → Option Value

namespace Store

def fresh : Store where
  slots := fun _ => none
  locals := fun _ => none

def setSlot (st : Store) (s : SlotId) (v : Value) : Store :=
  { st with slots := fun t => if t = s then some v else st.slots t }

def setLocal (st : Store) (x : LocalId) (v : Value) : Store :=
  { st with locals := fun y => if y = x then some v else st.locals y }

@[simp] theorem setSlot_slots (st : Store) (s t : SlotId) (v : Value) :
    (st.setSlot s v).slots t = if t = s then some v else st.slots t := rfl

@[simp] theorem setSlot_locals (st : Store) (s : SlotId) (v : Value) :
    (st.setSlot s v).locals = st.locals := rfl

@[simp] theorem setLocal_locals (st : Store) (x y : LocalId) (v : Value) :
    (st.setLocal x v).locals y = if y = x then some v else st.locals y := rfl

@[simp] theorem setLocal_slots (st : Store) (x : LocalId) (v : Value) :
    (st.setLocal x v).slots = st.slots := rfl

end Store

namespace Env

def fact (env : Env) (f : Fact) : Except RunError Value :=
  match env.frame with
  | some w => .ok (w.value f)
  | none => .error (.unboundFact f)

/-- The partition row at a value, which must be a position inside the partition. -/
def row (env : Env) (v : Value) : Except RunError (List Value) :=
  match v.word? with
  | some (.ofNat p) =>
    match env.rows[p]? with
    | some values => .ok values
    | none => .error (.rowOutside v env.rows.length)
  | _ => .error (.rowOutside v env.rows.length)

def argument (env : Env) (index : Nat) (position : Value) : Except RunError Value := do
  let values ← env.row position
  match values[index]? with
  | some v => .ok v
  | none => .error (.argumentOutside index values.length)

end Env

namespace Expr

/-- Operands are evaluated left to right, and only those that the outcome depends on. -/
def eval (env : Env) (st : Store) : Expr → Except RunError Value
  | .literal l => .ok l.value
  | .slot s =>
    match st.slots s with
    | some v => .ok v
    | none => .error (.unsetSlot s)
  | .var x =>
    match st.locals x with
    | some v => .ok v
    | none => .error (.unsetLocal x)
  | .fact f => env.fact f
  | .argument index row => do env.argument index (← row.eval env st)
  | .unary op e => do op.apply (← e.eval env st)
  | .binary (.arith op) l r => do
    let a ← l.eval env st
    let b ← r.eval env st
    op.apply a b
  | .binary (.compare op) l r => do
    let a ← l.eval env st
    let b ← r.eval env st
    op.apply a b
  | .binary (.logic op) l r => do
    let a ← (← l.eval env st).truth
    if a = some op.absorbing then
      return .bool op.absorbing
    else
      let b ← (← r.eval env st).truth
      return .ofTruth (op.combine a b)
  | .choose c yes no => do
    if (← (← c.eval env st).truth) = some true then yes.eval env st else no.eval env st
  | .emptyList => .ok (.array [])

def test (env : Env) (st : Store) (e : Expr) : Except RunError (Option Bool) := do
  (← e.eval env st).truth

end Expr
end WindowFold
