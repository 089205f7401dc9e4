import WindowFold.Emit.Error

/-!
The frame of a row while code is emitted: each fact an expression, literal or not.
-/

namespace WindowFold

structure Frame where
  currentRow : Expr
  frameStart : Expr
  frameEnd : Expr
  hasRows : Expr
  rowCount : Expr
  deriving DecidableEq, Repr

namespace Frame

/-- Every fact is left to the engine that runs the block. -/
def symbolic : Frame where
  currentRow := .fact .currentRow
  frameStart := .fact .frameStart
  frameEnd := .fact .frameEnd
  hasRows := .fact .hasRows
  rowCount := .fact .rowCount

def constant (current first last count : Int) : Frame where
  currentRow := .int current
  frameStart := .int first
  frameEnd := .int last
  hasRows := .bool (0 < count)
  rowCount := .int count

/-- No rows; the positions are NULL, as nothing may read at them. -/
def empty : Frame where
  currentRow := .null
  frameStart := .null
  frameEnd := .null
  hasRows := .bool false
  rowCount := .int 0

def fact (f : Frame) : Fact → Expr
  | .currentRow => f.currentRow
  | .frameStart => f.frameStart
  | .frameEnd => f.frameEnd
  | .hasRows => f.hasRows
  | .rowCount => f.rowCount

/-- The frame starts no later than it ends. -/
def checkOrder (f : Frame) : Except FrameFault Unit :=
  match f.frameStart.int?, f.frameEnd.int? with
  | some s, some e => if e < s then .error (.startAfterEnd s e) else .ok ()
  | _, _ => .ok ()

/-- The current row lies in the frame. -/
def checkCurrent (f : Frame) : Except FrameFault Unit :=
  match f.currentRow.int? with
  | some c =>
    if f.frameStart.int?.any (c < ·) || f.frameEnd.int?.any (· < c) then
      .error (.currentOutside c f.frameStart f.frameEnd)
    else .ok ()
  | none => .ok ()

/-- The frame lies in the partition, which has rows. -/
def checkPartition (f : Frame) : Except FrameFault Unit :=
  match f.rowCount.int? with
  | some n =>
    if n ≤ 0 then .error .noRows
    else if f.frameStart.int?.any (· < 0) || f.frameEnd.int?.any (n ≤ ·) then
      .error (.outsidePartition f.frameStart f.frameEnd n)
    else .ok ()
  | none => .ok ()

/-- Literal facts must not contradict each other, unless the frame may have no rows. -/
def check (f : Frame) : Except FrameFault Unit :=
  if f.hasRows.bool? = some true then do
    f.checkOrder
    f.checkCurrent
    f.checkPartition
  else .ok ()

end Frame

/-- The two occasions of resetting a windowed aggregate. -/
inductive Opening where
  /-- Once, before any partition is known, with a guess at the row count. -/
  | warmUp (hint : Expr)
  /-- At the start of a partition. -/
  | partition (frame : Frame)
  deriving DecidableEq, Repr

namespace Opening

/-- The row count, or the guess at it. -/
def rowCountHint : Opening → Expr
  | .warmUp hint => hint
  | .partition frame => frame.rowCount

/-- The guess when there is nothing to go by. -/
def unknownSize : Expr := .int 0

end Opening
end WindowFold
