import WindowFold.Aggregate.Basic

/-!
The value at an edge: `first_value` and `last_value`.

Over a window the value is read at the edge of the frame, and adding does nothing.  Otherwise
the state holds the value and whether there has been one.
-/

namespace WindowFold
namespace Aggregate

/-- The argument at a row of the partition, or NULL when the partition has no rows. -/
def valueAt (c : Site) (w : Window) (row : Expr) : Emission Expr := do
  let args ← .ofExcept (w.argumentsAt row)
  let v ← c.soleArgument args
  return .choose w.frame.hasRows v .null

def edge (name : String) (position : Frame → Expr) (add : Site → List Expr → Emission Unit) :
    Aggregate where
  name := name
  typing types := do
    let t ← soleType name types
    .ok (t, true)
  layout s := [s.returns, .bool]
  reset c := do
    let value ← c.slot 0
    .assign value .null
    let seen ← c.slot 1
    .assign seen (.bool false)
  add := add
  result c := c.read 0
  addRow _ _ _ := pure ()
  resultAt c w := valueAt c w (position w.frame)

def firstValue : Aggregate :=
  edge "first_value" Frame.frameStart fun c args => do
    let value ← c.slot 0
    let seen ← c.slot 1
    let v ← c.soleArgument args
    .when (Expr.slot seen).not [.assign value v, .assign seen (.bool true)]

def lastValue : Aggregate :=
  edge "last_value" Frame.frameEnd fun c args => do
    let v ← c.soleArgument args
    let value ← c.slot 0
    .assign value v
    let seen ← c.slot 1
    .assign seen (.bool true)

end Aggregate
end WindowFold
