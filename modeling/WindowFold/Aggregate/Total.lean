import WindowFold.Aggregate.Basic

/-!
Aggregates that add up: `count`, `sum` and `avg`.
-/

namespace WindowFold
namespace Aggregate

/-- Counts the rows, or with an argument those where it is not NULL. -/
def count : Aggregate where
  name := "count"
  typing types :=
    if types.length ≤ 1 then .ok (.int, false)
    else .error (.argumentTypes "count" "COUNT(*|expr)" types)
  layout _ := [.int]
  reset c := do
    let n ← c.slot 0
    .assign n (.int 0)
  add c args := do
    let n ← c.slot 0
    let next := Expr.add (.slot n) (.int 1)
    match args with
    | [] => .assign n next
    | [v] => .when v.isNotNull [.assign n next]
    | _ => .fail (.argumentCount c.signature.name c.signature.arity args.length)
  merge c other := do
    let n ← c.slot 0
    let m ← .ofExcept (other.read 0)
    .assign n (.add (.slot n) m)
  result c := c.read 0

/-- Add a value to a total, which is NULL until there is something to add. -/
def accumulate (total : SlotId) (v : Expr) : Emission Unit :=
  .when v.isNotNull
    [.assign total (.choose (Expr.slot total).isNull v (.add (.slot total) v))]

/-- The total of the values that are not NULL, and NULL without any. -/
def sum : Aggregate where
  name := "sum"
  typing types := do
    match ← soleType "sum" types with
    | .int => .ok (.int, true)
    | .float => .ok (.float, true)
    | t => .error (.argumentTypes "sum" "numeric" [t])
  layout s := [s.returns]
  reset c := do
    let total ← c.slot 0
    .assign total .null
  add c args := do
    let v ← c.soleArgument args
    let total ← c.slot 0
    accumulate total v
  merge c other := do
    let v ← .ofExcept (other.read 0)
    let total ← c.slot 0
    accumulate total v
  result c := c.read 0

/-- The mean of the values that are not NULL, held as their total and their number. -/
def avg : Aggregate where
  name := "avg"
  typing types := do
    match ← soleType "avg" types with
    | .int | .float => .ok (.float, true)
    | t => .error (.argumentTypes "avg" "numeric" [t])
  layout _ := [.float, .int]
  reset c := do
    let total ← c.slot 0
    .assign total (.float 0.0)
    let n ← c.slot 1
    .assign n (.int 0)
  add c args := do
    let total ← c.slot 0
    let n ← c.slot 1
    let v ← c.soleArgument args
    .when v.isNotNull
      [.assign total (.add (.slot total) v), .assign n (.add (.slot n) (.int 1))]
  merge c other := do
    let total ← c.slot 0
    let n ← c.slot 1
    let otherTotal ← .ofExcept (other.read 0)
    .assign total (.add (.slot total) otherTotal)
    let m ← .ofExcept (other.read 1)
    .assign n (.add (.slot n) m)
  result c := do
    let total ← c.read 0
    let n ← c.read 1
    return .choose (n.eq (.int 0)) .null (total.div n)

end Aggregate
end WindowFold
