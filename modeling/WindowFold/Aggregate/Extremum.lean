import WindowFold.Aggregate.Basic

/-!
Aggregates that keep the best value seen: `min` and `max`.
-/

namespace WindowFold
namespace Aggregate

/-- Keep a value that is not NULL if it is the first or `better` than the one held. -/
def improve (better : CompareOp) (best : SlotId) (v : Expr) : Emission Unit :=
  .when v.isNotNull
    [.when ((Expr.slot best).isNull.or (.binary (.compare better) v (.slot best)))
      [.assign best v]]

def extremum (name : String) (better : CompareOp) : Aggregate where
  name := name
  typing types := do
    match ← soleType name types with
    | .array => .error (.argumentTypes name "comparable" [.array])
    | t => .ok (t, true)
  layout s := [s.returns]
  reset c := do
    let best ← c.slot 0
    .assign best .null
  add c args := do
    let v ← c.soleArgument args
    let best ← c.slot 0
    improve better best v
  merge c other := do
    let v ← .ofExcept (other.read 0)
    let best ← c.slot 0
    improve better best v
  result c := c.read 0

def min : Aggregate := extremum "min" .lt
def max : Aggregate := extremum "max" .gt

end Aggregate
end WindowFold
