import WindowFold.Aggregate.Collect
import WindowFold.Aggregate.Edge
import WindowFold.Aggregate.Extremum
import WindowFold.Aggregate.Place
import WindowFold.Aggregate.Registry
import WindowFold.Aggregate.Total

/-!
The functions that come with the library.
-/

namespace WindowFold

inductive Builtin where
  | count
  | sum
  | avg
  | min
  | max
  | arrayAgg
  | firstValue
  | lastValue
  | lag
  | lead
  | rowNumber
  deriving DecidableEq, Repr

namespace Builtin

def aggregate : Builtin → Aggregate
  | .count => .count
  | .sum => .sum
  | .avg => .avg
  | .min => .min
  | .max => .max
  | .arrayAgg => .arrayAgg
  | .firstValue => .firstValue
  | .lastValue => .lastValue
  | .lag => .lag
  | .lead => .lead
  | .rowNumber => .rowNumber

def all : List Builtin :=
  [.count, .sum, .avg, .min, .max, .arrayAgg, .firstValue, .lastValue, .lag, .lead, .rowNumber]

end Builtin

/-- All builtin functions under their names. -/
def Registry.builtin : Registry Builtin :=
  Builtin.all.foldl (fun r b => r.register b.aggregate.name b) Registry.empty

end WindowFold
