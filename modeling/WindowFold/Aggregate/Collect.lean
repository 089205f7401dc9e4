import WindowFold.Aggregate.Basic

/-!
The aggregate that keeps every value: `array_agg`.
-/

namespace WindowFold
namespace Aggregate

/-- The list of all values added, NULLs included.  A row count only makes room in advance. -/
def arrayAgg : Aggregate where
  name := "array_agg"
  typing types := do
    let _ ← soleType "array_agg" types
    .ok (.array, false)
  layout _ := [.array]
  reset c := do
    let items ← c.slot 0
    .assign items .emptyList
  add c args := do
    let v ← c.soleArgument args
    let items ← c.slot 0
    .push items v
  result c := c.read 0
  openWindow c opening := do
    let items ← c.slot 0
    .assign items .emptyList
    .reserve items opening.rowCountHint

end Aggregate
end WindowFold
