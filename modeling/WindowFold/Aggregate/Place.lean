import WindowFold.Aggregate.Basic

/-!
Functions of the place of the current row in its partition: `lag`, `lead` and `row_number`.
They keep no state and make sense only over a window.
-/

namespace WindowFold
namespace Aggregate

/-- A function without state whose result is read off the window. -/
def placed (name : String) (typing : List DataType → Except EmitError (DataType × Bool))
    (resultAt : Site → Window → Emission Expr) : Aggregate where
  name := name
  typing := typing
  layout _ := []
  windowOnly := true
  reset c := .fail (.windowOnly c.signature.name)
  add c _ := .fail (.windowOnly c.signature.name)
  result c := .fail (.windowOnly c.signature.name)
  openWindow _ _ := pure ()
  addRow _ _ _ := pure ()
  resultAt := resultAt

/-- The argument a number of rows away, one row unless a second argument says otherwise.  The
row is looked at only if it lies in the partition. -/
def shifted (name : String) (step : Expr → Expr → Expr) : Aggregate :=
  placed name
    (fun types =>
      match types with
      | [t] | [t, .int] => .ok (t, true)
      | _ => .error (.argumentTypes name (name.toUpper ++ "(expr [, int])") types))
    fun c w => do
      let current := w.frame.currentRow
      let here ← .ofExcept (w.argumentsAt current)
      let target := step current (here[1]?.getD (.int 1))
      let inside := w.frame.hasRows.and ((target.ge (.int 0)).and (target.lt w.frame.rowCount))
      let there ← .ofExcept (w.argumentsAt target)
      match there with
      | v :: _ => return .choose inside v .null
      | [] => .fail (.argumentCount c.signature.name c.signature.arity 0)

def lag : Aggregate := shifted "lag" .sub
def lead : Aggregate := shifted "lead" .add

/-- The place of the current row, counted from one. -/
def rowNumber : Aggregate :=
  placed "row_number"
    (fun types =>
      if types.isEmpty then .ok (.int, false)
      else .error (.argumentTypes "row_number" "ROW_NUMBER()" types))
    fun _ w => return w.frame.currentRow.add (.int 1)

end Aggregate
end WindowFold
