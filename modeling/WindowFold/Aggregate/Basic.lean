import WindowFold.Aggregate.Signature

/-!
What an aggregate function is: a way to type its calls, a layout of state, and what it emits in
each phase of a call.

A call is driven through `reset`, any number of `add`, and `result`, which may come again without
a reset in between.  The windowed phases know the frame; an aggregate that has no use for it does
in them what it does in the others.  A phase may declare locals and go on with them, so what it
emits depends on the number of the next one.
-/

namespace WindowFold

structure Aggregate where
  name : String
  /-- The type of the result for the types of the arguments, and whether it may be NULL. -/
  typing : List DataType → Except EmitError (DataType × Bool)
  /-- The types of the slots. -/
  layout : Signature → List DataType
  /-- Of use only over a window. -/
  windowOnly : Bool := false
  reset : Site → Emission Unit
  add : Site → List Expr → Emission Unit
  /-- Fold the state of another call of the same signature into this one. -/
  merge : Site → Accumulator → Emission Unit := fun c _ =>
    .fail (.unsupported c.signature.name .merge)
  result : Site → Emission Expr
  openWindow : Site → Opening → Emission Unit := fun c _ => reset c
  addRow : Site → Window → List Expr → Emission Unit := fun c _ args => add c args
  resultAt : Site → Window → Emission Expr := fun c _ => result c

/-- The type of the argument of a function that takes one. -/
def soleType (name : String) (types : List DataType) : Except EmitError DataType :=
  match types with
  | [t] => .ok t
  | _ => .error (.argumentTypes name (name.toUpper ++ "(expr)") types)

end WindowFold
