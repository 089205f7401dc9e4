import WindowFold.Proofs.Builtin.Code
import WindowFold.Proofs.Machine.Steps

/-!
# First and last values

What the code of `first_value` and `last_value` does to the two slots of a call, which hold the
value and whether there has been one.  The first value added sticks because it is then seen, even
if it is NULL; the last one overwrites whatever was held.
-/

namespace WindowFold

namespace Builtin

/-- The value held, and whether one has been seen. -/
structure EdgeState where
  value : Value
  seen : Bool

namespace EdgeState

def start : EdgeState := ⟨.null, false⟩

def addFirst (x : EdgeState) (v : Value) : EdgeState := if x.seen then x else ⟨v, true⟩

def addLast (_ : EdgeState) (v : Value) : EdgeState := ⟨v, true⟩

/-- The slots of a call hold the state. -/
structure In (s : Nat → SlotId) (x : EdgeState) (st : Store) : Prop where
  value : st.slots (s 0) = some x.value
  seen : st.slots (s 1) = some (.bool x.seen)

end EdgeState

variable {s : Nat → SlotId} {env : Env} {x : EdgeState} {st : Store}

/-- Two assignments, one to each slot. -/
theorem assign_both (hs : s.Injective) {e₀ e₁ : Expr} {v : Value} {seen : Bool}
    (h₀ : e₀.eval env st = .ok v) (h₁ : ∀ st, e₁.eval env st = .ok (.bool seen)) :
    Completes (Stmt.runAll env st [.assign (s 0) e₀, .assign (s 1) e₁])
      (EdgeState.In s ⟨v, seen⟩) := by
  have hne : s 0 ≠ s 1 := fun h => Nat.zero_ne_one (hs h)
  refine ⟨(st.setSlot (s 0) v).setSlot (s 1) (.bool seen), ?_, ?_, ?_⟩
  · simp [Stmt.runAll, Stmt.run, h₀, h₁]
  · simp [hne]
  · simp

theorem edge_reset (hs : s.Injective) :
    Completes (Stmt.runAll env st (firstValue.resetCode s)) (EdgeState.start.In s) :=
  assign_both hs rfl fun _ => rfl

theorem first_add (hs : s.Injective) (hx : x.In s st) {e : Expr} {v : Value}
    (he : e.eval env st = .ok v) :
    Completes (Stmt.runAll env st (firstValue.addValueCode s e)) ((x.addFirst v).In s) := by
  have htest : (Expr.slot (s 1)).not.test env st = .ok (some !x.seen) := by
    simp only [Expr.test, Expr.not, Expr.eval, hx.seen]
    rfl
  rw [addValueCode, runAll_singleton, run_branch htest]
  cases hseen : x.seen with
  | true =>
    rw [EdgeState.addFirst, hseen]
    exact ⟨st, rfl, hx⟩
  | false =>
    rw [EdgeState.addFirst, hseen]
    exact assign_both hs he fun _ => rfl

theorem last_add (hs : s.Injective) {e : Expr} {v : Value} (he : e.eval env st = .ok v) :
    Completes (Stmt.runAll env st (lastValue.addValueCode s e)) ((x.addLast v).In s) :=
  assign_both hs he fun _ => rfl

/-- After one value has been seen no other gets in. -/
theorem foldl_addFirst {α : Type} (f : α → Value) (items : List α) (v : Value) :
    items.foldl (fun x a => EdgeState.addFirst x (f a)) ⟨v, true⟩ = ⟨v, true⟩ := by
  induction items with
  | nil => rfl
  | cons a rest ih => exact ih

end Builtin

end WindowFold
