import WindowFold.Frame
import WindowFold.Machine.Run

/-!
# Frames known while code is emitted

A frame that is known can be put into code as literals instead of being left to the engine.
`stage` replaces the facts of a frame by their literals, and a staged block runs under any frame
as the block runs under that one (`runAll_stage`).
-/

namespace WindowFold

namespace FrameFacts

def positionLiteral : Option Int → Expr
  | some n => .int n
  | none => .null

/-- The frame whose facts are these as literals. -/
def literals (w : FrameFacts) : Frame where
  currentRow := positionLiteral w.currentRow
  frameStart := positionLiteral w.frameStart
  frameEnd := positionLiteral w.frameEnd
  hasRows := .bool w.hasRows
  rowCount := .int w.rowCount

theorem literals_eval (w : FrameFacts) (f : Fact) (env : Env) (st : Store) :
    (w.literals.fact f).eval env st = .ok (w.value f) := by
  have position (p : Option Int) :
      (positionLiteral p).eval env st = .ok (FrameFacts.position p) := by
    cases p <;> rfl
  cases f with
  | currentRow => exact position w.currentRow
  | frameStart => exact position w.frameStart
  | frameEnd => exact position w.frameEnd
  | hasRows => rfl
  | rowCount => rfl

end FrameFacts

namespace Expr

/-- The expression with the facts of a frame put in. -/
def stage (w : FrameFacts) : Expr → Expr
  | .fact f => w.literals.fact f
  | .literal l => .literal l
  | .slot s => .slot s
  | .var x => .var x
  | .argument i row => .argument i (row.stage w)
  | .unary op e => .unary op (e.stage w)
  | .binary op l r => .binary op (l.stage w) (r.stage w)
  | .choose c t e => .choose (c.stage w) (t.stage w) (e.stage w)
  | .emptyList => .emptyList

theorem eval_stage (rows : List (List Value)) (w : FrameFacts) (frame : Option FrameFacts)
    (st : Store) (e : Expr) :
    (e.stage w).eval ⟨rows, frame⟩ st = e.eval ⟨rows, some w⟩ st := by
  induction e with
  | literal l => rfl
  | slot s => rfl
  | var x => rfl
  | fact f => exact w.literals_eval f _ st
  | argument i row ih =>
    simp only [stage, eval, ih]
    rfl
  | unary op e ih => simp only [stage, eval, ih]
  | binary op l r ihl ihr => cases op <;> simp only [stage, eval, ihl, ihr]
  | choose c t e ihc iht ihe => simp only [stage, eval, ihc, iht, ihe]
  | emptyList => rfl

end Expr

namespace Stmt

mutual

def stage (w : FrameFacts) : Stmt → Stmt
  | .declare x name e => .declare x name (e.stage w)
  | .setLocal x e => .setLocal x (e.stage w)
  | .assign s e => .assign s (e.stage w)
  | .push s e => .push s (e.stage w)
  | .reserve s e => .reserve s (e.stage w)
  | .branch c yes no => .branch (c.stage w) (stageAll w yes) (stageAll w no)

/-- The block with the facts of a frame put in. -/
def stageAll (w : FrameFacts) : List Stmt → List Stmt
  | [] => []
  | s :: rest => s.stage w :: stageAll w rest

end

mutual

theorem run_stage (rows : List (List Value)) (w : FrameFacts) (frame : Option FrameFacts)
    (st : Store) : ∀ s : Stmt, (s.stage w).run ⟨rows, frame⟩ st = s.run ⟨rows, some w⟩ st
  | .declare x name e => by simp only [stage, run, Expr.eval_stage]
  | .setLocal x e => by simp only [stage, run, Expr.eval_stage]
  | .assign s e => by simp only [stage, run, Expr.eval_stage]
  | .push s e => by simp only [stage, run, Expr.eval_stage]
  | .reserve s e => by simp only [stage, run_reserve]
  | .branch c yes no => by
    have hyes := fun st => runAll_stage rows w frame st yes
    have hno := fun st => runAll_stage rows w frame st no
    simp only [stage, run, Expr.test, Expr.eval_stage, hyes, hno]

/-- A staged block runs under any frame as it would have under the frame put in. -/
theorem runAll_stage (rows : List (List Value)) (w : FrameFacts) (frame : Option FrameFacts)
    (st : Store) :
    ∀ ss : List Stmt, runAll ⟨rows, frame⟩ st (stageAll w ss) = runAll ⟨rows, some w⟩ st ss
  | [] => rfl
  | s :: rest => by
    have hs := run_stage rows w frame st s
    have hrest := fun st => runAll_stage rows w frame st rest
    simp only [stageAll, runAll, hs, hrest]

end

end Stmt

/-- The frame with its symbolic facts put in. -/
def Frame.stage (w : FrameFacts) (f : Frame) : Frame where
  currentRow := f.currentRow.stage w
  frameStart := f.frameStart.stage w
  frameEnd := f.frameEnd.stage w
  hasRows := f.hasRows.stage w
  rowCount := f.rowCount.stage w

end WindowFold
