import WindowFold.Aggregate.Builtin
import WindowFold.Pass.Workspace
import WindowFold.Script.Basic

/-!
A pass driven step by step, with a registry to draw functions from and a list of kept
expressions to refer back to.
-/

namespace WindowFold

inductive Definition where
  | builtin (b : Builtin)
  | script (p : Script)

/-- Builtin functions look at nothing around them. -/
def Definition.aggregate (s : Scope) : Definition → Aggregate
  | .builtin b => b.aggregate
  | .script p => p.aggregate s

structure Session where
  registry : Registry Definition
  workspace : Workspace
  /-- The function of each call, in the order of the calls. -/
  origins : List Definition
  kept : List Expr
  finished : Bool

namespace Session

def start (config : Config) (registry : Registry Definition) : Session where
  registry := registry
  workspace := .start config
  origins := []
  kept := []
  finished := false

def builtinRegistry : Registry Definition := Registry.builtin.map .builtin

def draft (s : Session) : Draft := s.workspace.pass.draft

/-- The scope in which expressions of a step are read. -/
def scope (s : Session) : Scope where
  calls := s.workspace.tallies.map Tally.accumulator
  kept := s.kept

/-- The workspace with every script reading the scope as it is now. -/
def refreshed (s : Session) : Workspace where
  pass := s.workspace.pass
  tallies := List.zipWith
    (fun (t : Tally) (d : Definition) => { t with aggregate := d.aggregate s.scope })
    s.workspace.tallies s.origins

end Session

structure FrameTemplate where
  currentRow : Template
  frameStart : Template
  frameEnd : Template
  hasRows : Template
  rowCount : Template

namespace FrameTemplate

def ofFrame (f : Frame) : FrameTemplate where
  currentRow := .leaf f.currentRow
  frameStart := .leaf f.frameStart
  frameEnd := .leaf f.frameEnd
  hasRows := .leaf f.hasRows
  rowCount := .leaf f.rowCount

def fill (t : FrameTemplate) (s : Scope) : Except EmitError Frame := do
  return {
    currentRow := ← s.expr t.currentRow
    frameStart := ← s.expr t.frameStart
    frameEnd := ← s.expr t.frameEnd
    hasRows := ← s.expr t.hasRows
    rowCount := ← s.expr t.rowCount }

end FrameTemplate

inductive ArgumentPlan where
  /-- From as many columns as the call declares. -/
  | declared
  | columns (n : Nat)
  /-- From expressions with the row left open. -/
  | templates (ts : List Template)

namespace ArgumentPlan

/-- Templates are filled each time a row is asked for, and not before. -/
def rowArguments (s : Scope) (arity : Nat) : ArgumentPlan → RowArguments
  | .declared => .columns arity
  | .columns n => .columns n
  | .templates ts => fun row => ts.mapM fun t => { s with row := some row }.expr t

end ArgumentPlan
end WindowFold
