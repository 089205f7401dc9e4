import WindowFold.Aggregate.Basic
import WindowFold.Pass.Config

/-!
One pass of code generation: all calls of a query emit into its one draft.
-/

namespace WindowFold

structure Pass where
  config : Config
  draft : Draft
  /-- How many results have been bound, or tried to be. -/
  bindings : Nat

/-- An action on a pass.  What it did to the pass stays, also when it fails. -/
abbrev PassM := EStateM EmitError Pass

namespace Pass

def start (config : Config) : Pass where
  config := config
  draft := .empty
  bindings := 0

def ensure {α : Type} (r : Except EmitError α) : PassM α := fun p =>
  match r with
  | .ok a => .ok a p
  | .error e => .error e p

def settings : PassM Config := fun p => .ok p.config p

def emit {α : Type} (m : Emission α) : PassM (List Stmt × α) := fun p =>
  let (d, r) := p.draft.perform m
  match r with
  | .ok a => .ok (d.since p.draft.stmts.length, a) { p with draft := d }
  | .error e => .error e { p with draft := d }

def allocate (n : Nat) : PassM (List SlotId) := fun p =>
  let (ids, d) := p.draft.newSlots n
  .ok ids { p with draft := d }

/-- The name of the next bound result.  Its number is used up even if the name is refused. -/
def bindingName (p : Pass) (name : String) : String :=
  p.config.localStem ++ "_" ++ name ++ "_" ++ toString p.bindings

def bind (name : String) (value : Expr) : PassM Local := fun p =>
  let p' := { p with bindings := p.bindings + 1 }
  match p.draft.declare (p.bindingName name) value with
  | .ok (x, d) => .ok x { p' with draft := d }
  | .error e => .error e p'

end Pass
end WindowFold
