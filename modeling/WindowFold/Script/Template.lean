import WindowFold.Aggregate.Signature

/-!
Expressions and statements with holes, to be filled where they are used.
-/

namespace WindowFold

/-- What can be left open in a template. -/
inductive Hole where
  /-- Slot `index` of the call at hand. -/
  | own (index : Nat)
  /-- Slot `index` of the call that is merged in. -/
  | other (index : Nat)
  /-- Argument `index` of the phase. -/
  | given (index : Nat)
  | fact (f : Fact)
  | hint
  /-- Argument `index` at the row gathered as number `row`. -/
  | gathered (row index : Nat)
  /-- The row that arguments are asked for, or the expression built so far. -/
  | row
  /-- Slot `index` of any call. -/
  | slot (call index : Nat)
  | kept (index : Nat)
  deriving DecidableEq, Repr

inductive Template where
  | leaf (e : Expr)
  | hole (h : Hole)
  | argument (index : Nat) (row : Template)
  | unary (op : UnaryOp) (operand : Template)
  | binary (op : BinaryOp) (left right : Template)
  | choose (cond yes no : Template)
  deriving DecidableEq, Repr

namespace Template

/-- Fill the holes left to right.  The first that cannot be filled decides the error. -/
def fill (f : Hole → Except EmitError Expr) : Template → Except EmitError Expr
  | .leaf e => .ok e
  | .hole h => f h
  | .argument i row => do return .argument i (← row.fill f)
  | .unary op e => do return .unary op (← e.fill f)
  | .binary op l r => do return .binary op (← l.fill f) (← r.fill f)
  | .choose c t e => do return .choose (← c.fill f) (← t.fill f) (← e.fill f)

end Template

/-- The slot that a statement template writes. -/
inductive Target where
  | own (index : Nat)
  | slot (call index : Nat)
  deriving DecidableEq, Repr

inductive Line where
  | declare (name : String) (init : Template)
  | setLocal (var : LocalId) (value : Template)
  | assign (target : Target) (value : Template)
  | push (target : Target) (value : Template)
  | reserve (target : Target) (amount : Template)
  | branch (cond : Template) (yes no : List Line)
  | fail (message : String)

/-- All that holes can be filled with.  What is absent cannot be filled. -/
structure Scope where
  calls : List Accumulator := []
  kept : List Expr := []
  own : Option Accumulator := none
  other : Option Accumulator := none
  given : List Expr := []
  facts : Option (Fact → Expr) := none
  hint : Option Expr := none
  gathered : List (List Expr) := []
  row : Option Expr := none

namespace Scope

def missing : EmitError := .failed "nothing to fill a hole with"

def found {α : Type} : Option α → Except EmitError α
  | some a => .ok a
  | none => .error missing

def fill (s : Scope) : Hole → Except EmitError Expr
  | .own i => do (← found s.own).read i
  | .other i => do (← found s.other).read i
  | .given i => found s.given[i]?
  | .fact f => found (s.facts.map (· f))
  | .hint => found s.hint
  | .gathered j i => do found (← found s.gathered[j]?)[i]?
  | .row => found s.row
  | .slot c i => do (← found s.calls[c]?).read i
  | .kept k => found s.kept[k]?

def expr (s : Scope) (t : Template) : Except EmitError Expr := t.fill s.fill

def target (s : Scope) : Target → Except EmitError SlotId
  | .own i => do (← found s.own).slot i
  | .slot c i => do (← found s.calls[c]?).slot i

/-- The operation, or giving up where a hole cannot be filled. -/
def orFail (r : Except EmitError Op) : Op :=
  match r with
  | .ok op => op
  | .error e => .fail e

mutual

/-- A target is looked up before the expression that goes there. -/
def op (s : Scope) : Line → Op
  | .declare name e => orFail do return .declare name (← s.expr e)
  | .setLocal x e => orFail do return .setLocal x (← s.expr e)
  | .assign t e => orFail do return .assign (← s.target t) (← s.expr e)
  | .push t e => orFail do return .push (← s.target t) (← s.expr e)
  | .reserve t e => orFail do return .reserve (← s.target t) (← s.expr e)
  | .branch c yes no =>
    match s.expr c with
    | .ok cond => .branch cond (s.ops yes) (s.ops no)
    | .error e => .fail e
  | .fail message => .fail (.failed message)

def ops (s : Scope) : List Line → List Op
  | [] => []
  | l :: rest => s.op l :: s.ops rest

end

def emission (s : Scope) (lines : List Line) : Emission Unit := .ofOps (s.ops lines)

end Scope
end WindowFold
