import WindowFold.Aggregate.Basic
import WindowFold.Script.Template

/-!
Aggregate functions written down as data.
-/

namespace WindowFold

/-- Windowed phases of their own. -/
structure WindowScript where
  warmReset : List Line
  partitionReset : List Line
  /-- The rows whose arguments an add gathers before it emits anything. -/
  addAt : List Template
  add : List Line
  resultAt : List Template
  result : List Line
  value : Template

structure Script where
  name : String
  returns : DataType
  nullable : Bool
  layout : List DataType
  windowOnly : Bool
  reset : List Line
  add : List Line
  /-- Without it the function cannot be merged. -/
  merge : Option (List Line)
  result : List Line
  value : Template
  window : Option WindowScript

namespace Scope

def atSite (s : Scope) (c : Site) : Scope := { s with own := some c.accumulator }

/-- Gather the arguments at one row after another.  A row may be told by what the rows before it
have brought in. -/
def gather (s : Scope) (w : Window) : List Template → Except EmitError Scope
  | [] => .ok s
  | row :: rest => do
    let args ← w.argumentsAt (← s.expr row)
    { s with gathered := s.gathered ++ [args] }.gather w rest

/-- Facts of the partition that is reset; in a warm-up only its size is guessed at. -/
def openingFacts : Opening → Fact → Expr
  | .partition frame, f => frame.fact f
  | .warmUp hint, .rowCount => hint
  | .warmUp _, _ => .null

/-- The value comes last, after all statements. -/
def emissionOf (s : Scope) (lines : List Line) (value : Template) : Emission Expr := do
  s.emission lines
  .ofExcept (s.expr value)

end Scope

namespace WindowScript

def reset (w : WindowScript) (s : Scope) (opening : Opening) : Emission Unit :=
  let s := { s with
    facts := some (Scope.openingFacts opening), hint := some opening.rowCountHint }
  match opening with
  | .warmUp _ => s.emission w.warmReset
  | .partition _ => s.emission w.partitionReset

def addRow (w : WindowScript) (s : Scope) (win : Window) (args : List Expr) : Emission Unit := do
  let s := { s with facts := some win.frame.fact, given := args }
  let s ← .ofExcept (s.gather win w.addAt)
  s.emission w.add

def resultOf (w : WindowScript) (s : Scope) (win : Window) : Emission Expr := do
  let s := { s with facts := some win.frame.fact }
  let s ← .ofExcept (s.gather win w.resultAt)
  s.emissionOf w.result w.value

end WindowScript

namespace Script

/-- The function that a script describes, in a scope that knows the other calls. -/
def aggregate (p : Script) (s : Scope) : Aggregate where
  name := p.name
  typing _ := .ok (p.returns, p.nullable)
  layout _ := p.layout
  windowOnly := p.windowOnly
  reset c := (s.atSite c).emission p.reset
  add c args := { s.atSite c with given := args }.emission p.add
  merge c other :=
    match p.merge with
    | some lines => { s.atSite c with other := some other }.emission lines
    | none => .fail (.unsupported c.signature.name .merge)
  result c := (s.atSite c).emissionOf p.result p.value
  openWindow c opening :=
    match p.window with
    | some w => w.reset (s.atSite c) opening
    | none => (s.atSite c).emission p.reset
  addRow c win args :=
    match p.window with
    | some w => w.addRow (s.atSite c) win args
    | none => { s.atSite c with given := args }.emission p.add
  resultAt c win :=
    match p.window with
    | some w => w.resultOf (s.atSite c) win
    | none => (s.atSite c).emissionOf p.result p.value

end Script
end WindowFold
