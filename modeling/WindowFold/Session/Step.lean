import WindowFold.Machine.Run
import WindowFold.Session.Basic
import WindowFold.Stmt.Text

/-!
The steps of a session and what they answer.
-/

namespace WindowFold

inductive Step where
  | new (name : String) (types : List DataType) (distinct : Bool)
  /-- A function of the registry under a signature that is not looked up. -/
  | newAs (name : String) (signature : Signature)
  | custom (script : Script) (types : List DataType) (distinct : Bool)
  | register (script : Script)
  | list
  | get (name : String)
  | reset (call : Nat)
  | add (call : Nat) (args : List Template)
  | merge (call other : Nat)
  | result (call : Nat)
  | warmUp (call : Nat) (hint : Template)
  | warmUpAll (hint : Template)
  | openPartition (call : Nat) (frame : FrameTemplate)
  | addRow (call : Nat) (frame : FrameTemplate) (plan : ArgumentPlan)
  | resultAt (call : Nat) (frame : FrameTemplate) (plan : ArgumentPlan)
  /-- A phase of a function of the registry on the slots of a call, without any check. -/
  | directReset (call : Nat) (name : String)
  | directAdd (call : Nat) (name : String) (args : List Template)
  | directMerge (call : Nat) (name : String) (other : Nat)
  | directResult (call : Nat) (name : String)
  | bind (name : String) (value : Template)
  | block (lines : List Line)
  | keep (value : Template)
  /-- Keep what comes of putting an expression into a template over and over. -/
  | fold (init step : Template) (times : Nat)
  | reads (value : Template)
  | footprints (mark : Nat)
  | accumulator (call index : Nat) (other : Option Nat)
  | finish
  | run (rows : List (List Value)) (frames : List (Option FrameFacts)) (mark : Nat)
      (eval : List Template)

def Step.call? : Step → Option Nat
  | .reset i | .add i _ | .merge i _ | .result i | .warmUp i _ | .openPartition i _
  | .addRow i _ _ | .resultAt i _ _ | .directReset i _ | .directAdd i _ _
  | .directMerge i _ _ | .directResult i _ | .accumulator i _ _ => some i
  | _ => none

structure AccumulatorReport where
  size : Nat
  slot : Except EmitError SlotId
  read : Except EmitError Expr
  type : Option DataType
  reads : List Expr
  ownedByOther : List Bool

structure RunReport where
  outcome : Except RunError Unit
  slots : List (List (Option Value))
  locals : List (Option Value)
  values : List (Except RunError Value)

inductive Answer where
  | done
  | opened (signature : Signature) (slots : List Slot)
  | names (names : List String)
  | name (name : Option String)
  | value (e : Expr)
  | bound (x : Local)
  /-- How the warm-up went, and which calls are ready after it. -/
  | warmed (outcome : Except EmitError Unit) (ready : List Bool)
  | slots (ids : List SlotId)
  /-- For each statement the slots it touches, may write and surely assigns. -/
  | footprints (stmts : List (List SlotId × List SlotId × List SlotId))
  | accumulator (report : AccumulatorReport)
  | finished (stmts : List Stmt)
  | runs (reports : List RunReport)

/-- An action of a session.  What it did stays, also when it fails. -/
abbrev SessionM := EStateM EmitError Session

namespace Session

def ensure {α : Type} (r : Except EmitError α) : SessionM α := fun s =>
  match r with
  | .ok a => .ok a s
  | .error e => .error e s

def instruct (i : Instruction) : SessionM Reply := fun s =>
  match s.refreshed.step i with
  | (w, .ok r) => .ok r { s with workspace := w }
  | (w, .error e) => .error e { s with workspace := w }

def fill (t : Template) : SessionM Expr := do ensure ((← get).scope.expr t)

def fillAll (ts : List Template) : SessionM (List Expr) := do
  let scope := (← get).scope
  ensure (ts.mapM scope.expr)

def keep (e : Expr) : SessionM Answer := do
  modify fun s => { s with kept := s.kept ++ [e] }
  return .value e

def tally (i : Nat) : SessionM Tally := do
  match (← get).workspace.tallies[i]? with
  | some t => return t
  | none => throw (Workspace.noCall i)

def attempt (i : Instruction) : SessionM (Except EmitError Reply) := fun s =>
  let (w, r) := s.refreshed.step i
  .ok r { s with workspace := w }

/-- Follow an instruction whose value, if it has one, is kept. -/
def follow (i : Instruction) : SessionM Answer := do
  match ← instruct i with
  | .done => return .done
  | .value e => keep e
  | .bound x => return .bound x

def define (name : String) : SessionM Definition := do
  match (← get).registry.get? name with
  | some d => return d
  | none => throw (.unknownFunction name)

def create (signature : Signature) (d : Definition) : SessionM Answer := do
  let s ← get
  let n := s.workspace.tallies.length
  let _ ← instruct (.create signature (d.aggregate s.scope))
  modify fun s => { s with origins := s.origins ++ [d] }
  return .opened signature (← tally n).accumulator.slots

def perform {α : Type} (m : Emission α) : SessionM α := fun s =>
  let w := s.workspace
  let (d, r) := w.pass.draft.perform m
  let s := { s with workspace := { w with pass := { w.pass with draft := d } } }
  match r with
  | .ok a => .ok a s
  | .error e => .error e s

/-- A function of the registry and the site of a call to try it on. -/
def direct (i : Nat) (name : String) : SessionM (Aggregate × Site) := do
  let d ← define name
  let t ← tally i
  return (d.aggregate (← get).scope, t.site)

def iterate (scope : Scope) (step : Template) (e : Expr) : Nat → Except EmitError Expr
  | 0 => .ok e
  | n + 1 => do iterate scope step (← { scope with row := some e }.expr step) n

/-- Run the block under one frame after another, the store living on. -/
def runFrames (stmts : List Stmt) (rows : List (List Value)) (calls : List Accumulator)
    (locals : List Local) (eval : List Expr) (st : Store) :
    List (Option FrameFacts) → List RunReport
  | [] => []
  | frame :: rest =>
    let env : Env := { rows := rows, frame := frame }
    let (st', outcome) := Stmt.runAll env st stmts
    { outcome := outcome
      slots := calls.map fun a => a.slots.map fun s => st'.slots s.id
      locals := locals.map fun x => st'.locals x.id
      values := eval.map fun e => e.eval env st' }
      :: runFrames stmts rows calls locals eval st' rest

def report (t : Tally) (index : Nat) (other : Option Tally) : AccumulatorReport where
  size := t.accumulator.size
  slot := t.accumulator.slot index
  read := t.accumulator.read index
  type := t.accumulator.slots[index]?.map Slot.type
  reads := t.accumulator.reads
  ownedByOther :=
    match other with
    | some o => t.accumulator.slots.map fun s => o.accumulator.owns s.id
    | none => []

def step : Step → SessionM Answer
  | .new name types distinct => do
    let s ← get
    let (signature, _) ← ensure
      ((s.registry.map (Definition.aggregate s.scope)).resolve name types distinct)
    create signature (← define name)
  | .newAs name signature => do create signature (← define name)
  | .custom script types distinct =>
    create (.of script.name types script.returns script.nullable distinct) (.script script)
  | .register script => do
    modify fun s => { s with registry := s.registry.register script.name (.script script) }
    return .names (← get).registry.names
  | .list => do return .names (← get).registry.names
  | .get name => do
    let s ← get
    return .name ((s.registry.get? name).map fun d => (d.aggregate s.scope).name)
  | .reset i => follow (.reset i)
  | .add i args => do follow (.add i (← fillAll args))
  | .merge i j => follow (.merge i j)
  | .result i => follow (.result i)
  | .warmUp i hint => do follow (.warmUp i (← fill hint))
  | .warmUpAll hint => do
    let outcome ← attempt (.warmUpAll (← fill hint))
    return .warmed (outcome.map fun _ => ()) ((← get).workspace.tallies.map Tally.ready)
  | .openPartition i frame => do
    follow (.openPartition i (← ensure (frame.fill (← get).scope)))
  | .addRow i frame plan => do
    let scope := (← get).scope
    let f ← ensure (frame.fill scope)
    let arguments := plan.rowArguments scope (← tally i).signature.arity
    follow (.addRow i f arguments)
  | .resultAt i frame plan => do
    let scope := (← get).scope
    let f ← ensure (frame.fill scope)
    let arguments := plan.rowArguments scope (← tally i).signature.arity
    follow (.resultAt i f arguments)
  | .directReset i name => do
    let (agg, site) ← direct i name
    perform (agg.reset site)
    return .done
  | .directAdd i name args => do
    let (agg, site) ← direct i name
    perform (agg.add site (← fillAll args))
    return .done
  | .directMerge i name j => do
    let (agg, site) ← direct i name
    perform (agg.merge site (← tally j).accumulator)
    return .done
  | .directResult i name => do
    let (agg, site) ← direct i name
    keep (← perform (agg.result site))
  | .bind name value => do follow (.bind name (← fill value))
  | .block lines => do follow (.emit ((← get).scope.ops lines))
  | .keep value => do keep (← fill value)
  | .fold init step times => do
    let e ← fill init
    keep (← ensure (iterate (← get).scope step e times))
  | .reads value => do return .slots (← fill value).slots
  | .footprints mark => do
    let stmts := (← get).draft.since mark
    return .footprints (stmts.map fun s => (s.touched, s.written, s.assigned))
  | .accumulator i index other => do
    let t ← tally i
    match other with
    | some j => return .accumulator (report t index (some (← tally j)))
    | none => return .accumulator (report t index none)
  | .finish => do
    modify fun s => { s with finished := true }
    return .finished (← get).draft.stmts
  | .run rows frames mark eval => do
    let es ← fillAll eval
    let s ← get
    let stmts := if s.finished then s.draft.stmts else s.draft.since mark
    return .runs
      (runFrames stmts rows s.scope.calls s.draft.declared es .fresh frames)

end Session

/-- The answer to a step, what it emitted, and whether the call it is about is ready. -/
structure StepReport where
  answer : Except EmitError Answer
  emitted : List Stmt
  ready : Option Bool

namespace Session

def reportStep (s : Session) (step : Step) : Session × StepReport :=
  let (s', answer) :=
    match Session.step step s with
    | .ok a s' => (s', Except.ok a)
    | .error e s' => (s', Except.error e)
  (s', {
    answer := answer
    emitted := s'.draft.since s.draft.stmts.length
    ready := do (← s'.workspace.tallies[← step.call?]?).ready })

def reportAll (s : Session) : List Step → List StepReport
  | [] => []
  | step :: rest =>
    let (s', r) := s.reportStep step
    r :: reportAll s' rest

end Session
end WindowFold
