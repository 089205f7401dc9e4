import WindowFold.Pass.Tally

/-!
A pass together with its calls, driven by one instruction after another.
-/

namespace WindowFold

structure Workspace where
  pass : Pass
  tallies : List Tally

/-- An instruction.  Calls go by their position in the order of their creation. -/
inductive Instruction where
  | create (signature : Signature) (aggregate : Aggregate)
  | reset (call : Nat)
  | add (call : Nat) (args : List Expr)
  | merge (call other : Nat)
  | result (call : Nat)
  | warmUp (call : Nat) (hint : Expr)
  | warmUpAll (hint : Expr)
  | openPartition (call : Nat) (frame : Frame)
  | addRow (call : Nat) (frame : Frame) (arguments : RowArguments)
  | resultAt (call : Nat) (frame : Frame) (arguments : RowArguments)
  | bind (name : String) (value : Expr)
  | emit (ops : List Op)

inductive Reply where
  | done
  | value (e : Expr)
  | bound (x : Local)

namespace Workspace

def start (config : Config) : Workspace where
  pass := .start config
  tallies := []

def act (w : Workspace) (m : PassM Reply) : Workspace × Except EmitError Reply :=
  match m w.pass with
  | .ok r p => ({ w with pass := p }, .ok r)
  | .error e p => ({ w with pass := p }, .error e)

def noCall (i : Nat) : EmitError := .failed ("no call " ++ toString i)

/-- Act on one call and put it back as it comes out. -/
def update (w : Workspace) (i : Nat) (phase : Tally → PassM Tally) :
    Workspace × Except EmitError Reply :=
  match w.tallies[i]? with
  | none => (w, .error (noCall i))
  | some t =>
    match phase t w.pass with
    | .ok t' p => ({ pass := p, tallies := w.tallies.set i t' }, .ok .done)
    | .error e p => ({ w with pass := p }, .error e)

def consult (w : Workspace) (i : Nat) (phase : Tally → PassM Reply) :
    Workspace × Except EmitError Reply :=
  match w.tallies[i]? with
  | none => (w, .error (noCall i))
  | some t => w.act (phase t)

def step (w : Workspace) : Instruction → Workspace × Except EmitError Reply
  | .create s agg =>
    match Tally.create s agg w.pass with
    | .ok t p => ({ pass := p, tallies := w.tallies ++ [t] }, .ok .done)
    | .error e p => ({ w with pass := p }, .error e)
  | .reset i => w.update i Tally.reset
  | .add i args => w.consult i fun t => do
    t.add args
    return .done
  | .merge i j =>
    match w.tallies[j]? with
    | none => (w, .error (noCall j))
    | some other => w.consult i fun t => do
      t.merge other
      return .done
  | .result i => w.consult i fun t => .value <$> t.result
  | .warmUp i hint => w.update i fun t => t.warmUp hint
  | .warmUpAll hint =>
    let (ts, p, r) := Tally.warmUpAll hint w.pass w.tallies
    ({ pass := p, tallies := ts }, r.map fun _ => .done)
  | .openPartition i frame => w.update i fun t => t.openPartition frame
  | .addRow i frame tr => w.consult i fun t => do
    t.addRow frame tr
    return .done
  | .resultAt i frame tr => w.consult i fun t => .value <$> t.resultAt frame tr
  | .bind name value => w.act (.bound <$> Pass.bind name value)
  | .emit ops => w.act do
    let _ ← Pass.emit (.ofOps ops)
    return .done

end Workspace
end WindowFold
