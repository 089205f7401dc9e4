import WindowFold.Pass.Basic

/-!
One call within a pass, driven through its phases.

A tally is ready once a reset has succeeded, and only then adds, merges and yields results.  A
phase that fails changes nothing about the tally, though what it emitted before stays emitted.
-/

namespace WindowFold

structure Tally where
  signature : Signature
  aggregate : Aggregate
  accumulator : Accumulator
  ready : Bool
  warmedUp : Bool
  partitionSeen : Bool

namespace Tally

def create (signature : Signature) (aggregate : Aggregate) : PassM Tally := do
  let types := aggregate.layout signature
  let ids ← Pass.allocate types.length
  return {
    signature := signature
    aggregate := aggregate
    accumulator := { owner := signature.name, slots := List.zipWith Slot.mk ids types }
    ready := false
    warmedUp := false
    partitionSeen := false }

def site (t : Tally) : Site where
  signature := t.signature
  accumulator := t.accumulator

/-- Every slot belongs to the call, or to the one it is merged with. -/
def checkOwned (t : Tally) (other : Option Accumulator) (slots : List SlotId) :
    Except EmitError Unit :=
  match slots.find? fun s => !(t.accumulator.owns s || other.any fun a => a.owns s) with
  | some s => .error (.foreignSlot t.signature.name s)
  | none => .ok ()

def checkSlots (t : Tally) (config : Config) (other : Option Accumulator) (slots : List SlotId) :
    Except EmitError Unit :=
  if config.checkSlots then t.checkOwned other slots else .ok ()

/-- A reset assigns as many slots as the call has, whichever way its branches go. -/
def checkComplete (t : Tally) (config : Config) (emitted : List Stmt) : Except EmitError Unit :=
  let n := (Stmt.assignedAll emitted).eraseDups.length
  if config.checkSlots && n != t.accumulator.size then
    .error (.slotCount t.signature.name t.accumulator.size n)
  else .ok ()

/-- A result writes no slot at all, for it may be asked for again. -/
def checkReadOnly (t : Tally) (emitted : List Stmt) : Except EmitError Unit :=
  match Stmt.writtenAll emitted with
  | s :: _ => .error (.resultWrites t.signature.name s)
  | [] => .ok ()

def checkFrame (config : Config) (f : Frame) : Except EmitError Unit :=
  if config.checkFrames then f.check.mapError .invalidFrame else .ok ()

/-- The regular phases of a window function are closed. -/
def refuseWindowOnly (t : Tally) : Except EmitError Unit :=
  if t.aggregate.windowOnly then .error (.windowOnly t.signature.name) else .ok ()

def requireReady (t : Tally) (phase : Phase) : Except EmitError Unit :=
  if t.ready then .ok () else .error (.outOfOrder t.signature.name phase .notReset)

def requireArity (t : Tally) (n : Nat) : Except EmitError Unit :=
  if n = t.signature.arity then .ok ()
  else .error (.argumentCount t.signature.name t.signature.arity n)

/-- The two states can be folded into one. -/
def requireMergeable (t other : Tally) : Except EmitError Unit :=
  if !other.ready then
    .error (.outOfOrder t.signature.name .merge .otherNotReset)
  else if other.signature ≠ t.signature then
    .error (.mergeMismatch t.signature.name other.signature.name other.signature.argTypes)
  else if other.accumulator.size ≠ t.accumulator.size then
    .error (.slotCount t.signature.name t.accumulator.size other.accumulator.size)
  else .ok ()

/-- The warm-up comes once, and before any partition. -/
def requireCold (t : Tally) : Except EmitError Unit :=
  if t.warmedUp then .error (.outOfOrder t.signature.name .warmUp .warmedUp)
  else if t.partitionSeen then .error (.outOfOrder t.signature.name .warmUp .partitionSeen)
  else .ok ()

def performReset (t : Tally) (m : Emission Unit) : PassM Unit := do
  let (emitted, _) ← Pass.emit m
  let config ← Pass.settings
  Pass.ensure (t.checkSlots config none (Stmt.touchedAll emitted))
  Pass.ensure (t.checkComplete config emitted)

def performUpdate (t : Tally) (other : Option Accumulator) (m : Emission Unit) : PassM Unit := do
  let (emitted, _) ← Pass.emit m
  let config ← Pass.settings
  Pass.ensure (t.checkSlots config other (Stmt.touchedAll emitted))

def performResult (t : Tally) (m : Emission Expr) : PassM Expr := do
  let (emitted, value) ← Pass.emit m
  let config ← Pass.settings
  Pass.ensure (t.checkReadOnly emitted)
  Pass.ensure (t.checkSlots config none (Stmt.touchedAll emitted))
  Pass.ensure (t.checkSlots config none value.slots)
  return value

def reset (t : Tally) : PassM Tally := do
  Pass.ensure t.refuseWindowOnly
  t.performReset (t.aggregate.reset t.site)
  return { t with ready := true }

def add (t : Tally) (args : List Expr) : PassM Unit := do
  Pass.ensure t.refuseWindowOnly
  Pass.ensure (t.requireReady .add)
  Pass.ensure (t.requireArity args.length)
  t.performUpdate none (t.aggregate.add t.site args)

def merge (t other : Tally) : PassM Unit := do
  Pass.ensure t.refuseWindowOnly
  Pass.ensure (t.requireReady .merge)
  Pass.ensure (t.requireMergeable other)
  t.performUpdate (some other.accumulator) (t.aggregate.merge t.site other.accumulator)

def result (t : Tally) : PassM Expr := do
  Pass.ensure t.refuseWindowOnly
  Pass.ensure (t.requireReady .result)
  t.performResult (t.aggregate.result t.site)

/-- The reset before any partition is known. -/
def warmUp (t : Tally) (hint : Expr) : PassM Tally := do
  Pass.ensure t.requireCold
  t.performReset (t.aggregate.openWindow t.site (.warmUp hint))
  return { t with ready := true, warmedUp := true }

def openPartition (t : Tally) (frame : Frame) : PassM Tally := do
  Pass.ensure (checkFrame (← Pass.settings) frame)
  t.performReset (t.aggregate.openWindow t.site (.partition frame))
  return { t with ready := true, partitionSeen := true }

def addRow (t : Tally) (frame : Frame) (arguments : RowArguments) : PassM Unit := do
  Pass.ensure (t.requireReady .add)
  Pass.ensure (checkFrame (← Pass.settings) frame)
  let w := t.site.window frame arguments
  let args ← Pass.ensure (w.argumentsAt frame.currentRow)
  t.performUpdate none (t.aggregate.addRow t.site w args)

def resultAt (t : Tally) (frame : Frame) (arguments : RowArguments) : PassM Expr := do
  Pass.ensure (t.requireReady .result)
  Pass.ensure (checkFrame (← Pass.settings) frame)
  t.performResult (t.aggregate.resultAt t.site (t.site.window frame arguments))

/-- Warm up call after call.  The first failure ends it, the calls before staying warm. -/
def warmUpAll (hint : Expr) (p : Pass) : List Tally → List Tally × Pass × Except EmitError Unit
  | [] => ([], p, .ok ())
  | t :: rest =>
    match t.warmUp hint p with
    | .ok t' p' =>
      let (rest', p'', r) := warmUpAll hint p' rest
      (t' :: rest', p'', r)
    | .error e p' => (t :: rest, p', .error e)

end Tally
end WindowFold
