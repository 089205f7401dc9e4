import WindowFold.Emit.Error
import WindowFold.Stmt.Basic

/-!
A block under construction.

Statements are only ever put at the end.  Ids are handed out in order and never taken back: a
branch that fails drops its statements but not the locals that were declared in it.
-/

namespace WindowFold

inductive Op where
  | declare (name : String) (init : Expr)
  | setLocal (var : LocalId) (value : Expr)
  | assign (slot : SlotId) (value : Expr)
  | push (slot : SlotId) (value : Expr)
  | reserve (slot : SlotId) (amount : Expr)
  | branch (cond : Expr) (yes no : List Op)
  /-- Give up here, with nothing emitted. -/
  | fail (error : EmitError)

namespace Op

def when (cond : Expr) (yes : List Op) : Op := .branch cond yes []

end Op

structure Local where
  id : LocalId
  name : String
  deriving DecidableEq, Repr

structure Draft where
  stmts : List Stmt
  /-- Every local declared so far, those of dropped branches included. -/
  declared : List Local
  slotCount : Nat

/-- A name starts with a letter or an underscore, and goes on with these and digits. -/
def validName (name : String) : Bool :=
  match name.toList with
  | [] => false
  | c :: rest => (c.isAlpha || c == '_') && rest.all fun c => c.isAlphanum || c == '_'

namespace Draft

def empty : Draft where
  stmts := []
  declared := []
  slotCount := 0

def append (d : Draft) (s : Stmt) : Draft := { d with stmts := d.stmts ++ [s] }

/-- The statements behind a mark, a mark being an earlier length. -/
def since (d : Draft) (mark : Nat) : List Stmt := d.stmts.drop mark

def newSlot (d : Draft) : SlotId × Draft :=
  (⟨d.slotCount⟩, { d with slotCount := d.slotCount + 1 })

def newSlots (d : Draft) : Nat → List SlotId × Draft
  | 0 => ([], d)
  | n + 1 =>
    let (s, d) := d.newSlot
    let (rest, d) := d.newSlots n
    (s :: rest, d)

def declare (d : Draft) (name : String) (init : Expr) : Except EmitError (Local × Draft) :=
  if validName name then
    let x : Local := { id := ⟨d.declared.length⟩, name := name }
    .ok (x, { d with stmts := d.stmts ++ [.declare x.id name init], declared := d.declared ++ [x] })
  else
    .error (.invalidName name)

/-- The draft of a branch: no statements yet, but the ids go on. -/
def child (d : Draft) : Draft := { d with stmts := [] }

/-- Back from a branch, keeping only the ids that were taken. -/
def leave (d child : Draft) : Draft := { child with stmts := d.stmts }

mutual

def emit (d : Draft) : Op → Draft × Except EmitError Unit
  | .declare name e =>
    match d.declare name e with
    | .ok (_, d') => (d', .ok ())
    | .error err => (d, .error err)
  | .setLocal x e => (d.append (.setLocal x e), .ok ())
  | .assign s e => (d.append (.assign s e), .ok ())
  | .push s e => (d.append (.push s e), .ok ())
  | .reserve s e => (d.append (.reserve s e), .ok ())
  | .branch c yes no =>
    match emitAll d.child yes with
    | (d₁, .error err) => (d.leave d₁, .error err)
    | (d₁, .ok ()) =>
      match emitAll d₁.child no with
      | (d₂, .error err) => (d.leave d₂, .error err)
      | (d₂, .ok ()) => ((d.leave d₂).append (.branch c d₁.stmts d₂.stmts), .ok ())
  | .fail err => (d, .error err)

/-- The first operation that fails ends the list. -/
def emitAll (d : Draft) : List Op → Draft × Except EmitError Unit
  | [] => (d, .ok ())
  | op :: rest =>
    match d.emit op with
    | (d', .ok ()) => emitAll d' rest
    | (d', .error err) => (d', .error err)

end

theorem emitAll_append (d : Draft) (a b : List Op) :
    d.emitAll (a ++ b) =
      match d.emitAll a with
      | (d', .ok ()) => d'.emitAll b
      | (d', .error err) => (d', .error err) := by
  induction a generalizing d with
  | nil => rfl
  | cons op rest ih =>
    simp only [List.cons_append, emitAll]
    split
    · exact ih _
    · rfl

end Draft
end WindowFold
