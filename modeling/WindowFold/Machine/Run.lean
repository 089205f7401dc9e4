import WindowFold.Machine.Eval
import WindowFold.Stmt.Basic

/-!
Running a block.  A run that fails keeps what its earlier statements wrote.
-/

namespace WindowFold

/-- Where a run ends, and why if it ends early. -/
abbrev Outcome := Store × Except RunError Unit

namespace Store

def list (st : Store) (s : SlotId) : Except RunError (List Value) :=
  match st.slots s with
  | some (.array items) => .ok items
  | some v => .error (.notList s v)
  | none => .error (.unsetSlot s)

/-- Putting back what a slot holds changes nothing. -/
theorem setSlot_same {st : Store} {s : SlotId} {v : Value} (h : st.slots s = some v) :
    st.setSlot s v = st := by
  unfold setSlot
  congr 1
  funext t
  by_cases ht : t = s
  · rw [if_pos ht, ht, h]
  · rw [if_neg ht]

theorem setSlot_of_list {st : Store} {s : SlotId} {items : List Value}
    (h : st.list s = .ok items) : st.setSlot s (.array items) = st := by
  refine setSlot_same ?_
  unfold list at h
  split at h
  · rename_i hs
    rw [hs, Except.ok.inj h]
  · simp at h
  · simp at h

end Store

/-- The most room that is made at a time, however much a hint asks for. -/
def maxRoom : Nat := 65536

/-- The room that a hint asks for, which is none if the hint fails or is no natural number. -/
def roomFor (hint : Except RunError Value) : Nat :=
  match hint with
  | .ok (.int n) => min n.toNat maxRoom
  | _ => 0

/-- The same items, with room for so many more. -/
def withRoom (room : Nat) (items : List Value) : List Value :=
  (items.foldl Array.push (Array.emptyWithCapacity (items.length + room))).toList

/-- Room does not show. -/
@[simp] theorem withRoom_eq (room : Nat) (items : List Value) : withRoom room items = items := by
  simp [withRoom]

/-- Continue with the value of a step, or stop with its error. -/
def proceed {α : Type} (st : Store) (r : Except RunError α) (k : α → Outcome) : Outcome :=
  match r with
  | .ok a => k a
  | .error e => (st, .error e)

def andThen (o : Outcome) (k : Store → Outcome) : Outcome :=
  match o with
  | (st, .ok ()) => k st
  | (st, .error e) => (st, .error e)

@[simp] theorem proceed_ok {α : Type} (st : Store) (a : α) (k : α → Outcome) :
    proceed st (.ok a) k = k a := rfl

@[simp] theorem proceed_error {α : Type} (st : Store) (e : RunError) (k : α → Outcome) :
    proceed st (.error e) k = (st, .error e) := rfl

@[simp] theorem andThen_ok (st : Store) (k : Store → Outcome) :
    andThen (st, .ok ()) k = k st := rfl

@[simp] theorem andThen_error (st : Store) (e : RunError) (k : Store → Outcome) :
    andThen (st, .error e) k = (st, .error e) := rfl

theorem andThen_assoc (o : Outcome) (k l : Store → Outcome) :
    andThen (andThen o k) l = andThen o fun st => andThen (k st) l := by
  obtain ⟨st, r⟩ := o
  cases r <;> rfl

namespace Stmt

mutual

/-- An amount that fails is no reason to stop, but a slot without a list is. -/
def run (env : Env) (st : Store) : Stmt → Outcome
  | .declare x _ e => proceed st (e.eval env st) fun v => (st.setLocal x v, .ok ())
  | .setLocal x e => proceed st (e.eval env st) fun v => (st.setLocal x v, .ok ())
  | .assign s e => proceed st (e.eval env st) fun v => (st.setSlot s v, .ok ())
  | .push s e =>
    proceed st (e.eval env st) fun v =>
      proceed st (st.list s) fun items => (st.setSlot s (.array (items ++ [v])), .ok ())
  | .reserve s e =>
    proceed st (st.list s) fun items =>
      (st.setSlot s (.array (withRoom (roomFor (e.eval env st)) items)), .ok ())
  | .branch c yes no =>
    proceed st (c.test env st) fun t =>
      if t = some true then runAll env st yes else runAll env st no

def runAll (env : Env) (st : Store) : List Stmt → Outcome
  | [] => (st, .ok ())
  | s :: rest => andThen (s.run env st) fun st' => runAll env st' rest

end

/-- Neither the amount of a reservation nor an error in it shows. -/
theorem run_reserve (env : Env) (st : Store) (s : SlotId) (e : Expr) :
    (Stmt.reserve s e).run env st = proceed st (st.list s) fun _ => (st, .ok ()) := by
  rw [run]
  cases h : st.list s with
  | error err => rfl
  | ok items => rw [proceed_ok, proceed_ok, withRoom_eq, Store.setSlot_of_list h]

theorem runAll_append (env : Env) (st : Store) (a b : List Stmt) :
    runAll env st (a ++ b) = andThen (runAll env st a) fun st' => runAll env st' b := by
  induction a generalizing st with
  | nil => rfl
  | cons s rest ih => simp [runAll, ih, andThen_assoc]

end Stmt
end WindowFold
