import WindowFold.Emit.Draft

/-!
What one phase of an aggregate emits: operations, and then a value or an error.  The operations
in front of an error still take effect.

A phase that declares a local goes on to use it, so what it emits depends on the number that the
next local is given.  What follows an operation sees this number with the locals counted that the
operation takes.
-/

namespace WindowFold

namespace Op

mutual

/-- How many locals are handed out for an operation that does not fail, those in both of its
branches included. -/
def takes : Op → Nat
  | .declare _ _ => 1
  | .branch _ yes no => takesAll yes + takesAll no
  | .setLocal _ _ | .assign _ _ | .push _ _ | .reserve _ _ | .fail _ => 0

def takesAll : List Op → Nat
  | [] => 0
  | op :: rest => op.takes + takesAll rest

end

theorem takesAll_append (a b : List Op) : takesAll (a ++ b) = takesAll a + takesAll b := by
  induction a with
  | nil => exact (Nat.zero_add _).symm
  | cons op rest ih => rw [List.cons_append, takesAll, takesAll, ih, Nat.add_assoc]

end Op

/-- Both fields are given the number of the next local. -/
@[ext]
structure Emission (α : Type) where
  ops : Nat → List Op
  outcome : Nat → Except EmitError α

namespace Emission

variable {α β : Type}

/-- The number of the next local after the operations. -/
def next (m : Emission α) (n : Nat) : Nat := n + Op.takesAll (m.ops n)

protected def pure (a : α) : Emission α where
  ops _ := []
  outcome _ := .ok a

protected def bind (m : Emission α) (f : α → Emission β) : Emission β where
  ops n :=
    match m.outcome n with
    | .ok a => m.ops n ++ (f a).ops (m.next n)
    | .error _ => m.ops n
  outcome n :=
    match m.outcome n with
    | .ok a => (f a).outcome (m.next n)
    | .error e => .error e

instance : Monad Emission where
  pure := Emission.pure
  bind := Emission.bind

section

variable {m : Emission α} {a : α} {e : EmitError} {n : Nat}

theorem ops_bind_ok (h : m.outcome n = .ok a) (f : α → Emission β) :
    (m >>= f).ops n = m.ops n ++ (f a).ops (m.next n) := by
  simp only [bind, Emission.bind, h]

theorem ops_bind_error (h : m.outcome n = .error e) (f : α → Emission β) :
    (m >>= f).ops n = m.ops n := by
  simp only [bind, Emission.bind, h]

theorem outcome_bind_ok (h : m.outcome n = .ok a) (f : α → Emission β) :
    (m >>= f).outcome n = (f a).outcome (m.next n) := by
  simp only [bind, Emission.bind, h]

theorem outcome_bind_error (h : m.outcome n = .error e) (f : α → Emission β) :
    (m >>= f).outcome n = .error e := by
  simp only [bind, Emission.bind, h]

theorem next_bind_ok (h : m.outcome n = .ok a) (f : α → Emission β) :
    (m >>= f).next n = (f a).next (m.next n) := by
  rw [next, ops_bind_ok h, Op.takesAll_append, ← Nat.add_assoc]
  rfl

end

protected theorem id_map (m : Emission α) : id <$> m = m := by
  have hmap : id <$> m = m >>= fun a => pure a := rfl
  rw [hmap]
  ext1 <;> funext n <;> cases h : m.outcome n with
  | ok a => simp [ops_bind_ok h, outcome_bind_ok h, pure, Emission.pure]
  | error e => simp [ops_bind_error h, outcome_bind_error h]

protected theorem bind_assoc {γ : Type} (m : Emission α) (f : α → Emission β)
    (g : β → Emission γ) : m >>= f >>= g = m >>= fun a => f a >>= g := by
  ext1 <;> funext n <;> cases h : m.outcome n with
  | error e =>
    simp only [ops_bind_error h, ops_bind_error (outcome_bind_error h f), outcome_bind_error h,
      outcome_bind_error (outcome_bind_error h f)]
  | ok a =>
    have hf := outcome_bind_ok h f
    cases hb : (f a).outcome (m.next n) with
    | error e =>
      rw [hb] at hf
      simp only [ops_bind_ok h, ops_bind_error hb, ops_bind_error hf, outcome_bind_ok h,
        outcome_bind_error hb, outcome_bind_error hf]
    | ok b =>
      rw [hb] at hf
      simp only [ops_bind_ok h, ops_bind_ok hb, ops_bind_ok hf, outcome_bind_ok h,
        outcome_bind_ok hb, outcome_bind_ok hf, next_bind_ok h, List.append_assoc]

protected theorem pure_bind (a : α) (f : α → Emission β) : pure a >>= f = f a := rfl

instance : LawfulMonad Emission :=
  LawfulMonad.mk' Emission Emission.id_map Emission.pure_bind Emission.bind_assoc

def fail (e : EmitError) : Emission α where
  ops _ := []
  outcome _ := .error e

@[simp] theorem fail_outcome (e : EmitError) (n : Nat) :
    (fail e : Emission α).outcome n = .error e := rfl

/-- Nothing comes after a failure. -/
@[simp] theorem fail_bind (e : EmitError) (f : α → Emission β) : fail e >>= f = fail e := rfl

def ofExcept (r : Except EmitError α) : Emission α where
  ops _ := []
  outcome _ := r

def op (o : Op) : Emission Unit where
  ops _ := [o]
  outcome _ := .ok ()

def ofOps (os : List Op) : Emission Unit where
  ops _ := os
  outcome _ := .ok ()

/-- Declare a local, to be used from here on. -/
def declare (name : String) (init : Expr) : Emission LocalId where
  ops _ := [.declare name init]
  outcome n := .ok ⟨n⟩

def setLocal (x : LocalId) (e : Expr) : Emission Unit := op (.setLocal x e)
def assign (s : SlotId) (e : Expr) : Emission Unit := op (.assign s e)
def push (s : SlotId) (e : Expr) : Emission Unit := op (.push s e)
def reserve (s : SlotId) (e : Expr) : Emission Unit := op (.reserve s e)

def when (cond : Expr) (body : List Op) : Emission Unit := op (.when cond body)

end Emission

def Draft.perform {α : Type} (d : Draft) (m : Emission α) : Draft × Except EmitError α :=
  let n := d.declared.length
  match d.emitAll (m.ops n) with
  | (d', .ok ()) => (d', m.outcome n)
  | (d', .error e) => (d', .error e)

end WindowFold
