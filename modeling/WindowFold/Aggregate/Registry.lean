import WindowFold.Aggregate.Basic

/-!
Functions under their names.

A function is kept under its name as it is spelled, and looked up in lower case.  So a lookup
does not mind the case of what is asked for, but a name with capitals in it is never found.
-/

namespace WindowFold

structure Registry (α : Type) where
  entries : List (String × α)

namespace Registry

variable {α β : Type}

def empty : Registry α where
  entries := []

def replace (name : String) (a : α) : List (String × α) → List (String × α)
  | [] => [(name, a)]
  | (n, b) :: rest => if n = name then (n, a) :: rest else (n, b) :: replace name a rest

/-- A name that is there already keeps its place and gets the new function. -/
def register (r : Registry α) (name : String) (a : α) : Registry α where
  entries := replace name a r.entries

def get? (r : Registry α) (name : String) : Option α := r.entries.lookup name.toLower

/-- In the order of registration. -/
def names (r : Registry α) : List String := r.entries.map Prod.fst

def map (f : α → β) (r : Registry α) : Registry β where
  entries := r.entries.map fun e => (e.1, f e.2)

/-- Type a call of the function behind a name. -/
def resolve (r : Registry Aggregate) (name : String) (types : List DataType) (distinct : Bool) :
    Except EmitError (Signature × Aggregate) :=
  match r.get? name with
  | none => .error (.unknownFunction name)
  | some agg => do
    let (returns, nullable) ← agg.typing types
    return (.of agg.name types returns nullable distinct, agg)

end Registry
end WindowFold
