import Mathlib.Data.List.Forall2
import WindowFold.Proofs.Builtin.Edge

/-!
# What the slots of a call stand for

An account of a builtin function says what the slots of a call hold after a reset and any number
of adds, as a function of the lists of arguments added since.  It takes two laws, one for the
reset and one for an add; whatever is made of resets and adds is then an induction that no longer
looks at the function.

Here are the accounts of the functions that read as they are written: `count`, `array_agg`,
`first_value` and `last_value`.
-/

namespace WindowFold

/-- The slots `s 0`, `s 1`, … hold the values. -/
def Store.Carries (st : Store) (s : Nat → SlotId) (values : List Value) : Prop :=
  ∀ i v, values[i]? = some v → st.slots (s i) = some v

section

variable {st st' : Store} {s : Nat → SlotId} {v w : Value}

theorem carries_singleton : st.Carries s [v] ↔ st.slots (s 0) = some v := by
  constructor
  · intro h
    exact h 0 v rfl
  · intro h i w hw
    obtain ⟨hi, rfl⟩ := List.getElem?_eq_some_iff.mp hw
    have hi : i = 0 := Nat.lt_one_iff.mp hi
    subst hi
    exact h

theorem carries_pair :
    st.Carries s [v, w] ↔ st.slots (s 0) = some v ∧ st.slots (s 1) = some w := by
  constructor
  · intro h
    exact ⟨h 0 v rfl, h 1 w rfl⟩
  · rintro ⟨hv, hw⟩ i x hx
    match i with
    | 0 => exact Option.some.inj hx ▸ hv
    | 1 => exact Option.some.inj hx ▸ hw
    | i + 2 => simp at hx

/-- Only the slots that are named matter. -/
theorem Store.Carries.congr {values : List Value} (h : st.Carries s values)
    (hst : ∀ i < values.length, st'.slots (s i) = st.slots (s i)) : st'.Carries s values := by
  intro i v hv
  obtain ⟨hi, _⟩ := List.getElem?_eq_some_iff.mp hv
  rw [hst i hi]
  exact h i v hv

end

namespace Builtin

/-- Arguments that evaluate to values. -/
def Evaluate (env : Env) (st : Store) (args : List Expr) (values : List Value) : Prop :=
  List.Forall₂ (fun e v => e.eval env st = .ok v) args values

/-- What the slots of a call hold after a reset and adds of these lists of values. -/
structure Account (b : Builtin) where
  contents : List (List Value) → List Value
  /-- The result. -/
  total : List (List Value) → Value
  /-- Inputs that can be taken in. -/
  fine : List (List Value) → Prop
  size : ∀ inputs, (contents inputs).length = b.size
  first : ∀ inputs, (contents inputs)[0]? = some (total inputs)
  result : ∀ s, b.resultExpr s = .slot (s 0)
  reset : ∀ (s : Nat → SlotId) (env : Env) (st : Store), s.Injective →
    Completes (Stmt.runAll env st (b.resetCode s)) fun st' => st'.Carries s (contents [])
  add : ∀ (s : Nat → SlotId) (env : Env) (st : Store) (inputs : List (List Value))
    (args : List Expr) (values : List Value), s.Injective → fine (inputs ++ [values]) →
    values.length ≤ 1 → st.Carries s (contents inputs) → Evaluate env st args values →
    Completes (Stmt.runAll env st (b.addCode s args))
      fun st' => st'.Carries s (contents (inputs ++ [values]))

theorem Account.result_eval {b : Builtin} (a : b.Account) {s : Nat → SlotId} {st : Store}
    {inputs : List (List Value)} (h : st.Carries s (a.contents inputs)) (env : Env) :
    (b.resultExpr s).eval env st = .ok (a.total inputs) := by
  rw [a.result]
  exact eval_slot (h 0 _ (a.first inputs))

/-! ## Counting -/

/-- No value is NULL.  Without arguments every row counts. -/
def counted (values : List Value) : Bool := values.all fun v => !v.isNull

theorem countP_snoc (inputs : List (List Value)) (values : List Value) :
    (inputs ++ [values]).countP counted =
      inputs.countP counted + if counted values then 1 else 0 := by
  simp [List.countP_append, List.countP_singleton]

theorem counted_singleton (v : Value) : counted [v] = !v.isNull := by
  rw [counted, List.all_cons, List.all_nil, Bool.and_true]

theorem count_one_more {s : Nat → SlotId} (env : Env) {st : Store} {n : Nat}
    (h : st.slots (s 0) = some (.int n)) (hn : n + 1 < 0x8000000000000000) :
    Completes (Stmt.runAll env st [.assign (s 0) (.add (.slot (s 0)) (.int 1))])
      fun st' => st'.slots (s 0) = some (.int (n + 1 : Nat)) :=
  assign_completes (eval_add_words (n := 1) (eval_slot h) rfl (by omega) (by omega) (by omega))

def countAccount : Account .count where
  contents inputs := [.int (inputs.countP counted)]
  total inputs := .int (inputs.countP counted)
  fine inputs := inputs.length < 0x8000000000000000
  size _ := rfl
  first _ := rfl
  result _ := rfl
  reset s env st _ := (assign_completes rfl).mono fun _ h => carries_singleton.mpr h
  add := by
    intro s env st inputs args values _ hfine hlen hst hargs
    rw [List.length_append, List.length_singleton] at hfine
    have hle : inputs.countP counted ≤ inputs.length := List.countP_le_length
    have hmore := count_one_more env (carries_singleton.mp hst) (by omega)
    rw [countP_snoc]
    cases hargs with
    | nil => exact hmore.mono fun _ h => carries_singleton.mpr h
    | @cons e v args values he hargs =>
      obtain rfl : values = [] := by simpa using hlen
      cases hargs
      rw [counted_singleton]
      refine branch_completes (test_isNotNull he) ?_ ?_
      · intro hv
        rw [hv]
        exact hmore.mono fun _ h => carries_singleton.mpr h
      · intro hv
        rw [hv]
        exact hst

/-! ## Functions of the values alone -/

theorem addCode_nil {b : Builtin} (hb : b ≠ .count) (s : Nat → SlotId) : b.addCode s [] = [] := by
  cases b with
  | count => exact absurd rfl hb
  | sum | avg | min | max | arrayAgg | firstValue | lastValue | lag | lead | rowNumber => rfl

/-- An add of no value does nothing, and so it is enough to know about adds of one. -/
theorem add_of_value {b : Builtin} (hb : b ≠ .count) {s : Nat → SlotId} {env : Env} {st : Store}
    (contents : List Value → List Value) {inputs : List (List Value)} {args : List Expr}
    {values : List Value} (hlen : values.length ≤ 1)
    (hst : st.Carries s (contents inputs.flatten)) (hargs : Evaluate env st args values)
    (hvalue : ∀ e v, values = [v] → e.eval env st = .ok v →
      Completes (Stmt.runAll env st (b.addValueCode s e))
        fun st' => st'.Carries s (contents (inputs.flatten ++ [v]))) :
    Completes (Stmt.runAll env st (b.addCode s args))
      fun st' => st'.Carries s (contents (inputs ++ [values]).flatten) := by
  rw [List.flatten_append, List.flatten_singleton]
  cases hargs with
  | nil =>
    rw [List.append_nil, addCode_nil hb]
    exact ⟨st, rfl, hst⟩
  | @cons e v args values he hargs =>
    obtain rfl : values = [] := by simpa using hlen
    rw [addCode_cons]
    exact hvalue e v rfl he

def arrayAccount : Account .arrayAgg where
  contents inputs := [.array inputs.flatten]
  total inputs := .array inputs.flatten
  fine _ := True
  size _ := rfl
  first _ := rfl
  result _ := rfl
  reset s env st _ := (assign_completes rfl).mono fun _ h => carries_singleton.mpr h
  add := by
    intro s env st inputs args values _ _ hlen hst hargs
    refine add_of_value (by simp) (fun vs => [.array vs]) hlen hst hargs ?_
    intro e v _ he
    have hlist : st.list (s 0) = .ok inputs.flatten := by
      rw [Store.list, carries_singleton.mp hst]
    refine ⟨st.setSlot (s 0) (.array (inputs.flatten ++ [v])), ?_, ?_⟩
    · rw [addValueCode, runAll_singleton, Stmt.run, he, proceed_ok, hlist, proceed_ok]
    · exact carries_singleton.mpr (by simp)

theorem EdgeState.in_iff {s : Nat → SlotId} {x : EdgeState} {st : Store} :
    x.In s st ↔ st.Carries s [x.value, .bool x.seen] := by
  rw [carries_pair]
  exact ⟨fun h => ⟨h.value, h.seen⟩, fun h => ⟨h.1, h.2⟩⟩

/-- One of the values, if there is one, and whether there is. -/
def edgeContents (v : Option Value) (values : List Value) : List Value :=
  [v.getD .null, .bool !values.isEmpty]

theorem edge_reset_carries {s : Nat → SlotId} (hs : s.Injective) (env : Env) (st : Store) :
    Completes (Stmt.runAll env st (firstValue.resetCode s))
      fun st' => st'.Carries s (edgeContents none []) :=
  (edge_reset hs).mono fun _ h => EdgeState.in_iff.mp h

def firstAccount : Account .firstValue where
  contents inputs := edgeContents inputs.flatten.head? inputs.flatten
  total inputs := inputs.flatten.head?.getD .null
  fine _ := True
  size _ := rfl
  first _ := rfl
  result _ := rfl
  reset s env st hs := edge_reset_carries hs env st
  add := by
    intro s env st inputs args values hs _ hlen hst hargs
    refine add_of_value (by simp) (fun vs => edgeContents vs.head? vs) hlen hst hargs ?_
    intro e v _ he
    refine (first_add hs (EdgeState.in_iff (x := ⟨_, _⟩).mpr hst) he).mono fun st' h => ?_
    have h := EdgeState.in_iff.mp h
    cases hvalues : inputs.flatten with
    | nil => simpa [EdgeState.addFirst, hvalues, edgeContents] using h
    | cons v₀ rest => simpa [EdgeState.addFirst, hvalues, edgeContents] using h

def lastAccount : Account .lastValue where
  contents inputs := edgeContents inputs.flatten.getLast? inputs.flatten
  total inputs := inputs.flatten.getLast?.getD .null
  fine _ := True
  size _ := rfl
  first _ := rfl
  result _ := rfl
  reset s env st hs := edge_reset_carries hs env st
  add := by
    intro s env st inputs args values hs _ hlen hst hargs
    refine add_of_value (by simp) (fun vs => edgeContents vs.getLast? vs) hlen hst hargs ?_
    intro e v _ he
    refine (last_add (x := .start) hs he).mono fun st' h => ?_
    have hsome : (inputs.flatten ++ [v]).isEmpty = false := by simp
    simpa [EdgeState.addLast, edgeContents, hsome] using EdgeState.in_iff.mp h

end Builtin
end WindowFold
