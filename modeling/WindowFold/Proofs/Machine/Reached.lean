import WindowFold.Proofs.Machine.Assignment
import WindowFold.Proofs.Machine.Steps

/-!
# The stores that a run passes through

`Reaches env st ss p` says that a run of `ss` from `st` is in the store `p` at some point: before
a statement, inside a branch, or where it stops (`runAll_reaches`).  A statement that fails still
counts as a point.

A property of stores holds throughout a run if it holds in all of them.  It is shown statement by
statement with the `throughout_` rules.  The `upholds_` rules are for properties that say of each
slot by itself what it may hold.
-/

namespace WindowFold

inductive Reaches (env : Env) : Store → List Stmt → Store → Prop
  | here {st ss} : Reaches env st ss st
  | next {st st' s rest p} (h : s.run env st = (st', .ok ())) (hp : Reaches env st' rest p) :
      Reaches env st (s :: rest) p
  | inside {st c yes no t rest p} (h : c.test env st = .ok t)
      (hp : Reaches env st (if t = some true then yes else no) p) :
      Reaches env st (.branch c yes no :: rest) p

variable {env : Env} {st st' p : Store} {a b ss : List Stmt}

namespace Reaches

theorem append_cases (h : Reaches env st (a ++ b) p) :
    Reaches env st a p ∨
      ∃ st', Stmt.runAll env st a = (st', .ok ()) ∧ Reaches env st' b p := by
  induction a generalizing st with
  | nil => exact .inr ⟨st, rfl, h⟩
  | cons s rest ih =>
    cases h with
    | here => exact .inl .here
    | inside ht hp => exact .inl (.inside ht hp)
    | next hs hp =>
      rcases ih hp with hp | ⟨st₂, hrest, hp⟩
      · exact .inl (.next hs hp)
      · exact .inr ⟨st₂, by rw [Stmt.runAll, hs, andThen_ok, hrest], hp⟩

/-- No point of a run differs from its start in slots that its text does not write. -/
theorem slots_of_not_mem (h : Reaches env st ss p) {x : SlotId} (hx : x ∉ Stmt.writtenAll ss) :
    p.slots x = st.slots x := by
  induction h with
  | here => rfl
  | @next st st' s rest p hs _ ih =>
    have hparts : x ∉ s.written ∧ x ∉ Stmt.writtenAll rest := by
      simpa [Stmt.writtenAll] using hx
    have hfirst := Stmt.run_slots_of_not_mem env st x s hparts.1
    rw [hs] at hfirst
    rw [ih hparts.2, hfirst]
  | @inside st c yes no t rest p _ _ ih =>
    have hparts : x ∉ Stmt.writtenAll yes ∧ x ∉ Stmt.writtenAll no := by
      simp only [Stmt.writtenAll, Stmt.written, List.mem_append, not_or] at hx
      exact hx.1
    refine ih ?_
    split
    · exact hparts.1
    · exact hparts.2

end Reaches

/-- A statement that leaves the store alone when it fails stops at its start or its end. -/
theorem Reaches.of_run {s : Stmt} (rest : List Stmt)
    (h : ∀ err, (s.run env st).2 = .error err → (s.run env st).1 = st) :
    Reaches env st (s :: rest) (s.run env st).1 := by
  cases hs : s.run env st with
  | mk st' r =>
    rw [hs] at h
    cases r with
    | error err => exact h err rfl ▸ .here
    | ok _ => exact .next hs .here

/-- A step that fails ends where it started. -/
theorem proceed_error_store {α : Type} {r : Except RunError α} {k : α → Outcome} {err : RunError}
    (hk : ∀ a, (k a).2 = .error err → (k a).1 = st) (h : (proceed st r k).2 = .error err) :
    (proceed st r k).1 = st := by
  cases r with
  | error e => rfl
  | ok a => exact hk a h

mutual

theorem run_reaches (env : Env) (st : Store) (rest : List Stmt) :
    ∀ s : Stmt, Reaches env st (s :: rest) (s.run env st).1
  | .branch c yes no => by
    cases hc : c.test env st with
    | error err =>
      rw [Stmt.run, hc]
      exact .here
    | ok t =>
      rw [run_branch hc]
      refine .inside hc ?_
      split
      · exact runAll_reaches env st yes
      · exact runAll_reaches env st no
  | .declare x _ e => .of_run rest fun _ => proceed_error_store fun _ h => by simp at h
  | .setLocal x e => .of_run rest fun _ => proceed_error_store fun _ h => by simp at h
  | .assign s e => .of_run rest fun _ => proceed_error_store fun _ h => by simp at h
  | .push s e => .of_run rest fun _ => proceed_error_store fun _ =>
      proceed_error_store fun _ h => by simp at h
  | .reserve s e => .of_run rest fun _ => proceed_error_store fun _ h => by simp at h

/-- Where a run stops is one of the points it passes through, whether it stops with an error or
not. -/
theorem runAll_reaches (env : Env) (st : Store) :
    ∀ ss : List Stmt, Reaches env st ss (Stmt.runAll env st ss).1
  | [] => .here
  | s :: rest => by
    have hs := run_reaches env st rest s
    cases h : s.run env st with
    | mk st' r =>
      rw [h] at hs
      cases r with
      | error err =>
        rw [Stmt.runAll, h]
        exact hs
      | ok _ =>
        rw [Stmt.runAll, h, andThen_ok]
        exact .next h (runAll_reaches env st' rest)

end

/-! ## What holds throughout a run -/

def Throughout (env : Env) (st : Store) (ss : List Stmt) (P : Store → Prop) : Prop :=
  ∀ p, Reaches env st ss p → P p

variable {P : Store → Prop} {rest : List Stmt} {x : SlotId} {e : Expr}

theorem throughout_nil (h : P st) : Throughout env st [] P := by
  intro p hp
  cases hp
  exact h

theorem throughout_assign (h : P st)
    (hrest : ∀ v, e.eval env st = .ok v → Throughout env (st.setSlot x v) rest P) :
    Throughout env st (.assign x e :: rest) P := by
  intro p hp
  cases hp with
  | here => exact h
  | next hs hp =>
    rw [Stmt.run] at hs
    obtain ⟨v, hv, hs⟩ := proceed_eq_ok hs
    obtain ⟨rfl, _⟩ := Prod.mk.inj hs
    exact hrest v hv p hp

theorem throughout_push (h : P st)
    (hrest : ∀ items, Throughout env (st.setSlot x (.array items)) rest P) :
    Throughout env st (.push x e :: rest) P := by
  intro p hp
  cases hp with
  | here => exact h
  | next hs hp =>
    rw [Stmt.run] at hs
    obtain ⟨v, _, hs⟩ := proceed_eq_ok hs
    obtain ⟨items, _, hs⟩ := proceed_eq_ok hs
    obtain ⟨rfl, _⟩ := Prod.mk.inj hs
    exact hrest _ p hp

theorem throughout_reserve (hrest : Throughout env st rest P) :
    Throughout env st (.reserve x e :: rest) P := by
  intro p hp
  cases hp with
  | here => exact hrest st .here
  | next hs hp =>
    rw [Stmt.run_reserve] at hs
    obtain ⟨items, _, hs⟩ := proceed_eq_ok hs
    obtain ⟨rfl, _⟩ := Prod.mk.inj hs
    exact hrest p hp

/-- A branch at the end of a block holds what both of its sides hold. -/
theorem throughout_branch {c : Expr} {yes no : List Stmt} (hyes : Throughout env st yes P)
    (hno : Throughout env st no P) : Throughout env st [.branch c yes no] P := by
  intro p hp
  cases hp with
  | here => exact hyes st .here
  | next hs hp =>
    cases hp
    rw [Stmt.run] at hs
    obtain ⟨t, _, hs⟩ := proceed_eq_ok hs
    split at hs
    · have hend := runAll_reaches env st yes
      rw [hs] at hend
      exact hyes _ hend
    · have hend := runAll_reaches env st no
      rw [hs] at hend
      exact hno _ hend
  | inside ht hp =>
    split at hp
    · exact hyes p hp
    · exact hno p hp

/-! ## What slots may hold -/

/-- Every slot that is set holds a value that it may hold. -/
def Store.Obeys (A : SlotId → Value → Prop) (st : Store) : Prop :=
  ∀ x v, st.slots x = some v → A x v

/-- No run of the statements puts a value into a slot that may not hold it. -/
def Upholds (A : SlotId → Value → Prop) (ss : List Stmt) : Prop :=
  ∀ env st, st.Obeys A → Throughout env st ss (Store.Obeys A)

section

variable {A : SlotId → Value → Prop} {c : Expr} {yes : List Stmt}

theorem fresh_obeys : Store.fresh.Obeys A := fun _ _ h => by simp [Store.fresh] at h

theorem Store.Obeys.setSlot (h : st.Obeys A) {v : Value} (hv : A x v) :
    (st.setSlot x v).Obeys A := by
  intro y w hw
  rw [setSlot_slots] at hw
  split at hw
  · rename_i hyx
    rw [hyx, ← Option.some.inj hw]
    exact hv
  · exact h y w hw

theorem upholds_nil : Upholds A [] := fun _ _ h => throughout_nil h

theorem Upholds.append (ha : Upholds A a) (hb : Upholds A b) : Upholds A (a ++ b) := by
  intro env st h p hp
  rcases hp.append_cases with hp | ⟨st', hrun, hp⟩
  · exact ha env st h p hp
  · have hend := runAll_reaches env st a
    rw [hrun] at hend
    exact hb env st' (ha env st h st' hend) p hp

theorem upholds_assign
    (he : ∀ env st v, st.Obeys A → e.eval env st = .ok v → A x v) (hrest : Upholds A rest) :
    Upholds A (.assign x e :: rest) := fun env st h =>
  throughout_assign h fun v hv => hrest env _ (h.setSlot (he env st v h hv))

theorem upholds_push (hx : ∀ items, A x (.array items)) (hrest : Upholds A rest) :
    Upholds A (.push x e :: rest) := fun env _ h =>
  throughout_push h fun items => hrest env _ (h.setSlot (hx items))

theorem upholds_reserve (hrest : Upholds A rest) : Upholds A (.reserve x e :: rest) :=
  fun env st h => throughout_reserve (hrest env st h)

theorem upholds_guarded (hyes : Upholds A yes) : Upholds A [.branch c yes []] :=
  fun env st h => throughout_branch (hyes env st h) (throughout_nil h)

/-- Statements that write only slots that may hold anything. -/
theorem upholds_of_free (h : ∀ x ∈ Stmt.writtenAll ss, ∀ v, A x v) : Upholds A ss := by
  intro env st hst p hp x v hv
  by_cases hx : x ∈ Stmt.writtenAll ss
  · exact h x hx v
  · rw [hp.slots_of_not_mem hx] at hv
    exact hst x v hv

theorem Upholds.runAll (h : Upholds A ss) (env : Env) (hst : st.Obeys A) :
    (Stmt.runAll env st ss).1.Obeys A :=
  h env st hst _ (runAll_reaches env st ss)

end

end WindowFold
