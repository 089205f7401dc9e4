import WindowFold.Proofs.Machine.Reached

/-!
# Reservations

A block can lose its reservations (`Stmt.unreservedAll`).  Where it came through, it still does
(`runAll_unreserved`), and if it only comes through without them, it was stopped by a reservation
in a slot that holds no list (`runAll_stops`).  What the amounts are does not matter
(`runAll_unsized`).
-/

namespace WindowFold
namespace Stmt

mutual

/-- The statement without the reservations in it. -/
def unreserved : Stmt → List Stmt
  | .reserve _ _ => []
  | .branch c yes no => [.branch c (unreservedAll yes) (unreservedAll no)]
  | .declare x name e => [.declare x name e]
  | .setLocal x e => [.setLocal x e]
  | .assign s e => [.assign s e]
  | .push s e => [.push s e]

def unreservedAll : List Stmt → List Stmt
  | [] => []
  | s :: rest => s.unreserved ++ unreservedAll rest

end

mutual

/-- The statement with no amount given to its reservations. -/
def unsized : Stmt → Stmt
  | .reserve s _ => .reserve s .null
  | .branch c yes no => .branch c (unsizedAll yes) (unsizedAll no)
  | .declare x name e => .declare x name e
  | .setLocal x e => .setLocal x e
  | .assign s e => .assign s e
  | .push s e => .push s e

def unsizedAll : List Stmt → List Stmt
  | [] => []
  | s :: rest => s.unsized :: unsizedAll rest

end

theorem unsizedAll_append (a b : List Stmt) :
    unsizedAll (a ++ b) = unsizedAll a ++ unsizedAll b := by
  induction a with
  | nil => rfl
  | cons s rest ih => simp [unsizedAll, ih]

end Stmt

/-- A run of `ss` from `st` comes to the statement `s`, which it finds in the store `p`. -/
inductive Meets (env : Env) : Store → List Stmt → Store → Stmt → Prop
  | here {st s rest} : Meets env st (s :: rest) st s
  | next {st st' s rest p x} (h : s.run env st = (st', .ok ())) (hx : Meets env st' rest p x) :
      Meets env st (s :: rest) p x
  | inside {st c yes no t rest p x} (h : c.test env st = .ok t)
      (hx : Meets env st (if t = some true then yes else no) p x) :
      Meets env st (.branch c yes no :: rest) p x

/-- What a reservation in a slot without a list fails with. -/
inductive NoList (st : Store) (x : SlotId) : RunError → Prop
  | unset (h : st.slots x = none) : NoList st x (.unsetSlot x)
  | other {v} (h : st.slots x = some v) (hv : ∀ items, v ≠ .array items) :
      NoList st x (.notList x v)

/-- The run is at a reservation in a slot without a list, and `e` is what comes of it. -/
def StopsReserving (env : Env) (st : Store) (ss : List Stmt) (p : Store) (e : RunError) : Prop :=
  ∃ x amount, Meets env st ss p (.reserve x amount) ∧ NoList p x e

section

variable {env : Env} {st st' st₁ : Store} {e : RunError}

theorem list_error {x : SlotId} (h : st.list x = .error e) : NoList st x e := by
  unfold Store.list at h
  cases hx : st.slots x with
  | none =>
    rw [hx] at h
    obtain rfl := Except.error.inj h
    exact .unset hx
  | some v =>
    rw [hx] at h
    cases v with
    | array items => nomatch h
    | null | bool _ | int _ | float _ | string _ | object _ =>
      obtain rfl := Except.error.inj h
      exact .other hx nofun

theorem run_reserve_error {x : SlotId} {amount : Expr}
    (h : (Stmt.reserve x amount).run env st = (st', .error e)) : st' = st ∧ NoList st x e := by
  rw [Stmt.run_reserve] at h
  cases hx : st.list x with
  | ok items => simp [hx] at h
  | error err =>
    simp only [hx, proceed_error, Prod.mk.injEq, Except.error.injEq] at h
    obtain ⟨rfl, rfl⟩ := h
    exact ⟨rfl, list_error hx⟩

end

/-! ## Without reservations -/

mutual

theorem run_unreserved (env : Env) {st st' : Store} :
    ∀ s : Stmt, s.run env st = (st', .ok ()) → Stmt.runAll env st s.unreserved = (st', .ok ())
  | .reserve x amount, h => by
    rw [Stmt.run_reserve] at h
    obtain ⟨items, _, h⟩ := proceed_eq_ok h
    exact h
  | .branch c yes no, h => by
    rw [Stmt.unreserved, runAll_singleton]
    rw [Stmt.run] at h ⊢
    obtain ⟨t, ht, h⟩ := proceed_eq_ok h
    rw [ht, proceed_ok]
    by_cases htrue : t = some true
    · rw [if_pos htrue] at h ⊢
      exact runAll_unreserved env yes h
    · rw [if_neg htrue] at h ⊢
      exact runAll_unreserved env no h
  | .declare _ _ _, h => (runAll_singleton env _ _).trans h
  | .setLocal _ _, h => (runAll_singleton env _ _).trans h
  | .assign _ _, h => (runAll_singleton env _ _).trans h
  | .push _ _, h => (runAll_singleton env _ _).trans h

/-- A run that comes through ends in the same store without its reservations. -/
theorem runAll_unreserved (env : Env) {st st' : Store} :
    ∀ ss : List Stmt, Stmt.runAll env st ss = (st', .ok ()) →
      Stmt.runAll env st (Stmt.unreservedAll ss) = (st', .ok ())
  | [], h => h
  | s :: rest, h => by
    obtain ⟨st₁, hs, hrest⟩ := andThen_eq_ok h
    rw [Stmt.unreservedAll, Stmt.runAll_append, run_unreserved env s hs, andThen_ok]
    exact runAll_unreserved env rest hrest

end

mutual

theorem run_stops (env : Env) {st st' st₁ : Store} {e : RunError} (rest : List Stmt) :
    ∀ s : Stmt, Stmt.runAll env st s.unreserved = (st₁, .ok ()) →
      s.run env st = (st', .error e) → StopsReserving env st (s :: rest) st' e
  | .reserve x amount, _, h => by
    obtain ⟨rfl, hnolist⟩ := run_reserve_error h
    exact ⟨x, amount, .here, hnolist⟩
  | .branch c yes no, hok, h => by
    rw [Stmt.unreserved, runAll_singleton, Stmt.run] at hok
    obtain ⟨t, ht, hok⟩ := proceed_eq_ok hok
    rw [run_branch ht] at h
    have hside : StopsReserving env st (if t = some true then yes else no) st' e := by
      by_cases htrue : t = some true
      · rw [if_pos htrue] at hok h ⊢
        exact runAll_stops env yes hok h
      · rw [if_neg htrue] at hok h ⊢
        exact runAll_stops env no hok h
    obtain ⟨x, amount, hmeets, hnolist⟩ := hside
    exact ⟨x, amount, .inside ht hmeets, hnolist⟩
  | .declare _ _ _, hok, h => nomatch ((runAll_singleton env _ _).symm.trans hok).symm.trans h
  | .setLocal _ _, hok, h => nomatch ((runAll_singleton env _ _).symm.trans hok).symm.trans h
  | .assign _ _, hok, h => nomatch ((runAll_singleton env _ _).symm.trans hok).symm.trans h
  | .push _ _, hok, h => nomatch ((runAll_singleton env _ _).symm.trans hok).symm.trans h

/-- A run that comes through only without its reservations stops at one of them. -/
theorem runAll_stops (env : Env) {st st' st₁ : Store} {e : RunError} :
    ∀ ss : List Stmt, Stmt.runAll env st (Stmt.unreservedAll ss) = (st₁, .ok ()) →
      Stmt.runAll env st ss = (st', .error e) → StopsReserving env st ss st' e
  | [], _, h => nomatch h
  | s :: rest, hok, h => by
    rw [Stmt.unreservedAll, Stmt.runAll_append] at hok
    obtain ⟨st₂, hs, hrest⟩ := andThen_eq_ok hok
    rcases andThen_eq_error h with hs' | ⟨st₃, hs', hrest'⟩
    · exact run_stops env rest s hs hs'
    · have hsame := hs.symm.trans (run_unreserved env s hs')
      obtain rfl := (Prod.mk.inj hsame).1
      obtain ⟨x, amount, hmeets, hnolist⟩ := runAll_stops env rest hrest hrest'
      exact ⟨x, amount, .next hs' hmeets, hnolist⟩

end

/-! ## Without amounts -/

mutual

theorem run_unsized (env : Env) (st : Store) : ∀ s : Stmt, s.unsized.run env st = s.run env st
  | .reserve _ _ => by rw [Stmt.unsized, Stmt.run_reserve, Stmt.run_reserve]
  | .branch c yes no => by
    rw [Stmt.unsized, Stmt.run, Stmt.run, runAll_unsized env st yes, runAll_unsized env st no]
  | .declare _ _ _ => rfl
  | .setLocal _ _ => rfl
  | .assign _ _ => rfl
  | .push _ _ => rfl

theorem runAll_unsized (env : Env) (st : Store) :
    ∀ ss : List Stmt, Stmt.runAll env st (Stmt.unsizedAll ss) = Stmt.runAll env st ss
  | [] => rfl
  | s :: rest => by
    rw [Stmt.unsizedAll, Stmt.runAll, Stmt.runAll, run_unsized env st s]
    congr 1
    funext st'
    exact runAll_unsized env st' rest

end

/-- Blocks that differ in the amounts of their reservations run alike. -/
theorem runAll_of_unsized_eq {a b : List Stmt} (h : Stmt.unsizedAll b = Stmt.unsizedAll a)
    (env : Env) (st : Store) : Stmt.runAll env st b = Stmt.runAll env st a := by
  rw [← runAll_unsized env st b, h, runAll_unsized]

end WindowFold
