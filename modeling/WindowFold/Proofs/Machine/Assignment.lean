import WindowFold.Proofs.Machine.Footprint

/-!
# Slots that hold a value

A slot once set stays set (`runAll_holds`), and a run that succeeds sets every slot in
`assigned` (`runAll_assigned`).  Conversely the error `unsetSlot s` has one cause: a statement
that touches `s` is run while `s` is unset (`runAll_unset`).  The three together decide which
statement of a block can find a slot unset.
-/

namespace WindowFold

/-- The slot has been set. -/
def Store.Holds (st : Store) (s : SlotId) : Prop := st.slots s ≠ none

namespace Store.Holds

theorem setSlot {st : Store} {s : SlotId} (h : st.Holds s) (t : SlotId) (v : Value) :
    (st.setSlot t v).Holds s := by
  by_cases hst : s = t
  · simp [Holds, hst]
  · simpa [Holds, hst] using h

theorem setSlot_self (st : Store) (s : SlotId) (v : Value) : (st.setSlot s v).Holds s := by
  simp [Holds]

end Store.Holds

/-! ## Errors that are not about slots -/

/-- A computation that failed did so in its first part or in the rest. -/
theorem error_of_bind {α β : Type} {m : Except RunError α} {f : α → Except RunError β}
    {e : RunError} (h : (m >>= f) = .error e) :
    m = .error e ∨ ∃ a, m = .ok a ∧ f a = .error e := by
  cases m with
  | error e' =>
    cases h
    exact .inl rfl
  | ok a => exact .inr ⟨a, rfl, h⟩

/-- Operators and the look-up of arguments work on values and read no slot. -/
def RunError.IsUnset (e : RunError) : Prop := ∃ s, e = .unsetSlot s

theorem ArithOp.words_error {op : ArithOp} {a b : Int} {e : RunError}
    (h : op.words a b = .error e) : ¬ e.IsUnset := by
  rintro ⟨s, rfl⟩
  cases op <;> simp only [words, wordResult] at h <;> split at h <;>
    first | simp at h | (split at h <;> simp at h)

theorem ArithOp.floats_error {op : ArithOp} {x y : Float} {e : RunError}
    (h : op.floats x y = .error e) : ¬ e.IsUnset := by
  rintro ⟨s, rfl⟩
  cases op with
  | add => simp [floats] at h
  | sub => simp [floats] at h
  | mul => simp [floats] at h
  | div =>
    simp only [floats] at h
    split at h <;> simp at h

theorem ArithOp.apply_error {op : ArithOp} {l r : Value} {e : RunError}
    (h : op.apply l r = .error e) : ¬ e.IsUnset := by
  unfold apply at h
  split at h
  · simp at h
  · simp at h
  · split at h
    · exact words_error h
    · split at h
      · exact floats_error h
      · rintro ⟨s, rfl⟩
        simp at h

theorem Value.order_error {l r : Value} {e : RunError} (h : l.order r = .error e) :
    ¬ e.IsUnset := by
  rintro ⟨s, rfl⟩
  unfold order at h
  split at h
  · simp at h
  · simp at h
  · split at h
    · simp at h
    · split at h
      · simp only [compareFloats] at h
        split at h
        · simp at h
        · split at h
          · simp at h
          · split at h <;> simp at h
      · simp at h

theorem CompareOp.apply_error {op : CompareOp} {l r : Value} {e : RunError}
    (h : op.apply l r = .error e) : ¬ e.IsUnset := by
  unfold apply at h
  split at h
  · simp at h
  · simp at h
  · cases ho : l.order r with
    | error e' =>
      rw [ho] at h
      have he : e' = e := by simpa [Except.map] using h
      exact he ▸ Value.order_error ho
    | ok o => simp [ho, Except.map] at h

theorem UnaryOp.apply_error {op : UnaryOp} {v : Value} {e : RunError}
    (h : op.apply v = .error e) : ¬ e.IsUnset := by
  rintro ⟨s, rfl⟩
  unfold apply at h
  split at h <;> try simp at h
  unfold negate at h
  split at h
  · split at h <;> simp at h
  · simp at h
  · simp at h

theorem Value.truth_error {v : Value} {e : RunError} (h : v.truth = .error e) : ¬ e.IsUnset := by
  rintro ⟨s, rfl⟩
  cases v <;> simp [truth] at h

theorem Env.fact_error {env : Env} {f : Fact} {e : RunError} (h : env.fact f = .error e) :
    ¬ e.IsUnset := by
  rintro ⟨s, rfl⟩
  unfold fact at h
  split at h <;> simp at h

theorem Env.argument_error {env : Env} {i : Nat} {v : Value} {e : RunError}
    (h : env.argument i v = .error e) : ¬ e.IsUnset := by
  rintro ⟨s, rfl⟩
  rcases error_of_bind h with h | ⟨values, _, h⟩
  · unfold row at h
    split at h
    · split at h <;> simp at h
    · simp at h
  · split at h <;> simp at h

/-! ## The one cause of reading too early -/

theorem Expr.eval_unset {env : Env} {st : Store} {s : SlotId} {e : Expr}
    (h : e.eval env st = .error (.unsetSlot s)) : s ∈ e.slots ∧ ¬ st.Holds s := by
  have none_of {α : Type} {m : Except RunError α} (hm : ∀ e, m = .error e → ¬ e.IsUnset)
      (h : m = .error (.unsetSlot s)) : False := hm _ h ⟨s, rfl⟩
  induction e with
  | literal l => simp [eval] at h
  | slot t =>
    simp only [eval] at h
    split at h
    · simp at h
    · rename_i hst
      have hts : t = s := by simpa using h
      subst hts
      exact ⟨by simp [slots], by simp [Store.Holds, hst]⟩
  | var x =>
    simp only [eval] at h
    split at h <;> simp at h
  | fact f => exact (none_of (fun _ => Env.fact_error) h).elim
  | argument i row ih =>
    rcases error_of_bind h with h | ⟨v, _, h⟩
    · exact ih h
    · exact (none_of (fun _ => Env.argument_error) h).elim
  | unary op e ih =>
    rcases error_of_bind h with h | ⟨v, _, h⟩
    · exact ih h
    · exact (none_of (fun _ => UnaryOp.apply_error) h).elim
  | binary op l r ihl ihr =>
    have left (h : l.eval env st = .error (.unsetSlot s)) :
        s ∈ (Expr.binary op l r).slots ∧ ¬ st.Holds s :=
      ⟨by simp [slots, (ihl h).1], (ihl h).2⟩
    have right (h : r.eval env st = .error (.unsetSlot s)) :
        s ∈ (Expr.binary op l r).slots ∧ ¬ st.Holds s :=
      ⟨by simp [slots, (ihr h).1], (ihr h).2⟩
    cases op with
    | arith op =>
      rcases error_of_bind h with h | ⟨a, _, h⟩
      · exact left h
      · rcases error_of_bind h with h | ⟨b, _, h⟩
        · exact right h
        · exact (none_of (fun _ => ArithOp.apply_error) h).elim
    | compare op =>
      rcases error_of_bind h with h | ⟨a, _, h⟩
      · exact left h
      · rcases error_of_bind h with h | ⟨b, _, h⟩
        · exact right h
        · exact (none_of (fun _ => CompareOp.apply_error) h).elim
    | logic op =>
      rcases error_of_bind h with h | ⟨a, _, h⟩
      · exact left h
      · rcases error_of_bind h with h | ⟨ta, _, h⟩
        · exact (none_of (fun _ => Value.truth_error) h).elim
        · split at h
          · cases h
          · rcases error_of_bind h with h | ⟨b, _, h⟩
            · exact right h
            · rcases error_of_bind h with h | ⟨tb, _, h⟩
              · exact (none_of (fun _ => Value.truth_error) h).elim
              · cases h
  | choose c t e ihc iht ihe =>
    rcases error_of_bind h with h | ⟨v, _, h⟩
    · exact ⟨by simp [slots, (ihc h).1], (ihc h).2⟩
    · rcases error_of_bind h with h | ⟨b, _, h⟩
      · exact (none_of (fun _ => Value.truth_error) h).elim
      · split at h
        · exact ⟨by simp [slots, (iht h).1], (iht h).2⟩
        · exact ⟨by simp [slots, (ihe h).1], (ihe h).2⟩
  | emptyList => simp [eval] at h

theorem Expr.test_unset {env : Env} {st : Store} {s : SlotId} {e : Expr}
    (h : e.test env st = .error (.unsetSlot s)) : s ∈ e.slots ∧ ¬ st.Holds s := by
  rcases error_of_bind h with h | ⟨v, _, h⟩
  · exact eval_unset h
  · exact (Value.truth_error h ⟨s, rfl⟩).elim

theorem Store.list_unset {st : Store} {s t : SlotId} (h : st.list t = .error (.unsetSlot s)) :
    t = s ∧ ¬ st.Holds s := by
  unfold list at h
  split at h
  · simp at h
  · simp at h
  · rename_i hst
    have hts : t = s := by simpa using h
    exact ⟨hts, by simp [Holds, ← hts, hst]⟩

/-- A step that is refused its value ends there with the reason. -/
theorem proceed_eq_error {α : Type} {st st' : Store} {r : Except RunError α} {k : α → Outcome}
    {e : RunError} (h : proceed st r k = (st', .error e)) :
    (r = .error e ∧ st' = st) ∨ ∃ a, r = .ok a ∧ k a = (st', .error e) := by
  cases r with
  | error e' =>
    simp only [proceed_error, Prod.mk.injEq, Except.error.injEq] at h
    exact .inl ⟨by rw [h.2], h.1.symm⟩
  | ok a => exact .inr ⟨a, rfl, h⟩

theorem proceed_eq_ok {α : Type} {st st' : Store} {r : Except RunError α} {k : α → Outcome}
    (h : proceed st r k = (st', .ok ())) : ∃ a, r = .ok a ∧ k a = (st', .ok ()) := by
  cases r with
  | error e' => simp at h
  | ok a => exact ⟨a, rfl, h⟩

theorem andThen_eq_ok {o : Outcome} {k : Store → Outcome} {st' : Store}
    (h : andThen o k = (st', .ok ())) : ∃ st, o = (st, .ok ()) ∧ k st = (st', .ok ()) := by
  obtain ⟨st, r⟩ := o
  cases r with
  | error e => simp at h
  | ok _ => exact ⟨st, rfl, h⟩

theorem andThen_eq_error {o : Outcome} {k : Store → Outcome} {st' : Store} {e : RunError}
    (h : andThen o k = (st', .error e)) :
    o = (st', .error e) ∨ ∃ st, o = (st, .ok ()) ∧ k st = (st', .error e) := by
  obtain ⟨st, r⟩ := o
  cases r with
  | error e' => exact .inl h
  | ok _ => exact .inr ⟨st, rfl, h⟩

namespace Stmt

/-! ## Set slots stay set -/

mutual

theorem run_holds (env : Env) {st : Store} {t : SlotId} (ht : st.Holds t) :
    ∀ s : Stmt, (s.run env st).1.Holds t
  | .declare x _ e => by
    cases h : e.eval env st <;> simpa [run, h, Store.Holds] using ht
  | .setLocal x e => by
    cases h : e.eval env st <;> simpa [run, h, Store.Holds] using ht
  | .assign s e => by
    cases h : e.eval env st with
    | error err => simpa [run, h] using ht
    | ok v => simpa only [run, h, proceed_ok] using ht.setSlot s v
  | .push s e => by
    cases h : e.eval env st with
    | error err => simpa [run, h] using ht
    | ok v =>
      cases hl : st.list s with
      | error err => simpa [run, h, hl] using ht
      | ok items => simpa only [run, h, hl, proceed_ok] using ht.setSlot s _
  | .reserve s e => by
    cases hl : st.list s <;> simpa [run_reserve, hl] using ht
  | .branch c yes no => by
    cases h : c.test env st with
    | error err => simpa [run, h] using ht
    | ok b =>
      by_cases hb : b = some true
      · simpa [run, h, hb] using runAll_holds env ht yes
      · simpa [run, h, hb] using runAll_holds env ht no

theorem runAll_holds (env : Env) {st : Store} {t : SlotId} (ht : st.Holds t) :
    ∀ ss : List Stmt, (runAll env st ss).1.Holds t
  | [] => ht
  | s :: rest => by
    have hs := run_holds env ht s
    cases h : s.run env st with
    | mk st' r =>
      rw [h] at hs
      cases r with
      | error err => simpa [runAll, h] using hs
      | ok _ =>
        simp only [runAll, h]
        exact runAll_holds env hs rest

end

/-! ## What a completed run has set -/

mutual

theorem run_assigned (env : Env) {st st' : Store} {t : SlotId} :
    ∀ s : Stmt, s.run env st = (st', .ok ()) → t ∈ s.assigned → st'.Holds t
  | .declare _ _ _, _, ht => by simp [assigned] at ht
  | .setLocal _ _, _, ht => by simp [assigned] at ht
  | .assign s e, h, ht => by
    have hts : t = s := by simpa [assigned] using ht
    obtain ⟨v, _, hv⟩ := proceed_eq_ok h
    simp only [Prod.mk.injEq] at hv
    rw [← hv.1, hts]
    exact .setSlot_self st s v
  | .push _ _, _, ht => by simp [assigned] at ht
  | .reserve _ _, _, ht => by simp [assigned] at ht
  | .branch c yes no, h, ht => by
    obtain ⟨hyes, hno⟩ := mem_assigned_branch.mp ht
    obtain ⟨b, _, hb⟩ := proceed_eq_ok h
    split at hb
    · exact runAll_assigned env yes hb hyes
    · exact runAll_assigned env no hb hno

/-- A run that comes to its end has set every slot that its text surely assigns. -/
theorem runAll_assigned (env : Env) {st st' : Store} {t : SlotId} :
    ∀ ss : List Stmt, runAll env st ss = (st', .ok ()) → t ∈ assignedAll ss → st'.Holds t
  | [], _, ht => by simp [assignedAll] at ht
  | s :: rest, h, ht => by
    obtain ⟨st₁, h₁, h₂⟩ := andThen_eq_ok h
    simp only [assignedAll, List.mem_append] at ht
    rcases ht with ht | ht
    · have hst₁ := run_assigned env s h₁ ht
      simpa only [h₂] using runAll_holds env hst₁ rest
    · exact runAll_assigned env rest h₂ ht

end

mutual

theorem assigned_subset_written : ∀ s : Stmt, s.assigned ⊆ s.written
  | .declare _ _ _ => by simp [assigned]
  | .setLocal _ _ => by simp [assigned]
  | .assign s e => by simp [assigned, written]
  | .push _ _ => by simp [assigned]
  | .reserve _ _ => by simp [assigned]
  | .branch c yes no => by
    intro t ht
    have hyes := (mem_assigned_branch.mp ht).1
    simp only [written, List.mem_append]
    exact .inl (assignedAll_subset_writtenAll yes hyes)

theorem assignedAll_subset_writtenAll : ∀ ss : List Stmt, assignedAll ss ⊆ writtenAll ss
  | [] => by simp [assignedAll]
  | s :: rest => by
    intro t ht
    simp only [assignedAll, List.mem_append] at ht
    simp only [writtenAll, List.mem_append]
    exact ht.imp (fun h => assigned_subset_written s h)
      (fun h => assignedAll_subset_writtenAll rest h)

end

/-! ## Where a run finds a slot unset -/

mutual

theorem run_unset (env : Env) {st st' : Store} {t : SlotId} :
    ∀ s : Stmt, s.run env st = (st', .error (.unsetSlot t)) → t ∈ s.touched ∧ ¬ st.Holds t
  | .declare x _ e, h => by
    rcases proceed_eq_error h with ⟨h, _⟩ | ⟨v, _, h⟩
    · exact Expr.eval_unset h
    · simp at h
  | .setLocal x e, h => by
    rcases proceed_eq_error h with ⟨h, _⟩ | ⟨v, _, h⟩
    · exact Expr.eval_unset h
    · simp at h
  | .assign s e, h => by
    rcases proceed_eq_error h with ⟨h, _⟩ | ⟨v, _, h⟩
    · exact ⟨by simp [touched, (Expr.eval_unset h).1], (Expr.eval_unset h).2⟩
    · simp at h
  | .push s e, h => by
    rcases proceed_eq_error h with ⟨h, _⟩ | ⟨v, _, h⟩
    · exact ⟨by simp [touched, (Expr.eval_unset h).1], (Expr.eval_unset h).2⟩
    · rcases proceed_eq_error h with ⟨h, _⟩ | ⟨items, _, h⟩
      · obtain ⟨hst, hn⟩ := Store.list_unset h
        exact ⟨by simp [touched, hst], hn⟩
      · simp at h
  | .reserve s e, h => by
    rcases proceed_eq_error h with ⟨h, _⟩ | ⟨items, _, h⟩
    · obtain ⟨hst, hn⟩ := Store.list_unset h
      exact ⟨by simp [touched, hst], hn⟩
    · simp at h
  | .branch c yes no, h => by
    rcases proceed_eq_error h with ⟨h, _⟩ | ⟨b, _, h⟩
    · exact ⟨by simp [touched, (Expr.test_unset h).1], (Expr.test_unset h).2⟩
    · split at h
      · obtain ⟨hm, hn⟩ := runAll_unset env yes h
        exact ⟨by simp [touched, hm], hn⟩
      · obtain ⟨hm, hn⟩ := runAll_unset env no h
        exact ⟨by simp [touched, hm], hn⟩

/-- A run stops at an unset slot only if its text touches that slot, which was unset from
the start. -/
theorem runAll_unset (env : Env) {st st' : Store} {t : SlotId} :
    ∀ ss : List Stmt, runAll env st ss = (st', .error (.unsetSlot t)) →
      t ∈ touchedAll ss ∧ ¬ st.Holds t
  | [], h => by simp [runAll] at h
  | s :: rest, h => by
    rcases andThen_eq_error h with h | ⟨st₁, h₁, h₂⟩
    · obtain ⟨hm, hn⟩ := run_unset env s h
      exact ⟨by simp [touchedAll, hm], hn⟩
    · obtain ⟨hm, hn⟩ := runAll_unset env rest h₂
      refine ⟨by simp [touchedAll, hm], fun ht => hn ?_⟩
      simpa only [h₁] using run_holds env ht s

end

/-- A run that fails does so at one of its statements, after those before it. -/
theorem runAll_error_split {env : Env} {st st' : Store} {e : RunError} {ss : List Stmt}
    (h : runAll env st ss = (st', .error e)) :
    ∃ before s after st₁, ss = before ++ s :: after ∧
      runAll env st before = (st₁, .ok ()) ∧ s.run env st₁ = (st', .error e) := by
  induction ss generalizing st with
  | nil => simp [runAll] at h
  | cons s rest ih =>
    rcases andThen_eq_error h with h | ⟨st₁, h₁, h₂⟩
    · exact ⟨[], s, rest, st, rfl, rfl, h⟩
    · obtain ⟨before, x, after, st₂, rfl, hb, hx⟩ := ih h₂
      exact ⟨s :: before, x, after, st₂, rfl, by simp [runAll, h₁, hb], hx⟩

end Stmt

end WindowFold
