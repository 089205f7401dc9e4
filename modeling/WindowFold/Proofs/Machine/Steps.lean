import WindowFold.Machine.Run

/-!
# Single steps, and code repeated for each item of a list

What one expression or statement does when its parts are known to succeed.

A block that has the same code for item after item runs as a fold over the items
(`runAll_flatMap`).  When the code for an item takes a store in relation with a state to one in
relation with the next state, the whole run follows the fold of the states (`runAll_follows`).
-/

namespace WindowFold

/-- An argument is read at a position inside the partition. -/
theorem eval_argument {env : Env} {st : Store} {row : Expr} {v x : Value} {r i : Nat}
    {values : List Value} (hrow : row.eval env st = .ok v) (hv : v.word? = some (Int.ofNat r))
    (hvalues : env.rows[r]? = some values) (hx : values[i]? = some x) :
    (Expr.argument i row).eval env st = .ok x := by
  have hfound : env.row v = .ok values := by
    simp only [Env.row, hv, hvalues]
  simp only [Expr.eval, hrow, Env.argument, hfound, bind, Except.bind, hx]

theorem word?_ofNat {r : Nat} (hr : IsWord r) : (Value.int r).word? = some (Int.ofNat r) := by
  rw [Value.word?, if_pos hr]
  rfl

def Value.isNull : Value → Bool
  | .null => true
  | _ => false

theorem Value.isNull_iff {v : Value} : v.isNull = true ↔ v = .null := by
  cases v <;> simp [Value.isNull]

section

variable {env : Env} {st : Store} {e : Expr} {v : Value}

theorem test_isNull (h : e.eval env st = .ok v) : e.isNull.test env st = .ok (some v.isNull) := by
  have happly : UnaryOp.isNull.apply v = .ok (.bool v.isNull) := by cases v <;> rfl
  simp only [Expr.test, Expr.isNull, Expr.eval, h, bind, Except.bind, happly, Value.truth]

theorem test_isNotNull (h : e.eval env st = .ok v) :
    e.isNotNull.test env st = .ok (some !v.isNull) := by
  have happly : UnaryOp.isNotNull.apply v = .ok (.bool !v.isNull) := by cases v <;> rfl
  simp only [Expr.test, Expr.isNotNull, Expr.eval, h, bind, Except.bind, happly, Value.truth]

theorem eval_slot {x : SlotId} (h : st.slots x = some v) : (Expr.slot x).eval env st = .ok v := by
  simp only [Expr.eval, h]

/-- Operations on words are those on whole numbers, if the outcome is a word. -/
theorem eval_words {op : ArithOp} {e' : Expr} {m n : Int} (he : e.eval env st = .ok (.int m))
    (he' : e'.eval env st = .ok (.int n)) (hm : IsWord m) (hn : IsWord n) :
    (Expr.binary (.arith op) e e').eval env st = op.words m n := by
  simp only [Expr.eval, he, he', bind, Except.bind, ArithOp.apply, Value.word?, if_pos hm,
    if_pos hn]

/-- Words are added exactly when their sum is one. -/
theorem eval_add_words {e' : Expr} {m n : Int} (he : e.eval env st = .ok (.int m))
    (he' : e'.eval env st = .ok (.int n)) (hm : IsWord m) (hn : IsWord n) (h : IsWord (m + n)) :
    (e.add e').eval env st = .ok (.int (m + n)) := by
  rw [Expr.add, eval_words he he' hm hn, ArithOp.words, wordResult, if_pos h]

theorem eval_sub_words {e' : Expr} {m n : Int} (he : e.eval env st = .ok (.int m))
    (he' : e'.eval env st = .ok (.int n)) (hm : IsWord m) (hn : IsWord n) (h : IsWord (m - n)) :
    (e.sub e').eval env st = .ok (.int (m - n)) := by
  rw [Expr.sub, eval_words he he' hm hn, ArithOp.words, wordResult, if_pos h]

theorem test_compare_words {op : CompareOp} {e' : Expr} {m n : Int}
    (he : e.eval env st = .ok (.int m)) (he' : e'.eval env st = .ok (.int n)) (hm : IsWord m)
    (hn : IsWord n) :
    (Expr.binary (.compare op) e e').test env st = .ok (some (op.holds (compare m n))) := by
  simp only [Expr.test, Expr.eval, he, he', bind, Except.bind, CompareOp.apply, Value.order,
    Value.word?, if_pos hm, if_pos hn, Except.map, Value.truth]

/-- A test that succeeds is that of a truth value. -/
theorem truth_of_test {t : Option Bool} (h : e.test env st = .ok t) :
    ∃ v, e.eval env st = .ok v ∧ v.truth = .ok t := by
  rw [Expr.test] at h
  cases he : e.eval env st with
  | error err => simp [he, bind, Except.bind] at h
  | ok v => exact ⟨v, rfl, by simpa [he, bind, Except.bind] using h⟩

theorem eval_choose {c yes no : Expr} {t : Bool} (h : c.test env st = .ok (some t)) :
    (Expr.choose c yes no).eval env st = if t then yes.eval env st else no.eval env st := by
  obtain ⟨v, hv, htruth⟩ := truth_of_test h
  simp only [Expr.eval, hv, bind, Except.bind, htruth, Option.some.injEq]

/-- The second side is looked at only if the first one is false. -/
theorem test_or {a b : Expr} {x y : Bool} (ha : a.test env st = .ok (some x))
    (hb : x = false → b.test env st = .ok (some y)) :
    (a.or b).test env st = .ok (some (x || y)) := by
  obtain ⟨v, hv, hvt⟩ := truth_of_test ha
  cases x with
  | true =>
    simp only [Expr.test, Expr.or, Expr.eval, hv, bind, Except.bind, hvt, LogicOp.absorbing]
    rfl
  | false =>
    obtain ⟨w, hw, hwt⟩ := truth_of_test (hb rfl)
    simp only [Expr.test, Expr.or, Expr.eval, hv, hw, bind, Except.bind, hvt, hwt,
      LogicOp.absorbing]
    cases y <;> rfl

/-- If the first side is false the second one decides. -/
theorem test_or_false {a b : Expr} (ha : a.test env st = .ok (some false)) :
    (a.or b).test env st = b.test env st := by
  obtain ⟨w, hw, htruth⟩ := truth_of_test ha
  simp only [Expr.test, Expr.or, Expr.eval, hw, bind, Except.bind, htruth, LogicOp.absorbing]
  cases b.eval env st with
  | error err => rfl
  | ok u =>
    simp only
    cases u.truth with
    | error err => rfl
    | ok t => rcases t with _ | (_ | _) <;> rfl

/-- The second side is looked at only if the first one is true. -/
theorem test_and {a b : Expr} {x y : Bool} (ha : a.test env st = .ok (some x))
    (hb : x = true → b.test env st = .ok (some y)) :
    (a.and b).test env st = .ok (some (x && y)) := by
  obtain ⟨v, hv, hvt⟩ := truth_of_test ha
  cases x with
  | false =>
    simp only [Expr.test, Expr.and, Expr.eval, hv, bind, Except.bind, hvt, LogicOp.absorbing]
    rfl
  | true =>
    obtain ⟨w, hw, hwt⟩ := truth_of_test (hb rfl)
    simp only [Expr.test, Expr.and, Expr.eval, hv, hw, bind, Except.bind, hvt, hwt,
      LogicOp.absorbing]
    cases y <;> rfl

end

theorem runAll_singleton (env : Env) (st : Store) (s : Stmt) :
    Stmt.runAll env st [s] = s.run env st := by
  simp only [Stmt.runAll]
  cases h : s.run env st with
  | mk st' r => cases r <;> rfl

theorem run_branch {env : Env} {st : Store} {c : Expr} {t : Option Bool}
    (h : c.test env st = .ok t) (yes no : List Stmt) :
    (Stmt.branch c yes no).run env st =
      if t = some true then Stmt.runAll env st yes else Stmt.runAll env st no := by
  simp only [Stmt.run, h, proceed_ok]

variable {α σ : Type}

theorem runAll_flatMap (env : Env) (st : Store) (ss : List Stmt) (code : α → List Stmt)
    (items : List α) : Stmt.runAll env st (ss ++ items.flatMap code) =
      items.foldl (fun o a => andThen o fun st => Stmt.runAll env st (code a))
        (Stmt.runAll env st ss) := by
  induction items generalizing ss with
  | nil => rw [List.flatMap_nil, List.append_nil, List.foldl_nil]
  | cons a rest ih =>
    rw [List.flatMap_cons, ← List.append_assoc, ih, List.foldl_cons, Stmt.runAll_append]

/-- The run comes to its end in a store that satisfies `P`. -/
def Completes (o : Outcome) (P : Store → Prop) : Prop := ∃ st, o = (st, .ok ()) ∧ P st

theorem Completes.mono {o : Outcome} {P Q : Store → Prop} (h : Completes o P)
    (hPQ : ∀ st, P st → Q st) : Completes o Q := by
  obtain ⟨st, ho, hP⟩ := h
  exact ⟨st, ho, hPQ st hP⟩

theorem Completes.andThen {o : Outcome} {P Q : Store → Prop} {k : Store → Outcome}
    (h : Completes o P) (hk : ∀ st, P st → Completes (k st) Q) :
    Completes (WindowFold.andThen o k) Q := by
  obtain ⟨st, rfl, hP⟩ := h
  exact hk st hP

theorem Completes.append {env : Env} {st : Store} {a b : List Stmt} {P Q : Store → Prop}
    (ha : Completes (Stmt.runAll env st a) P)
    (hb : ∀ st, P st → Completes (Stmt.runAll env st b) Q) :
    Completes (Stmt.runAll env st (a ++ b)) Q := by
  rw [Stmt.runAll_append]
  exact ha.andThen hb

theorem assign_completes {env : Env} {st : Store} {x : SlotId} {e : Expr} {v : Value}
    (h : e.eval env st = .ok v) :
    Completes (Stmt.runAll env st [.assign x e]) fun st' => st'.slots x = some v := by
  rw [runAll_singleton]
  exact ⟨st.setSlot x v, by rw [Stmt.run, h, proceed_ok], by simp⟩

/-- A branch runs the side that its condition picks. -/
theorem branch_completes {env : Env} {st : Store} {c : Expr} {t : Bool} {yes : List Stmt}
    {P : Store → Prop} (hc : c.test env st = .ok (some t))
    (hyes : t = true → Completes (Stmt.runAll env st yes) P) (hno : t = false → P st) :
    Completes (Stmt.runAll env st [.branch c yes []]) P := by
  rw [runAll_singleton, run_branch hc]
  cases t with
  | true => exact hyes rfl
  | false => exact ⟨st, rfl, hno rfl⟩

/-- If each item takes the related state one step, all of them take it through the fold. -/
theorem runAll_follows {env : Env} {R : σ → Store → Prop} {code : α → List Stmt}
    {next : σ → α → σ} {items : List α}
    (hstep : ∀ a ∈ items, ∀ x st, R x st → Completes (Stmt.runAll env st (code a)) (R (next x a)))
    {x : σ} {st : Store} (h : R x st) :
    Completes (Stmt.runAll env st (items.flatMap code)) (R (items.foldl next x)) := by
  induction items generalizing x st with
  | nil => exact ⟨st, rfl, h⟩
  | cons a rest ih =>
    rw [List.flatMap_cons, List.foldl_cons]
    refine (hstep a List.mem_cons_self x st h).append ?_
    intro st' h'
    exact ih (fun y hy => hstep y (List.mem_cons_of_mem _ hy)) h'

end WindowFold
