import WindowFold.Proofs.Machine.Steps

/-!
# Three-valued logic

The connectives are those of three-valued logic, NULL being unknown, with the right operand looked
at only if the left one leaves the outcome open.  What a connective comes to depends on what the
tests of its operands come to alone, failures included (`test_logic`).  So it is associative with
the same value or the same error on both sides, and turned into the other one by negation, if only
up to the error; and the order of operands matters at most for errors (`logic_laws`).
-/

namespace WindowFold

namespace LogicOp

def dual : LogicOp → LogicOp
  | .and => .or
  | .or => .and

/-- What comes of the truth of two operands, each of which may fail. -/
def outcome (op : LogicOp) (x y : Except RunError (Option Bool)) :
    Except RunError (Option Bool) :=
  match x with
  | .error e => .error e
  | .ok s => if s = some op.absorbing then .ok (some op.absorbing) else y.map (op.combine s)

variable {op : LogicOp} {s t : Option Bool} {x y : Except RunError (Option Bool)}

/-! ## Truth values -/

theorem combine_comm (op : LogicOp) (s t : Option Bool) : op.combine s t = op.combine t s := by
  rcases op with _ | _ <;> rcases s with _ | _ | _ <;> rcases t with _ | _ | _ <;> rfl

theorem combine_assoc (op : LogicOp) (r s t : Option Bool) :
    op.combine (op.combine r s) t = op.combine r (op.combine s t) := by
  rcases op with _ | _ <;> rcases r with _ | _ | _ <;> rcases s with _ | _ | _ <;>
    rcases t with _ | _ | _ <;> rfl

theorem combine_absorbing (op : LogicOp) (s : Option Bool) :
    op.combine s (some op.absorbing) = some op.absorbing := by
  rw [combine, if_pos (.inr rfl)]

/-- Only the absorbing value absorbs. -/
theorem combine_eq_absorbing : op.combine s t = some op.absorbing ↔
    s = some op.absorbing ∨ t = some op.absorbing := by
  rcases op with _ | _ <;> rcases s with _ | _ | _ <;> rcases t with _ | _ | _ <;> decide

theorem not_combine (op : LogicOp) (s t : Option Bool) :
    (op.combine s t).map Bool.not = op.dual.combine (s.map Bool.not) (t.map Bool.not) := by
  rcases op with _ | _ <;> rcases s with _ | _ | _ <;> rcases t with _ | _ | _ <;> rfl

theorem not_eq_absorbing : s.map Bool.not = some op.dual.absorbing ↔ s = some op.absorbing := by
  rcases op with _ | _ <;> rcases s with _ | _ | _ <;> decide

/-! ## Truth values that may not be there -/

theorem outcome_absorbing (y : Except RunError (Option Bool)) :
    op.outcome (.ok (some op.absorbing)) y = .ok (some op.absorbing) := if_pos rfl

theorem outcome_open (hs : s ≠ some op.absorbing) :
    op.outcome (.ok s) y = y.map (op.combine s) := if_neg hs

theorem outcome_ok (op : LogicOp) (s t : Option Bool) :
    op.outcome (.ok s) (.ok t) = .ok (op.combine s t) := by
  by_cases hs : s = some op.absorbing
  · rw [hs, outcome_absorbing, combine_comm, combine_absorbing]
  · rw [outcome_open hs]
    rfl

theorem outcome_assoc (op : LogicOp) (x y z : Except RunError (Option Bool)) :
    op.outcome (op.outcome x y) z = op.outcome x (op.outcome y z) := by
  cases x with
  | error e => rfl
  | ok s =>
    by_cases hs : s = some op.absorbing
    · rw [hs, outcome_absorbing, outcome_absorbing, outcome_absorbing]
    rw [outcome_open hs, outcome_open hs]
    cases y with
    | error e => rfl
    | ok t =>
      show op.outcome (.ok (op.combine s t)) z = _
      by_cases ht : t = some op.absorbing
      · rw [ht, combine_absorbing, outcome_absorbing]
        show _ = Except.ok (op.combine s (some op.absorbing))
        rw [combine_absorbing]
      · rw [outcome_open ht, outcome_open fun h => (combine_eq_absorbing.mp h).elim hs ht]
        cases z with
        | error e => rfl
        | ok u => exact congrArg Except.ok (combine_assoc op s t u)

/-- Errors apart, negating the operands of the other connective negates the outcome. -/
theorem outcome_not (op : LogicOp) {x' y' : Except RunError (Option Bool)}
    (hx : x'.toOption = x.toOption.map (Option.map Bool.not))
    (hy : y'.toOption = y.toOption.map (Option.map Bool.not)) :
    (op.dual.outcome x' y').toOption = (op.outcome x y).toOption.map (Option.map Bool.not) := by
  cases x with
  | error e =>
    cases x' with
    | error e' => rfl
    | ok s' => cases hx
  | ok s =>
    cases x' with
    | error e' => cases hx
    | ok s' =>
      obtain rfl : s' = s.map Bool.not := Option.some.inj hx
      by_cases hs : s = some op.absorbing
      · rw [not_eq_absorbing.mpr hs, hs, outcome_absorbing, outcome_absorbing]
        exact congrArg some (not_eq_absorbing.mpr rfl).symm
      rw [outcome_open hs, outcome_open fun h => hs (not_eq_absorbing.mp h)]
      cases y with
      | error e =>
        cases y' with
        | error e' => rfl
        | ok t' => cases hy
      | ok t =>
        cases y' with
        | error e' => cases hy
        | ok t' =>
          obtain rfl : t' = t.map Bool.not := Option.some.inj hy
          exact congrArg some (not_combine op s t).symm

/-- The right operand's failure is that of the whole if the left one leaves the outcome open, and
otherwise goes unnoticed. -/
theorem outcome_error {e : RunError} : op.outcome x (.error e) = .error e ∧ x ≠ .error e ↔
    x = .ok none ∨ x = .ok (some !op.absorbing) := by
  cases x with
  | error e' =>
    have hsame : op.outcome (.error e') (.error e) = .error e' := rfl
    simp [hsame]
  | ok s =>
    by_cases hs : s = some op.absorbing
    · rw [hs, outcome_absorbing]
      rcases op with _ | _ <;> simp [absorbing]
    · rw [outcome_open hs]
      have hopen : s = none ∨ s = some !op.absorbing := by
        rcases op with _ | _ <;> rcases s with _ | _ | _ <;> simp_all [absorbing]
      refine ⟨fun _ => hopen.imp (congrArg Except.ok) (congrArg Except.ok), fun _ => ⟨rfl, ?_⟩⟩
      intro h
      cases h

end LogicOp

/-! ## Expressions -/

section

variable {env : Env} {st : Store} {a b : Expr} {s : Option Bool}

theorem Value.truth_ofTruth (s : Option Bool) : (Value.ofTruth s).truth = .ok s := by
  rcases s with _ | _ <;> rfl

theorem Value.truth_eq_ok {v : Value} : v.truth = .ok s ↔ v = .ofTruth s := by
  rcases s with _ | _ <;> cases v <;> simp [Value.truth, Value.ofTruth]

theorem test_eq_ok : a.test env st = .ok s ↔ a.eval env st = .ok (.ofTruth s) := by
  constructor
  · intro h
    obtain ⟨v, hv, htruth⟩ := truth_of_test h
    rw [hv, Value.truth_eq_ok.mp htruth]
  · intro h
    rw [Expr.test, h]
    exact Value.truth_ofTruth s

theorem eval_logic (op : LogicOp) (a b : Expr) : (Expr.binary (.logic op) a b).eval env st =
    (op.outcome (a.test env st) (b.test env st)).map Value.ofTruth := by
  simp only [Expr.eval, Expr.test]
  cases a.eval env st with
  | error e => rfl
  | ok v =>
    simp only [bind, Except.bind]
    cases v.truth with
    | error e => rfl
    | ok s =>
      simp only
      by_cases hs : s = some op.absorbing
      · rw [if_pos hs, hs, LogicOp.outcome_absorbing]
        rfl
      · rw [if_neg hs, LogicOp.outcome_open hs]
        cases b.eval env st with
        | error e => rfl
        | ok w =>
          simp only
          cases w.truth <;> rfl

theorem test_logic (op : LogicOp) (a b : Expr) : (Expr.binary (.logic op) a b).test env st =
    op.outcome (a.test env st) (b.test env st) := by
  rw [Expr.test, eval_logic]
  cases op.outcome (a.test env st) (b.test env st) with
  | error e => rfl
  | ok s => exact Value.truth_ofTruth s

/-- A negation fails if its operand has no truth, with an error of its own. -/
theorem eval_not (a : Expr) (env : Env) (st : Store) : (a.not.eval env st).toOption =
    (a.test env st).toOption.map fun s => .ofTruth (s.map Bool.not) := by
  simp only [Expr.not, Expr.eval, Expr.test]
  cases a.eval env st with
  | error e => rfl
  | ok v => cases v <;> rfl

theorem test_not (a : Expr) (env : Env) (st : Store) : (a.not.test env st).toOption =
    (a.test env st).toOption.map (Option.map Bool.not) := by
  have heval := eval_not a env st
  rw [Expr.test]
  cases h : a.not.eval env st with
  | error e =>
    rw [h] at heval
    cases ht : a.test env st with
    | error e' => rfl
    | ok s =>
      rw [ht] at heval
      cases heval
  | ok v =>
    rw [h] at heval
    cases ht : a.test env st with
    | error e' =>
      rw [ht] at heval
      cases heval
    | ok s =>
      rw [ht] at heval
      obtain rfl := Option.some.inj heval
      exact congrArg Except.toOption (Value.truth_ofTruth _)

end

/-- The laws of the connectives, whatever the operands come to.  Three operands may be grouped
either way, with the same value or the same error.  The negation of a connective and the other
connective of the negations have the same value or both fail.  Two operands that are both boolean or
NULL may change places.  An error of the right operand surfaces exactly if the left one is NULL or
the boolean that does not absorb: it is then the error of the whole, and not because the left operand
fails with it; and whatever the left operand fails with is the error of the whole. -/
theorem logic_laws (op : LogicOp) (a b c : Expr) (env : Env) (st : Store) :
    let eval := fun e : Expr => e.eval env st
    let join := fun (op : LogicOp) (a b : Expr) => Expr.binary (.logic op) a b
    eval (join op (join op a b) c) = eval (join op a (join op b c)) ∧
    (eval (join op a b).not).toOption = (eval (join op.dual a.not b.not)).toOption ∧
    (∀ s t, eval a = .ok (.ofTruth s) → eval b = .ok (.ofTruth t) →
      eval (join op a b) = .ok (.ofTruth (op.combine s t)) ∧
      eval (join op a b) = eval (join op b a)) ∧
    (∀ e, b.test env st = .error e → (eval (join op a b) = .error e ∧ a.test env st ≠ .error e ↔
      eval a = .ok .null ∨ eval a = .ok (.bool !op.absorbing))) ∧
    (∀ e, a.test env st = .error e → eval (join op a b) = .error e) ∧
    (eval a = .ok (.bool op.absorbing) → eval (join op a b) = .ok (.bool op.absorbing)) := by
  intro eval join
  refine ⟨?_, ?_, fun s t ha hb => ?_, fun e hb => ?_, fun e ha => ?_, fun ha => ?_⟩
  · simp only [eval, join, eval_logic, test_logic, LogicOp.outcome_assoc]
  · have hdual := LogicOp.outcome_not op (test_not a env st) (test_not b env st)
    have hmap {α β : Type} (f : α → β) (r : Except RunError α) :
        (r.map f).toOption = r.toOption.map f := by cases r <;> rfl
    simp only [eval, join, eval_not, eval_logic, test_logic, hmap, hdual, Option.map_map]
    rfl
  · have ha := test_eq_ok.mpr ha
    have hb := test_eq_ok.mpr hb
    simp only [eval, join, eval_logic, ha, hb, LogicOp.outcome_ok, op.combine_comm t s]
    exact ⟨rfl, trivial⟩
  · have hnull : eval a = .ok (.ofTruth none) ↔ a.test env st = .ok none := test_eq_ok.symm
    have hbool : eval a = .ok (.ofTruth (some !op.absorbing)) ↔
        a.test env st = .ok (some !op.absorbing) := test_eq_ok.symm
    have herror (r : Except RunError (Option Bool)) :
        r.map Value.ofTruth = .error e ↔ r = .error e := by cases r <;> simp [Except.map]
    refine Iff.trans ?_ ((LogicOp.outcome_error (e := e)).trans (or_congr hnull.symm hbool.symm))
    simp only [eval, join, eval_logic, hb, herror]
  · simp only [eval, join, eval_logic, ha]
    rfl
  · have ha : a.test env st = .ok (some op.absorbing) := test_eq_ok.mpr ha
    simp only [eval, join, eval_logic, ha, LogicOp.outcome_absorbing]
    rfl

/-- Without a frame it is an error to ask whether there are rows.  NULL lets that error through, and
a boolean that absorbs does not; and the two may change places. -/
theorem null_lets_through :
    let eval := fun e : Expr => e.eval ⟨[], none⟩ .fresh
    let asked := Expr.fact .hasRows
    eval (Expr.null.and asked) = .error (.unboundFact .hasRows) ∧
    eval ((Expr.bool false).and asked) = .ok (.bool false) ∧
    eval (Expr.null.and (.bool false)) = eval ((Expr.bool false).and .null) := by
  intro eval asked
  have hasked : asked.test ⟨[], none⟩ .fresh = .error (.unboundFact .hasRows) := rfl
  obtain ⟨_, _, _, herror, _⟩ := logic_laws .and .null asked asked ⟨[], none⟩ .fresh
  obtain ⟨_, _, _, _, _, habsorbs⟩ := logic_laws .and (.bool false) asked asked ⟨[], none⟩ .fresh
  obtain ⟨_, _, hplaces, _⟩ := logic_laws .and .null (.bool false) asked ⟨[], none⟩ .fresh
  exact ⟨((herror _ hasked).mpr (.inl rfl)).1, habsorbs rfl, (hplaces none (some false) rfl rfl).2⟩

end WindowFold
