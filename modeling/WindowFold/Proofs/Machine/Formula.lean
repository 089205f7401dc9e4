import WindowFold.Proofs.Machine.Numbers

/-!
# Formulas of whole numbers

Words, opposites and the four operations make formulas, nested to any depth.  A formula comes to the
exact whole number, or else to an error (`formula_exact`): it does not fail exactly if all that is
computed on the way are words and nothing is divided by zero, and if it fails, then with the error
of the first of its parts that goes wrong, where operands come before what is computed from them and
left ones before right ones.
-/

namespace WindowFold

/-- A way to compute a whole number from words. -/
inductive Formula where
  | number (n : Int) (word : IsWord n)
  | opposite (t : Formula)
  | apply (op : ArithOp) (l r : Formula)

namespace Formula

def expr : Formula → Expr
  | number n _ => .int n
  | opposite t => .unary .neg t.expr
  | apply op l r => .binary (.arith op) l.expr r.expr

/-- What it comes to in whole numbers of any size. -/
def exact : Formula → Int
  | number n _ => n
  | opposite t => -t.exact
  | apply op l r => op.exact l.exact r.exact

/-- The formulas it is made of, each behind its operands, and the left ones before the right. -/
def parts : Formula → List Formula
  | number n h => [number n h]
  | opposite t => t.parts ++ [opposite t]
  | apply op l r => l.parts ++ r.parts ++ [apply op l r]

/-- The last operation is a division, and what it divides by comes to zero. -/
def DividesByZero : Formula → Prop
  | apply op _ r => op = .div ∧ r.exact = 0
  | _ => False

/-- What goes wrong in the last operation, given what its operands come to. -/
def fault? : Formula → Option RunError
  | number _ _ => none
  | opposite t => if IsWord (-t.exact) then none else some .negationOverflow
  | apply op l r =>
    if op = .div ∧ r.exact = 0 then some .divisionByZero
    else if IsWord (op.exact l.exact r.exact) then none
    else some .arithmeticOverflow

theorem fault?_eq_none {t : Formula} : t.fault? = none ↔ IsWord t.exact ∧ ¬t.DividesByZero := by
  cases t with
  | number n h => exact ⟨fun _ => ⟨h, id⟩, fun _ => rfl⟩
  | opposite t => simp [fault?, exact, DividesByZero]
  | apply op l r =>
    simp only [fault?, exact, DividesByZero]
    by_cases hzero : op = .div ∧ r.exact = 0
    · simp [hzero]
    · rw [if_neg hzero, ite_eq_left_iff]
      exact ⟨fun h => ⟨by_contra fun hword => Option.some_ne_none _ (h hword), hzero⟩,
        fun h hword => absurd h.1 hword⟩

/-- A formula is the last of its own parts. -/
theorem parts_eq (t : Formula) : ∃ before, t.parts = before ++ [t] := by
  cases t with
  | number n h => exact ⟨[], rfl⟩
  | opposite t => exact ⟨_, rfl⟩
  | apply op l r => exact ⟨_, rfl⟩

theorem isWord_of_parts {t : Formula} (h : t.parts.findSome? fault? = none) : IsWord t.exact := by
  obtain ⟨before, hparts⟩ := t.parts_eq
  rw [hparts, List.findSome?_append, Option.or_eq_none_iff] at h
  have hlast : t.fault? = none := List.findSome?_eq_none_iff.mp h.2 t (List.mem_singleton_self t)
  exact (fault?_eq_none.mp hlast).1

/-- Evaluation stops at the first part that goes wrong. -/
theorem eval_eq (t : Formula) (env : Env) (st : Store) : t.expr.eval env st =
    match t.parts.findSome? fault? with
    | none => .ok (.int t.exact)
    | some e => .error e := by
  induction t with
  | number n h => rfl
  | opposite t ih =>
    have hnext : (opposite t).expr.eval env st =
        (t.expr.eval env st).bind fun v => UnaryOp.neg.apply v := rfl
    rw [hnext, ih, parts, List.findSome?_append]
    cases hfault : t.parts.findSome? fault? with
    | some e => rfl
    | none =>
      have hword := isWord_of_parts hfault
      show negate (.int t.exact) = _
      rw [negate_whole (by omega), if_pos hword]
      simp only [Option.none_or, List.findSome?_singleton, fault?, exact]
      split <;> rfl
  | apply op l r ihl ihr =>
    have hnext : (apply op l r).expr.eval env st =
        (l.expr.eval env st).bind fun a => (r.expr.eval env st).bind fun b => op.apply a b := rfl
    rw [hnext, ihl, ihr, parts, List.findSome?_append, List.findSome?_append]
    cases hleft : l.parts.findSome? fault? with
    | some e => rfl
    | none =>
      cases hright : r.parts.findSome? fault? with
      | some e => rfl
      | none =>
        have hl := isWord_of_parts hleft
        have hr := isWord_of_parts hright
        show op.apply (.int l.exact) (.int r.exact) = _
        rw [ArithOp.apply_words hl hr, ArithOp.words_eq, wordResult]
        simp only [Option.none_or, List.findSome?_singleton, fault?, exact]
        split
        · rfl
        · split <;> rfl

end Formula

/-- A formula is evaluated to a value exactly if every part comes to a word and none divides by
zero, in whole numbers of any size and with division dropping the fraction, and then the value is
what the formula comes to.  It fails exactly with the error of the first part for which that is not
so. -/
theorem formula_exact (t : Formula) (env : Env) (st : Store) :
    let Sound := fun u : Formula => IsWord u.exact ∧ ¬u.DividesByZero
    (∀ v, t.expr.eval env st = .ok v ↔ (∀ u ∈ t.parts, Sound u) ∧ v = .int t.exact) ∧
    ∀ e, t.expr.eval env st = .error e ↔ ∃ before u after, t.parts = before ++ u :: after ∧
      (∀ w ∈ before, Sound w) ∧ ¬Sound u ∧ u.fault? = some e := by
  intro Sound
  have hsound (u : Formula) : u.fault? = none ↔ Sound u := Formula.fault?_eq_none
  have heval := t.eval_eq env st
  cases hfault : t.parts.findSome? Formula.fault? with
  | none =>
    rw [hfault] at heval
    have hall : ∀ u ∈ t.parts, Sound u :=
      fun u hu => (hsound u).mp (List.findSome?_eq_none_iff.mp hfault u hu)
    refine ⟨fun v => ?_, fun e => ?_⟩
    · rw [heval, Except.ok.injEq, eq_comm]
      exact ⟨fun h => ⟨hall, h⟩, fun h => h.2⟩
    · rw [heval]
      refine ⟨nofun, ?_⟩
      rintro ⟨before, u, after, hsplit, _, hu, _⟩
      exact absurd (hall u (by rw [hsplit]; simp)) hu
  | some err =>
    rw [hfault] at heval
    obtain ⟨before, u, after, hsplit, hu, hbefore⟩ := List.findSome?_eq_some_iff.mp hfault
    have hunsound : ¬Sound u := fun h => by
      rw [(hsound u).mpr h] at hu
      cases hu
    refine ⟨fun v => ?_, fun e => ?_⟩
    · rw [heval]
      refine ⟨nofun, ?_⟩
      rintro ⟨hall, _⟩
      exact absurd (hall u (by rw [hsplit]; simp)) hunsound
    · rw [heval, Except.error.injEq]
      constructor
      · rintro rfl
        exact ⟨before, u, after, hsplit, fun w hw => (hsound w).mp (hbefore w hw), hunsound, hu⟩
      · rintro ⟨before', u', after', hsplit', hbefore', _, hu'⟩
        have hfirst : t.parts.findSome? Formula.fault? = some e :=
          List.findSome?_eq_some_iff.mpr ⟨before', u', after', hsplit', hu',
            fun w hw => (hsound w).mpr (hbefore' w hw)⟩
        rw [hfault] at hfirst
        exact Option.some.inj hfirst

/-- Of the sum that is too large and the division by zero the sum comes first. -/
example (env : Env) (st : Store) :
    let greatest := Formula.number 0x7fffffffffffffff (by decide)
    let zero := Formula.number 0 (by decide)
    (Formula.apply .div (.apply .add greatest greatest) zero).expr.eval env st =
      .error .arithmeticOverflow := rfl

end WindowFold
