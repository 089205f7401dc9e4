import Mathlib.Algebra.Ring.Int.Defs
import WindowFold.Proofs.Builtin.Course
import WindowFold.Proofs.Builtin.Folding

/-!
# Totals of whole numbers

`sum` over whole numbers of 64 bits and NULLs is exact or fails (`sum_exact`).  The block runs to
its end exactly if every running total is a whole number of 64 bits, and then each bound local holds
the total of what was added since the last reset; if not, the first add that takes the total out of
the range stops the run and changes nothing.

What an add does to the slot is `accrue`, for values of every kind.
-/

namespace WindowFold

namespace Builtin

open Workspace

/-- Add a value to a total, which is NULL for as long as there is none.  NULL adds nothing. -/
def accrue (total v : Value) : Except RunError Value :=
  if v.isNull then .ok total else if total.isNull then .ok v else ArithOp.add.apply total v

/-- The sum of numbers, NULL without any. -/
def exactSum (numbers : List Int) : Value := if numbers = [] then .null else .int numbers.sum

/-- The numbers that count after the events: those in the first column of the rows added since the
last reset. -/
def numbersSince (rows : List (List Value)) (events : List Event) : List Int :=
  (Event.sinceReset events).filterMap fun r => (headOf rows r).number?

/-- Every running total is a whole number of 64 bits. -/
def TotalsFit (rows : List (List Value)) (events : List Event) : Prop :=
  ∀ before, before <+: events → IsWord (numbersSince rows before).sum

def IsWordOrNull (v : Value) : Prop := v = .null ∨ ∃ n, v = .int n ∧ IsWord n

/-- Every row starts with a whole number of 64 bits or NULL. -/
def WholeColumn (rows : List (List Value)) : Prop :=
  ∀ row ∈ rows, ∃ v rest, row = v :: rest ∧ IsWordOrNull v

/-! ## Exact totals -/

theorem accrue_exact {numbers : List Int} (hsum : IsWord numbers.sum) {v : Value}
    (hv : IsWordOrNull v) : accrue (exactSum numbers) v =
      if IsWord (numbers ++ v.number?.toList).sum then
        .ok (exactSum (numbers ++ v.number?.toList))
      else .error .arithmeticOverflow := by
  rcases hv with rfl | ⟨n, rfl, hn⟩
  · rw [show (Value.null.number?.toList) = [] from rfl, List.append_nil, if_pos hsum]
    rfl
  · rw [show (Value.int n).number?.toList = [n] from rfl]
    have hnext : exactSum (numbers ++ [n]) = .int (numbers.sum + n) := by
      rw [exactSum, if_neg (by simp), List.sum_append, List.sum_singleton]
    rw [hnext, List.sum_append, List.sum_singleton]
    by_cases hempty : numbers = []
    · subst hempty
      rw [List.sum_nil, Int.zero_add, if_pos hn]
      rfl
    · rw [show exactSum numbers = .int numbers.sum from if_neg hempty]
      simp only [accrue, Value.isNull, ArithOp.apply, Value.word?, if_pos hsum, if_pos hn,
        ArithOp.words, wordResult, if_neg Bool.false_ne_true]

section

variable {rows : List (List Value)}

theorem WholeColumn.head (h : WholeColumn rows) (r : Nat) : IsWordOrNull (headOf rows r) := by
  cases hr : rows[r]? with
  | none =>
    rw [headOf, hr]
    exact .inl rfl
  | some row =>
    obtain ⟨v, rest, rfl, hv⟩ := h row (List.mem_of_getElem? hr)
    rw [headOf, hr]
    exact hv

theorem WholeColumn.length_pos (h : WholeColumn rows) : ∀ row ∈ rows, 1 ≤ row.length := by
  intro row hrow
  obtain ⟨v, rest, rfl, _⟩ := h row hrow
  exact Nat.succ_le_succ (Nat.zero_le _)

theorem numbersSince_reset (events : List Event) : numbersSince rows (events ++ [.reset]) = [] := by
  rw [numbersSince, Event.sinceReset_snoc]
  rfl

theorem numbersSince_report (events : List Event) (name : String) :
    numbersSince rows (events ++ [.report name]) = numbersSince rows events := by
  rw [numbersSince, Event.sinceReset_snoc]
  rfl

theorem numbersSince_add (events : List Event) (r : Nat) :
    numbersSince rows (events ++ [.add r]) =
      numbersSince rows events ++ (headOf rows r).number?.toList := by
  rw [numbersSince, Event.sinceReset_snoc]
  show (Event.sinceReset events ++ [r]).filterMap _ = _
  rw [List.filterMap_append, List.filterMap_cons, List.filterMap_nil]
  cases (headOf rows r).number? <;> rfl

theorem TotalsFit.snoc {events : List Event} {e : Event} : TotalsFit rows (events ++ [e]) ↔
    TotalsFit rows events ∧ IsWord (numbersSince rows (events ++ [e])).sum := by
  constructor
  · intro h
    exact ⟨fun before hbefore => h before (hbefore.trans (List.prefix_append _ _)),
      h _ (List.prefix_refl _)⟩
  · rintro ⟨h, hlast⟩ before hbefore
    rcases List.prefix_concat_iff.mp hbefore with rfl | hbefore
    · exact hlast
    · exact h before hbefore

theorem TotalsFit.last {events : List Event} (h : TotalsFit rows events) :
    IsWord (numbersSince rows events).sum := h events (List.prefix_refl _)

end

/-! ## What an add does -/

theorem sumCode_runs {s : Nat → SlotId} {env : Env} {st : Store} {e : Expr} {t v : Value}
    (hst : st.slots (s 0) = some t) (he : e.eval env st = .ok v) :
    Stmt.runAll env st (sumCode s e) =
      if v.isNull then (st, .ok ())
      else proceed st (accrue t v) fun t' => (st.setSlot (s 0) t', .ok ()) := by
  rw [sumCode, runAll_singleton, run_branch (test_isNotNull he)]
  cases hv : v.isNull with
  | true => rfl
  | false =>
    have hslot : (Expr.slot (s 0)).eval env st = .ok t := eval_slot hst
    have hnext : ((Expr.choose (Expr.slot (s 0)).isNull e (.add (.slot (s 0)) e)).eval env st) =
        accrue t v := by
      rw [eval_choose (test_isNull hslot), accrue, hv, if_neg Bool.false_ne_true]
      cases t.isNull with
      | true => exact he
      | false =>
        simp only [Expr.add, Expr.eval, hst, he, bind, Except.bind, Bool.false_eq_true, if_false]
    rw [Bool.not_false, if_pos rfl, if_neg Bool.false_ne_true, runAll_singleton, Stmt.run, hnext]

def sumAccrual : Accrual .sum Value where
  initial := .null
  take := accrue
  contents t := [t]
  answer t := t
  reset s env st _ := (assign_completes rfl).mono fun _ h => carries_singleton.mpr h
  result s env st t h := eval_slot (carries_singleton.mp h)
  add_ok := by
    intro s env st t t' e v _ hst he htake
    have hslot := carries_singleton.mp hst
    rw [addValueCode, sumCode_runs hslot he]
    cases hv : v.isNull with
    | true =>
      rw [accrue, hv, if_pos rfl] at htake
      obtain rfl := Except.ok.inj htake
      exact ⟨st, rfl, hst⟩
    | false =>
      rw [htake, proceed_ok, if_neg Bool.false_ne_true]
      exact ⟨_, rfl, carries_singleton.mpr (if_pos rfl)⟩
  add_error := by
    intro s env st t e v err _ hst he htake
    rw [addValueCode, sumCode_runs (carries_singleton.mp hst) he]
    cases hv : v.isNull with
    | true =>
      rw [accrue, hv, if_pos rfl] at htake
      cases htake
    | false => rw [htake, proceed_error, if_neg Bool.false_ne_true]

/-! ## Whole numbers -/

section

variable {rows : List (List Value)} {events : List Event}

/-- As long as the totals fit, the state is the exact one; and it gets no further. -/
theorem sum_reach (hcol : WholeColumn rows) {t : Value} :
    sumAccrual.reach (headOf rows) events = .ok t ↔
      TotalsFit rows events ∧ t = exactSum (numbersSince rows events) := by
  induction events using List.reverseRecOn generalizing t with
  | nil =>
    have hfits : TotalsFit rows [] := by
      intro before hbefore
      rw [List.prefix_nil.mp hbefore]
      show IsWord 0
      decide
    show Except.ok Value.null = .ok t ↔ _
    rw [Except.ok.injEq, eq_comm]
    exact ⟨fun h => ⟨hfits, h⟩, fun h => h.2⟩
  | append_singleton events e ih =>
    rw [Accrual.reach_snoc_ok, TotalsFit.snoc]
    have hprevious : (∃ x, sumAccrual.reach (headOf rows) events = .ok x ∧
        sumAccrual.follow (headOf rows) x e = .ok t) ↔ TotalsFit rows events ∧
          sumAccrual.follow (headOf rows) (exactSum (numbersSince rows events)) e = .ok t := by
      constructor
      · rintro ⟨x, hx, hfollow⟩
        obtain ⟨hfits, rfl⟩ := ih.mp hx
        exact ⟨hfits, hfollow⟩
      · rintro ⟨hfits, hfollow⟩
        exact ⟨_, ih.mpr ⟨hfits, rfl⟩, hfollow⟩
    rw [hprevious, and_assoc]
    refine and_congr_right fun hfits => ?_
    cases e with
    | reset =>
      rw [numbersSince_reset]
      show Except.ok Value.null = .ok t ↔ _
      rw [Except.ok.injEq, eq_comm]
      exact ⟨fun h => ⟨by decide, h⟩, fun h => h.2⟩
    | report name =>
      rw [numbersSince_report]
      show Except.ok _ = .ok t ↔ _
      rw [Except.ok.injEq, eq_comm]
      exact ⟨fun h => ⟨hfits.last, h⟩, fun h => h.2⟩
    | add r =>
      show accrue _ (headOf rows r) = .ok t ↔ _
      rw [accrue_exact hfits.last (hcol.head r), numbersSince_add]
      by_cases hnext : IsWord (numbersSince rows events ++ (headOf rows r).number?.toList).sum
      · rw [if_pos hnext, Except.ok.injEq, eq_comm]
        exact ⟨fun h => ⟨hnext, h⟩, fun h => h.2⟩
      · rw [if_neg hnext]
        exact ⟨nofun, fun h => absurd h.1 hnext⟩

/-- Nothing but a total out of range stops the run. -/
theorem sum_refuses (hcol : WholeColumn rows) {t : Value} {r : Nat} {err : RunError}
    (hbefore : sumAccrual.reach (headOf rows) events = .ok t)
    (htake : sumAccrual.take t (headOf rows r) = .error err) : TotalsFit rows events ∧
      ¬IsWord (numbersSince rows (events ++ [.add r])).sum ∧ err = .arithmeticOverflow := by
  obtain ⟨hfits, rfl⟩ := (sum_reach hcol).mp hbefore
  have htake : accrue _ (headOf rows r) = .error err := htake
  rw [accrue_exact hfits.last (hcol.head r), ← numbersSince_add] at htake
  by_cases hnext : IsWord (numbersSince rows (events ++ [.add r])).sum
  · rw [if_pos hnext] at htake
    cases htake
  · rw [if_neg hnext] at htake
    exact ⟨hfits, hnext, (Except.error.inj htake).symm⟩

end

/-- A call of `sum` over a column of whole numbers and NULLs, after its reset taken through resets,
adds and reports in any order.  Nothing is refused but names of results, and what is bound is always
what the result phase has replied.  The block runs to its end exactly if all running totals fit, and
then each bound local holds the exact total; if not, the first add that takes the total out of the
range stops the run where the events before have left it. -/
theorem sum_exact {types : List DataType} {returns : DataType} {nullable : Bool}
    (htyping : sum.aggregate.typing types = .ok (returns, nullable)) (distinct : Bool)
    (config : Config) {rows : List (List Value)} (hlen : IsWord rows.length)
    (hcol : WholeColumn rows) (frame : Option FrameFacts) {events : List Event}
    (hrows : ∀ r, .add r ∈ events → r < rows.length) (st : Store) :
    let sig := Signature.of sum.aggregate.name types returns nullable distinct
    let block := fun events => (sum.tried config sig events).pass.draft.stmts
    let run := Stmt.runAll ⟨rows, frame⟩ st
    OnlyNamesRefused (sum.traced sig events)
      ((start config).attempts (sum.traced sig events)).1 ∧
    (start config).BindsReplies (sum.traced sig events) ∧
    ((∃ st', run (block events) = (st', .ok ())) ↔ TotalsFit rows events) ∧
    (∀ st', run (block events) = (st', .ok ()) → ∀ before x, sum.Binds config sig events before x →
      st'.locals x.id = some (exactSum (numbersSince rows before))) ∧
    (¬TotalsFit rows events → ∃ before, ∃ r : Nat, ∃ after st', events = before ++ .add r :: after ∧
      TotalsFit rows before ∧ ¬IsWord (numbersSince rows (before ++ [.add r])).sum ∧
      block before ++ sum.addCode SlotId.mk (columnsAt 1 (.int r)) <+: block events ∧
      run (block before) = (st', .ok ()) ∧
      run (block events) = (st', .error .arithmeticOverflow)) := by
  intro sig block run
  have hsig : sum.Admits sig.arity := admits_of_typing htyping
  have hone : sig.arity = 1 := hsig
  have hreads : Reads ⟨rows, frame⟩ (headOf rows) events :=
    fun r hr st => argument_eval hlen hcol.length_pos (hrows r hr) frame st
  have hstops : ¬TotalsFit rows events → ∃ before, ∃ r : Nat, ∃ after st',
      events = before ++ .add r :: after ∧ TotalsFit rows before ∧
      ¬IsWord (numbersSince rows (before ++ [.add r])).sum ∧
      block before ++ sum.addCode SlotId.mk (columnsAt 1 (.int r)) <+: block events ∧
      run (block before) = (st', .ok ()) ∧
      run (block events) = (st', .error .arithmeticOverflow) := by
    intro hfits
    cases hreach : sumAccrual.reach (headOf rows) events with
    | ok t => exact absurd ((sum_reach hcol).mp hreach).1 hfits
    | error err =>
      obtain ⟨before, r, after, t, st', hsplit, hbefore, htake, hprefix, hrun, hstop⟩ :=
        sumAccrual.stops config hsig rfl hone hreads hreach st
      obtain ⟨hfits, hnext, rfl⟩ := sum_refuses hcol hbefore htake
      exact ⟨before, r, after, st', hsplit, hfits, hnext, hprefix, hrun, hstop⟩
  have hruns (hfits : TotalsFit rows events) :=
    sumAccrual.runs config hsig rfl hone hreads ((sum_reach hcol).mpr ⟨hfits, rfl⟩) st
  have hcompletes : (∃ st', run (block events) = (st', .ok ())) ↔ TotalsFit rows events := by
    constructor
    · rintro ⟨st', hrun⟩
      by_contra hfits
      obtain ⟨_, _, _, _, _, _, _, _, _, hstop⟩ := hstops hfits
      rw [hrun] at hstop
      cases (Prod.mk.inj hstop).2
    · intro hfits
      obtain ⟨st', hrun, _⟩ := hruns hfits
      exact ⟨st', hrun⟩
  have hanswered : Answered (start config) (sum.traced sig events) :=
    tried_answered hsig rfl events
  refine ⟨hanswered.refused, hanswered.bound, hcompletes, ?_, hstops⟩
  intro st' hrun before x hx
  obtain ⟨st₁, hrun₁, _, hbound⟩ := hruns (hcompletes.mp ⟨st', hrun⟩)
  obtain rfl : st₁ = st' := (Prod.mk.inj (hrun₁.symm.trans hrun)).1
  obtain ⟨_, t, ht, hlocal⟩ := hbound before x hx
  rw [hlocal, ((sum_reach hcol).mp ht).2]
  rfl

/-- The greatest number of 64 bits, NULL and one. -/
def nearTheLimit : List (List Value) := [[.int 0x7fffffffffffffff], [.null], [.int 1]]

def resetBetween : List Event :=
  [.add 0, .report "a", .reset, .add 1, .report "b", .add 2, .report "c"]

/-- With a reset in between the totals fit, without it the last of them does not. -/
theorem totals_near_the_limit :
    let block := fun events => (sum.tried (.strict "agg")
      (.of sum.aggregate.name [.int] .int true false) events).pass.draft.stmts
    let run := Stmt.runAll ⟨nearTheLimit, none⟩ .fresh
    (∃ st, run (block resetBetween) = (st, .ok ()) ∧ ∃ a b c : LocalId,
      st.locals a = some (.int 0x7fffffffffffffff) ∧ st.locals b = some .null ∧
      st.locals c = some (.int 1)) ∧
    ∃ st, run (block [.add 0, .add 1, .add 2]) = (st, .error .arithmeticOverflow) := by
  intro block run
  have hsig : sum.Admits (Signature.of sum.aggregate.name [.int] .int true false).arity := rfl
  have htyping : sum.aggregate.typing [.int] = .ok (.int, true) := rfl
  have hlen : IsWord nearTheLimit.length := by decide
  have hcol : WholeColumn nearTheLimit := by
    intro row hrow
    simp only [nearTheLimit, List.mem_cons, List.not_mem_nil, or_false] at hrow
    rcases hrow with rfl | rfl | rfl
    · exact ⟨_, _, rfl, .inr ⟨_, rfl, by decide⟩⟩
    · exact ⟨_, _, rfl, .inl rfl⟩
    · exact ⟨_, _, rfl, .inr ⟨_, rfl, by decide⟩⟩
  constructor
  · have hrows : ∀ r, .add r ∈ resetBetween → r < nearTheLimit.length := by
      intro r hr
      simp only [resetBetween, List.mem_cons, Event.add.injEq, reduceCtorEq, List.not_mem_nil,
        or_false, false_or] at hr
      simp only [nearTheLimit, List.length_cons, List.length_nil]
      omega
    obtain ⟨_, _, hcompletes, hbound, _⟩ :=
      sum_exact htyping false (.strict "agg") hlen hcol none hrows .fresh
    have hfits : TotalsFit nearTheLimit resetBetween := by
      have hall : ∀ before ∈ resetBetween.inits, IsWord (numbersSince nearTheLimit before).sum := by
        decide
      exact fun before hbefore => hall before ((List.mem_inits _ _).mpr hbefore)
    obtain ⟨st, hrun⟩ := hcompletes.mpr hfits
    have hlocal (name : String) (hname : name.toList.all wordChar = true)
        (before after : List Event) (hsplit : resetBetween = before ++ .report name :: after) :
        ∃ x : LocalId, st.locals x = some (exactSum (numbersSince nearTheLimit before)) := by
      have hnames : (Config.strict "agg").Names name := ⟨.inr (by decide), hname⟩
      obtain ⟨x, hx⟩ := binds_of_names hsig rfl hnames before after
      rw [← hsplit] at hx
      exact ⟨x.id, hbound st hrun before x hx⟩
    obtain ⟨a, ha⟩ := hlocal "a" (by decide) [.add 0] _ rfl
    obtain ⟨b, hb⟩ := hlocal "b" (by decide) [.add 0, .report "a", .reset, .add 1] _ rfl
    obtain ⟨c, hc⟩ := hlocal "c" (by decide)
      [.add 0, .report "a", .reset, .add 1, .report "b", .add 2] [] rfl
    exact ⟨st, hrun, a, b, c, ha, hb, hc⟩
  · have hrows : ∀ r, .add r ∈ [Event.add 0, .add 1, .add 2] → r < nearTheLimit.length := by
      intro r hr
      simp only [List.mem_cons, Event.add.injEq, List.not_mem_nil, or_false] at hr
      simp only [nearTheLimit, List.length_cons, List.length_nil]
      omega
    obtain ⟨_, _, _, _, hstops⟩ :=
      sum_exact htyping false (.strict "agg") hlen hcol none hrows .fresh
    have hover : ¬TotalsFit nearTheLimit [.add 0, .add 1, .add 2] := by
      intro hfits
      have hlast : IsWord (numbersSince nearTheLimit [.add 0, .add 1, .add 2]).sum := hfits.last
      exact absurd hlast (by decide)
    obtain ⟨_, _, _, st, _, _, _, _, _, hstop⟩ := hstops hover
    exact ⟨st, hstop⟩

end Builtin
end WindowFold
