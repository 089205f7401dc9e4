import WindowFold.Proofs.Builtin.Positions

/-!
# Values of rows that are some way off

Over the symbolic frame `lag` and `lead` have the value of the row that the offset leads to, or NULL
if the partition has no such row or the offset is NULL (`lag_lead_select`).  The frame makes no
difference, and going back by an offset is going forward by its opposite.

The position of that row is computed in words before it is compared with the ends of the
partition.  So an offset that leads beyond the words is an error instead of NULL
(`shift_fails_iff`); it has to be nearly as large as a word can be (`Shift.word_of_near`).
-/

namespace WindowFold

namespace Builtin

open Workspace

/-- The functions of a row some way off, and where it is from a row and an offset. -/
inductive Shift : Builtin → (Int → Int → Int) → Prop
  | lag : Shift .lag fun c k => c - k
  | lead : Shift .lead fun c k => c + k

/-- The engine is at row `c` of a partition whose rows have at least `n` values. -/
structure StandsAt (rows : List (List Value)) (n c : Nat) (w : FrameFacts) : Prop where
  length : IsWord rows.length
  columns : ∀ row ∈ rows, n ≤ row.length
  inside : c < rows.length
  current : w.currentRow = some c
  hasRows : w.hasRows = true
  count : w.rowCount = rows.length

/-- How far to go from row `c`: as far as its second value says, and one row in a call that has no
second argument. -/
def offsetAt (rows : List (List Value)) (n c : Nat) : Value :=
  if n = 1 then .int 1 else ((rows[c]?).bind (·[1]?)).getD .null

/-- The offset of the current row, for an engine that is at it. -/
def offsetExpr (n : Nat) : Expr :=
  (columnsAt n Frame.symbolic.currentRow)[1]?.getD (.int 1)

variable {b : Builtin} {goal : Int → Int → Int} {rows : List (List Value)} {n c : Nat}
  {w : FrameFacts} {k : Int}

/-! ## The row that is looked at -/

theorem Shift.admits (h : Shift b goal) (hn : b.Admits n) : n = 1 ∨ n = 2 := by
  cases h <;> exact hn

/-- The position is computed in words. -/
theorem Shift.step (h : Shift b goal) : ∃ op : ArithOp,
    (∀ s f args, windowExpr s b f args = shiftedExpr (.binary (.arith op)) f args) ∧
    (∀ m k, op.words m k = wordResult (goal m k)) := by
  cases h with
  | lag => exact ⟨.sub, fun _ _ _ => rfl, fun _ _ => rfl⟩
  | lead => exact ⟨.add, fun _ _ _ => rfl, fun _ _ => rfl⟩

/-- Going back is going ahead by the opposite offset. -/
theorem Shift.opposite {b' : Builtin} {goal' : Int → Int → Int} (h : Shift b goal)
    (h' : Shift b' goal') (hne : b' ≠ b) (c k : Int) : goal' c (-k) = goal c k := by
  cases h with
  | lag =>
    cases h' with
    | lag => exact absurd rfl hne
    | lead => exact Int.sub_eq_add_neg.symm
  | lead =>
    cases h' with
    | lag => exact Int.sub_neg c k
    | lead => exact absurd rfl hne

/-- Only the far side of the words is in reach. -/
theorem Shift.beyond (h : Shift b goal) (hc : IsWord c) (hk : IsWord k)
    (hgoal : ¬IsWord (goal c k)) : 0x8000000000000000 ≤ goal c k := by
  cases h with
  | lag =>
    show _ ≤ (c : Int) - k
    have hgoal : ¬IsWord ((c : Int) - k) := hgoal
    omega
  | lead =>
    show _ ≤ (c : Int) + k
    have hgoal : ¬IsWord ((c : Int) + k) := hgoal
    omega

/-- An offset that leaves room for the partition leads to a word. -/
theorem Shift.word_of_near (h : Shift b goal) (hc : c < rows.length)
    (hnear : k.natAbs + rows.length ≤ 0x8000000000000000) : IsWord (goal c k) := by
  cases h with
  | lag =>
    show IsWord ((c : Int) - k)
    constructor <;> omega
  | lead =>
    show IsWord ((c : Int) + k)
    constructor <;> omega

namespace StandsAt

variable (h : StandsAt rows n c w)
include h

theorem word : IsWord c := by
  obtain ⟨hlow, hhigh⟩ := h.length
  have hinside := h.inside
  constructor <;> omega

theorem eval_current (st : Store) :
    Frame.symbolic.currentRow.eval ⟨rows, some w⟩ st = .ok (.int c) := by
  show Except.ok (FrameFacts.position w.currentRow) = _
  rw [h.current]
  rfl

theorem test_hasRows (st : Store) :
    Frame.symbolic.hasRows.test ⟨rows, some w⟩ st = .ok (some true) := by
  show Except.ok (some w.hasRows) = _
  rw [h.hasRows]

theorem eval_count (st : Store) :
    Frame.symbolic.rowCount.eval ⟨rows, some w⟩ st = .ok (.int rows.length) := by
  show Except.ok (Value.int w.rowCount) = _
  rw [h.count]

theorem eval_offset (hn : n = 1 ∨ n = 2) (st : Store) :
    (offsetExpr n).eval ⟨rows, some w⟩ st = .ok (offsetAt rows n c) := by
  rcases hn with rfl | rfl
  · rfl
  · have hinside := h.inside
    have hrow : rows[c]? = some rows[c] := List.getElem?_eq_getElem hinside
    have htwo : 1 < rows[c].length := h.columns _ (List.getElem_mem hinside)
    have hcell : rows[c][1]? = some rows[c][1] := List.getElem?_eq_getElem htwo
    have hoffset : offsetAt rows 2 c = rows[c][1] := by
      rw [offsetAt, if_neg (by decide), hrow, Option.bind_some, hcell, Option.getD_some]
    rw [hoffset]
    exact eval_argument (h.eval_current st) (word?_ofNat h.word) hrow hcell

theorem columns_one (hn : n = 1 ∨ n = 2) : ∀ row ∈ rows, 1 ≤ row.length := by
  intro row hrow
  have hcolumns := h.columns row hrow
  omega

end StandsAt

/-- Where the target fails so does the whole, as there are rows. -/
theorem shiftedExpr_error {f : Frame} {step : Expr → Expr → Expr} {env : Env} {st : Store}
    {err : RunError} (hrows : f.hasRows.test env st = .ok (some true))
    (htarget : (step f.currentRow ((columnsAt n f.currentRow)[1]?.getD (.int 1))).eval env st =
      .error err) : (shiftedExpr step f (columnsAt n)).eval env st = .error err := by
  obtain ⟨v, hv, htruth⟩ := truth_of_test hrows
  simp only [shiftedExpr, Expr.eval, Expr.and, Expr.ge, hv, htarget, bind, Except.bind, htruth]
  rfl

/-- A target that is not known is not looked at. -/
theorem shiftedExpr_null {f : Frame} {step : Expr → Expr → Expr} {env : Env} {st : Store}
    {count : Value} (hrows : f.hasRows.test env st = .ok (some true))
    (hcount : f.rowCount.eval env st = .ok count)
    (htarget : (step f.currentRow ((columnsAt n f.currentRow)[1]?.getD (.int 1))).eval env st =
      .ok .null) : (shiftedExpr step f (columnsAt n)).eval env st = .ok .null := by
  obtain ⟨v, hv, htruth⟩ := truth_of_test hrows
  simp only [shiftedExpr, Expr.eval, Expr.and, Expr.ge, Expr.lt, hv, htarget, hcount, bind,
    Except.bind, htruth]
  rfl

section

variable {s : Nat → SlotId} (hb : Shift b goal) (hn : n = 1 ∨ n = 2) (h : StandsAt rows n c w)
include hb hn h

theorem Shift.eval_int (hoffset : offsetAt rows n c = .int k) (hk : IsWord k) (st : Store) :
    (windowExpr s b .symbolic (columnsAt n)).eval ⟨rows, some w⟩ st =
      if IsWord (goal c k) then .ok (shown rows (goal c k)) else .error .arithmeticOverflow := by
  obtain ⟨op, hexpr, hop⟩ := hb.step
  have htarget : (Expr.binary (.arith op) Frame.symbolic.currentRow (offsetExpr n)).eval
      ⟨rows, some w⟩ st = wordResult (goal c k) := by
    rw [eval_words (h.eval_current st) (hoffset ▸ h.eval_offset hn st) h.word hk, hop]
  rw [hexpr]
  by_cases hgoal : IsWord (goal c k)
  · rw [if_pos hgoal]
    rw [wordResult, if_pos hgoal] at htarget
    exact shiftedExpr_eval (by omega) h.length (h.columns_one hn) (h.test_hasRows st)
      (h.eval_count st) hgoal htarget
  · rw [if_neg hgoal]
    rw [wordResult, if_neg hgoal] at htarget
    exact shiftedExpr_error (h.test_hasRows st) htarget

theorem Shift.eval_null (hoffset : offsetAt rows n c = .null) (st : Store) :
    (windowExpr s b .symbolic (columnsAt n)).eval ⟨rows, some w⟩ st = .ok .null := by
  obtain ⟨op, hexpr, -⟩ := hb.step
  have htarget : (Expr.binary (.arith op) Frame.symbolic.currentRow (offsetExpr n)).eval
      ⟨rows, some w⟩ st = .ok .null := by
    simp only [Expr.eval, h.eval_current st, h.eval_offset hn st, hoffset, bind, Except.bind]
    rfl
  rw [hexpr]
  exact shiftedExpr_null (h.test_hasRows st) (h.eval_count st) htarget

end

/-- Neither end of the frame is looked at. -/
theorem Shift.eval_frameless (hb : Shift b goal) (s : Nat → SlotId) (first last : Option Int)
    (st : Store) :
    (windowExpr s b .symbolic (columnsAt n)).eval
        ⟨rows, some { w with frameStart := first, frameEnd := last }⟩ st =
      (windowExpr s b .symbolic (columnsAt n)).eval ⟨rows, some w⟩ st := by
  obtain ⟨op, hexpr, -⟩ := hb.step
  rw [← Expr.eval_stage rows _ none, ← Expr.eval_stage rows w none, windowExpr_stage,
    windowExpr_stage, hexpr, hexpr]
  rfl

/-! ## Calls -/

/-- At every row the expression has the first value of the row that the offset leads to, or NULL if
that row is not there or the offset is NULL, whatever the frame. -/
structure Selects (goal : Int → Int → Int) (n : Nat) (e : Expr) : Prop where
  found : ∀ rows c w k, StandsAt rows n c w → offsetAt rows n c = .int k → IsWord k →
    IsWord (goal c k) → ∀ st, e.eval ⟨rows, some w⟩ st = .ok (shown rows (goal c k))
  unknown : ∀ rows c w, StandsAt rows n c w → offsetAt rows n c = .null →
    ∀ st, e.eval ⟨rows, some w⟩ st = .ok .null
  frameless : ∀ rows w first last st,
    e.eval ⟨rows, some { w with frameStart := first, frameEnd := last }⟩ st =
      e.eval ⟨rows, some w⟩ st

/-- One expression over arguments of `n` columns and one over arguments of `n'` agree at a row
wherever their offsets there are opposite, over partitions that are the same but for the offsets. -/
def Opposed (n n' : Nat) (e e' : Expr) : Prop :=
  ∀ rows rows' c facts facts' k, StandsAt rows n c facts → StandsAt rows' n' c facts' →
    rows'.length = rows.length → (∀ r, headOf rows' r = headOf rows r) →
    offsetAt rows n c = .int k → IsWord k → offsetAt rows' n' c = .int (-k) → IsWord (-k) →
    ∀ st st', e.eval ⟨rows, some facts⟩ st = e'.eval ⟨rows', some facts'⟩ st'

/-- A call of the function that is ready to be asked for its result. -/
structure Askable (b : Builtin) (w : Workspace) (u n : Nat) : Prop where
  call : ∃ t, w.tallies[u]? = some t ∧ t.aggregate = b.aggregate ∧ t.ready = true ∧
    t.signature.arity = n
  admits : b.Admits n

theorem Shift.selects (hb : Shift b goal) (hn : b.Admits n) (s : Nat → SlotId) :
    Selects goal n (windowExpr s b .symbolic (columnsAt n)) where
  found rows c w k h hoffset hk hgoal st := by
    rw [hb.eval_int (hb.admits hn) h hoffset hk, if_pos hgoal]
  unknown rows c w h hoffset st := hb.eval_null (hb.admits hn) h hoffset st
  frameless rows w first last st := hb.eval_frameless s first last st

/-- A ready call answers over the symbolic frame, under every configuration. -/
theorem Askable.answer {config : Config} {is : List Instruction} {es : List Entry} {w : Workspace}
    {u : Nat} (h : (start config).record is = .ok (es, w)) (hu : b.Askable w u n) : ∃ s,
    w.step (.resultAt u .symbolic (.columns n)) =
      (w, .ok (.value (windowExpr s b .symbolic (columnsAt n)))) := by
  obtain ⟨⟨t, ht, hagg, hr, rfl⟩, hn⟩ := hu
  obtain ⟨s, hcall⟩ := record_call h ht hagg hn
  have hframe := usable_symbolic w.pass.config
  exact ⟨s, hcall.step_resultAt hr ht hframe.accepted hframe.slotFree (columnsAt_arguments _)⟩

theorem Shift.opposed {b' : Builtin} {goal' : Int → Int → Int} {n' : Nat} (hb : Shift b goal)
    (hb' : Shift b' goal') (hne : b' ≠ b) (hn : b.Admits n) (hn' : b'.Admits n')
    (s s' : Nat → SlotId) : Opposed n n' (windowExpr s b .symbolic (columnsAt n))
      (windowExpr s' b' .symbolic (columnsAt n')) := by
  intro rows rows' c facts facts' k h h' _ hheads hoffset hk hoffset' hk' st st'
  have hshown (p : Int) : shown rows' p = shown rows p := by
    rw [shown, shown, hheads]
  rw [hb.eval_int (hb.admits hn) h hoffset hk, hb'.eval_int (hb'.admits hn') h' hoffset' hk',
    hshown, hb.opposite hb' hne]

/-- A call of `lag` or `lead`, with or without a second argument, at any point of any record at
which it is ready.  It returns, over the symbolic frame and arguments from the columns, an
expression that selects the row as far back or ahead as the offset says.  What a call of the other
function returns, in this record or another one, has the same values for the opposite offsets. -/
theorem lag_lead_select {config : Config} {is : List Instruction} {es : List Entry}
    {w : Workspace} (h : (start config).record is = .ok (es, w)) (hb : Shift b goal) {u n : Nat}
    (hu : b.Askable w u n) :
    ∃ e, w.step (.resultAt u .symbolic (.columns n)) = (w, .ok (.value e)) ∧ Selects goal n e ∧
      ∀ config' is' es' w', (start config').record is' = .ok (es', w') →
        ∀ b' goal' u' n', Shift b' goal' → b' ≠ b → b'.Askable w' u' n' →
          ∀ e', w'.step (.resultAt u' .symbolic (.columns n')) = (w', .ok (.value e')) →
            Opposed n n' e e' := by
  obtain ⟨s, hstep⟩ := hu.answer h
  refine ⟨_, hstep, hb.selects hu.admits s, ?_⟩
  intro config' is' es' w' h' b' goal' u' n' hb' hne hu' e' hstep'
  obtain ⟨s', hanswer⟩ := hu'.answer h'
  obtain rfl := Reply.value.inj (Except.ok.inj (Prod.mk.inj (hanswer.symm.trans hstep')).2)
  exact hb.opposed hb' hne hu.admits hu'.admits s s'

/-- Three rows with the offset two in each. -/
def twoApart : List (List Value) := [[.int 4, .int 2], [.int 5, .int 2], [.int 6, .int 2]]

/-- The same rows with the opposite offset. -/
def twoAhead : List (List Value) := [[.int 4, .int (-2)], [.int 5, .int (-2)], [.int 6, .int (-2)]]

/-- The last row of a partition of three. -/
theorem standsAt_last {rows : List (List Value)} (hlen : rows.length = 3)
    (hcols : ∀ row ∈ rows, 2 ≤ row.length) : StandsAt rows 2 2 (.known 2 2 2 3) where
  length := by
    rw [hlen]
    decide
  columns := hcols
  inside := by omega
  current := rfl
  hasRows := rfl
  count := by
    rw [hlen]
    rfl

/-- The value two rows before the last one of three, going back by two and ahead by minus two. -/
theorem first_two_before_last : ∃ es w e e',
    (start (.strict "agg")).record
      [.create (.of "lag" [.int, .int] .int true false) .lag,
        .create (.of "lead" [.int, .int] .int true false) .lead,
        .openPartition 0 .symbolic, .openPartition 1 .symbolic] = .ok (es, w) ∧
    w.step (.resultAt 0 .symbolic (.columns 2)) = (w, .ok (.value e)) ∧
    w.step (.resultAt 1 .symbolic (.columns 2)) = (w, .ok (.value e')) ∧
    ∀ st, e.eval ⟨twoApart, some (.known 2 2 2 3)⟩ st = .ok (.int 4) ∧
      e'.eval ⟨twoAhead, some (.known 2 2 2 3)⟩ st = .ok (.int 4) := by
  have hrecord : ∃ es w, (start (.strict "agg")).record
      [.create (.of "lag" [.int, .int] .int true false) .lag,
        .create (.of "lead" [.int, .int] .int true false) .lead,
        .openPartition 0 .symbolic, .openPartition 1 .symbolic] = .ok (es, w) ∧
      lag.Askable w 0 2 ∧ lead.Askable w 1 2 :=
    ⟨_, _, rfl, ⟨⟨_, rfl, rfl, rfl, rfl⟩, .inr rfl⟩, ⟨⟨_, rfl, rfl, rfl, rfl⟩, .inr rfl⟩⟩
  obtain ⟨es, w, hrecord, hlag, hlead⟩ := hrecord
  obtain ⟨e, hstep, hback, hothers⟩ := lag_lead_select hrecord .lag hlag
  obtain ⟨e', hstep', _⟩ := lag_lead_select hrecord .lead hlead
  have hopposed : Opposed 2 2 e e' := hothers _ _ _ _ hrecord _ _ _ _ .lead nofun hlead _ hstep'
  refine ⟨es, w, e, e', hrecord, hstep, hstep', fun st => ?_⟩
  have hstands : StandsAt twoApart 2 2 _ := standsAt_last rfl (by decide)
  have hstands' : StandsAt twoAhead 2 2 _ := standsAt_last rfl (by decide)
  have hheads : ∀ r, headOf twoAhead r = headOf twoApart r
    | 0 | 1 | 2 => rfl
    | _ + 3 => rfl
  have hfound := hback.found twoApart 2 _ 2 hstands rfl (by decide) (by decide) st
  refine ⟨hfound, ?_⟩
  rw [← hopposed twoApart twoAhead 2 _ _ 2 hstands hstands' rfl hheads rfl (by decide) rfl
    (by decide) st st]
  exact hfound

/-- A call of `lag` or `lead` with an offset in its second argument, at any point of any record at
which it is ready.  What it returns over the symbolic frame fails at a row if and only if the
position that the offset leads to is no word.  Such a position is beyond the partition.  Any other
one outside the partition gives NULL, and offsets that leave room for the partition never lead
beyond the words. -/
theorem shift_fails_iff {config : Config} {is : List Instruction} {es : List Entry}
    {w : Workspace} (h : (start config).record is = .ok (es, w)) (hb : Shift b goal) {u : Nat}
    (hu : b.Askable w u 2) :
    ∃ e, w.step (.resultAt u .symbolic (.columns 2)) = (w, .ok (.value e)) ∧
      ∀ rows c facts k, StandsAt rows 2 c facts → offsetAt rows 2 c = .int k → IsWord k → ∀ st,
        let result := e.eval ⟨rows, some facts⟩ st
        ((∃ err, result = .error err) ↔ ¬IsWord (goal c k)) ∧
        (¬IsWord (goal c k) → result = .error .arithmeticOverflow ∧ rows.length ≤ goal c k) ∧
        (IsWord (goal c k) → ¬(0 ≤ goal c k ∧ goal c k < rows.length) → result = .ok .null) ∧
        (k.natAbs + rows.length ≤ 0x8000000000000000 → IsWord (goal c k)) := by
  obtain ⟨s, hstep⟩ := hu.answer h
  refine ⟨_, hstep, fun rows c facts k hstands hoffset hk st => ?_⟩
  have heval := hb.eval_int (s := s) (.inr rfl) hstands hoffset hk st
  intro result
  have hresult : result = _ := heval
  refine ⟨?_, ?_, ?_, fun hnear => hb.word_of_near hstands.inside hnear⟩
  · rw [hresult]
    by_cases hgoal : IsWord (goal c k)
    · rw [if_pos hgoal]
      exact ⟨nofun, fun hnot => absurd hgoal hnot⟩
    · rw [if_neg hgoal]
      exact ⟨fun _ => hgoal, fun _ => ⟨_, rfl⟩⟩
  · intro hgoal
    have hfar := hb.beyond hstands.word hk hgoal
    have hlength := hstands.length.2
    exact ⟨by rw [hresult, if_neg hgoal], by omega⟩
  · intro hgoal houtside
    rw [hresult, if_pos hgoal]
    by_cases hneg : goal c k < 0
    · rw [shown_of_lt hneg]
    · rw [shown_of_ge (by omega)]

/-- One row whose offset is the least word. -/
def farBack : List (List Value) := [[.int 10, .int (-0x8000000000000000)]]

theorem standsAt_farBack : StandsAt farBack 2 0 (.known 0 0 0 1) where
  length := by decide
  columns := by decide
  inside := by decide
  current := rfl
  hasRows := rfl
  count := rfl

/-- Ahead by the least word there is no row, and this is no error. -/
theorem nothing_far_ahead : ∃ es w e,
    (start (.strict "agg")).record [.create (.of "lead" [.int, .int] .int true false) .lead,
      .openPartition 0 .symbolic] = .ok (es, w) ∧
    w.step (.resultAt 0 .symbolic (.columns 2)) = (w, .ok (.value e)) ∧
    ∀ st, e.eval ⟨farBack, some (.known 0 0 0 1)⟩ st = .ok .null := by
  have hrecord : ∃ es w, (start (.strict "agg")).record
      [.create (.of "lead" [.int, .int] .int true false) .lead, .openPartition 0 .symbolic] =
        .ok (es, w) ∧ lead.Askable w 0 2 :=
    ⟨_, _, rfl, ⟨_, rfl, rfl, rfl, rfl⟩, .inr rfl⟩
  obtain ⟨es, w, hrecord, hlead⟩ := hrecord
  obtain ⟨e, hstep, hresult⟩ := shift_fails_iff hrecord .lead hlead
  refine ⟨es, w, e, hrecord, hstep, fun st => ?_⟩
  obtain ⟨_, _, hnull, _⟩ := hresult farBack 0 _ _ standsAt_farBack rfl (by decide) st
  exact hnull (by decide) (by decide)

/-- Back by the least word there is no row either, and this is an error. -/
theorem far_back_fails : ∃ es w e,
    (start (.strict "agg")).record [.create (.of "lag" [.int, .int] .int true false) .lag,
      .openPartition 0 .symbolic] = .ok (es, w) ∧
    w.step (.resultAt 0 .symbolic (.columns 2)) = (w, .ok (.value e)) ∧
    ∀ st, e.eval ⟨farBack, some (.known 0 0 0 1)⟩ st = .error .arithmeticOverflow :=
  ⟨_, _, _, rfl, rfl, fun _ => rfl⟩

end Builtin

end WindowFold
