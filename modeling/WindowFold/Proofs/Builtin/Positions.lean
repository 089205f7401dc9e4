import WindowFold.Proofs.Builtin.Calls
import WindowFold.Proofs.Builtin.Windowed

/-!
# Frames of numbers are safe to read at

Four functions show the value of another row: the first and the last of the frame, the one before
the current row and the one after it.  A frame of numbers passes the check if it is empty or lies
in the partition around its row, and a frame that passes is safe: what these functions return then
evaluates over every partition of that many rows, in which the row need not be (`literal_frame_safe`).

No number of an empty frame is ever looked at, since the test for rows comes first.
-/

namespace WindowFold

namespace Builtin

open Workspace

/-- Where the function looks from a row `c` and a frame from `first` to `last`. -/
def target (b : Builtin) (c first last : Int) : Option Int :=
  match b with
  | .firstValue => some first
  | .lastValue => some last
  | .lag => some (c - 1)
  | .lead => some (c + 1)
  | _ => none

/-- The first value of the row at a position, and NULL if there is no such row. -/
def shown (rows : List (List Value)) (k : Int) : Value :=
  if 0 ≤ k then headOf rows k.toNat else .null

variable {rows : List (List Value)} {c first last n k : Int}

theorem shown_of_lt (hk : k < 0) : shown rows k = .null := by
  rw [shown, if_neg (by omega)]

theorem shown_ofNat (r : Nat) : shown rows r = headOf rows r := by
  rw [shown, if_pos (by omega), Int.toNat_natCast]

theorem shown_of_ge (hk : (rows.length : Int) ≤ k) : shown rows k = .null := by
  rw [shown, if_pos (by omega), headOf, List.getElem?_eq_none (by omega)]
  rfl

/-! ## Where there are no rows -/

theorem Frame.constant_empty (hn : n ≤ 0) :
    (Frame.constant c first last n).hasRows = .bool false := by
  show Expr.bool (decide (0 < n)) = _
  rw [decide_eq_false (by omega)]

theorem edgeExpr_eval_empty {f : Frame} (hf : f.hasRows = .bool false) (args : Expr → List Expr)
    (row : Expr) (env : Env) (st : Store) : (edgeExpr f args row).eval env st = .ok .null := by
  rw [edgeExpr, hf, eval_choose (t := false) rfl]
  rfl

theorem shiftedExpr_eval_empty {f : Frame} (hf : f.hasRows = .bool false)
    (step : Expr → Expr → Expr) (args : Expr → List Expr) (env : Env) (st : Store) :
    (shiftedExpr step f args).eval env st = .ok .null := by
  have hinside (e : Expr) : ((Expr.bool false).and e).test env st = .ok (some false) :=
    test_and (x := false) (y := false) rfl fun h => Bool.noConfusion h
  rw [shiftedExpr, hf, eval_choose (hinside _)]
  rfl

/-! ## Where there are rows -/

theorem holds_ge (a b : Int) : CompareOp.ge.holds (compare a b) = decide (b ≤ a) := by
  rw [CompareOp.holds, Bool.eq_iff_iff, Int.isGE_compare, decide_eq_true_iff]

theorem holds_lt (a b : Int) : CompareOp.lt.holds (compare a b) = decide (a < b) := by
  rw [CompareOp.holds, Bool.eq_iff_iff, Ordering.isLT_iff_eq_lt, Int.compare_eq_lt,
    decide_eq_true_iff]

section

variable {f : Frame} {step : Expr → Expr → Expr} {m : Nat} {frame : Option FrameFacts} {st : Store}

/-- The first values at a row begin with the first one. -/
theorem columnsAt_headD (hm : 1 ≤ m) (row : Expr) : (columnsAt m row).headD .null = .argument 0 row := by
  obtain ⟨m, rfl⟩ := Nat.exists_eq_add_of_le' hm
  rw [columnsAt, List.range_succ_eq_map]
  rfl

/-- The row is looked at only if it is there. -/
theorem shiftedExpr_eval (hm : 1 ≤ m) (hlen : IsWord rows.length)
    (hcols : ∀ row ∈ rows, 1 ≤ row.length)
    (hrows : f.hasRows.test ⟨rows, frame⟩ st = .ok (some true))
    (hcount : f.rowCount.eval ⟨rows, frame⟩ st = .ok (.int rows.length)) (hk : IsWord k)
    (htarget : (step f.currentRow ((columnsAt m f.currentRow)[1]?.getD (.int 1))).eval
      ⟨rows, frame⟩ st = .ok (.int k)) :
    (shiftedExpr step f (columnsAt m)).eval ⟨rows, frame⟩ st = .ok (shown rows k) := by
  let goal := step f.currentRow ((columnsAt m f.currentRow)[1]?.getD (.int 1))
  have hexpr : shiftedExpr step f (columnsAt m) =
      .choose (f.hasRows.and ((goal.ge (.int 0)).and (goal.lt f.rowCount)))
        ((columnsAt m goal).headD .null) .null := rfl
  have hge : (goal.ge (.int 0)).test ⟨rows, frame⟩ st = .ok (some (decide (0 ≤ k))) := by
    rw [Expr.ge, test_compare_words htarget rfl hk (by decide), holds_ge]
  have hlt : (goal.lt f.rowCount).test ⟨rows, frame⟩ st =
      .ok (some (decide (k < rows.length))) := by
    rw [Expr.lt, test_compare_words htarget hcount hk hlen, holds_lt]
  have hinside : (f.hasRows.and ((goal.ge (.int 0)).and (goal.lt f.rowCount))).test
      ⟨rows, frame⟩ st = .ok (some (true && (decide (0 ≤ k) && decide (k < rows.length)))) :=
    test_and hrows fun _ => test_and hge fun _ => hlt
  rw [hexpr, columnsAt_headD hm]
  refine (eval_choose hinside).trans ?_
  by_cases hthere : 0 ≤ k ∧ k < rows.length
  · obtain ⟨r, rfl⟩ := Int.eq_ofNat_of_zero_le hthere.1
    have hr : r < rows.length := by omega
    have hrow : rows[r]? = some rows[r] := List.getElem?_eq_getElem hr
    have hcell : 0 < rows[r].length := hcols _ (List.getElem_mem hr)
    rw [decide_eq_true hthere.1, decide_eq_true hthere.2, shown_ofNat, headOf, hrow,
      Option.bind_some, List.getElem?_eq_getElem hcell, Option.getD_some]
    exact eval_argument htarget (word?_ofNat hk) hrow (List.getElem?_eq_getElem hcell)
  · have hfalse : (true && (decide (0 ≤ k) && decide (k < rows.length))) = false := by
      simpa using hthere
    rw [hfalse]
    by_cases hneg : k < 0
    · rw [shown_of_lt hneg]
      rfl
    · rw [shown_of_ge (by omega)]
      rfl

end

theorem edgeExpr_shown (hlen : (rows.length : Int) = n) (hn : IsWord n)
    (hcols : ∀ row ∈ rows, 1 ≤ row.length) (hk : 0 ≤ k) (hkn : k < n) {f : Frame}
    (hf : f.hasRows = .bool true) (frame : Option FrameFacts) (st : Store) :
    (edgeExpr f (columnsAt 1) (.int k)).eval ⟨rows, frame⟩ st = .ok (shown rows k) := by
  obtain ⟨r, rfl⟩ := Int.eq_ofNat_of_zero_le hk
  rw [shown_ofNat]
  exact edgeExpr_eval (by rw [hlen]; exact hn) hcols (by omega) hf frame st

/-- What is returned over an accepted frame evaluates to the value of the row looked at. -/
theorem windowExpr_shown {b : Builtin} {s : Nat → SlotId} (hb : b.target c first last = some k)
    (hn : IsWord n) (haccepted : n ≤ 0 ∨ (0 ≤ first ∧ first ≤ c ∧ c ≤ last ∧ last < n))
    (hlen : rows.length = n.toNat) (hcols : ∀ row ∈ rows, 1 ≤ row.length)
    (frame : Option FrameFacts) (st : Store) :
    (windowExpr s b (.constant c first last n) (columnsAt 1)).eval ⟨rows, frame⟩ st =
      .ok (shown rows k) := by
  by_cases hpos : 0 < n
  · have hrows := Frame.constant_hasRows (c := c) (s := first) (e := last) hpos
    have hlen' : (rows.length : Int) = n := by omega
    have hc : IsWord c := by constructor <;> omega
    have hword : IsWord rows.length := by rwa [hlen']
    let f := Frame.constant c first last n
    have htest : f.hasRows.test ⟨rows, frame⟩ st = .ok (some true) := by
      rw [hrows]
      rfl
    have hcount : f.rowCount.eval ⟨rows, frame⟩ st = .ok (.int rows.length) := by
      rw [hlen']
      rfl
    cases b with
    | firstValue =>
      obtain rfl := Option.some.inj hb
      exact edgeExpr_shown hlen' hn hcols (by omega) (by omega) hrows frame st
    | lastValue =>
      obtain rfl := Option.some.inj hb
      exact edgeExpr_shown hlen' hn hcols (by omega) (by omega) hrows frame st
    | lag =>
      obtain rfl := Option.some.inj hb
      have hk : IsWord (c - 1) := by constructor <;> omega
      exact shiftedExpr_eval (Nat.le_refl 1) hword hcols htest hcount hk
        (eval_sub_words rfl rfl hc (by decide) hk)
    | lead =>
      obtain rfl := Option.some.inj hb
      have hk : IsWord (c + 1) := by constructor <;> omega
      exact shiftedExpr_eval (Nat.le_refl 1) hword hcols htest hcount hk
        (eval_add_words rfl rfl hc (by decide) hk)
    | count | sum | avg | min | max | arrayAgg | rowNumber => simp [target] at hb
  · -- The partition has no rows, and so there is none at the position either.
    have hrows : (Frame.constant c first last n).hasRows = .bool false :=
      Frame.constant_empty (Int.not_lt.mp hpos)
    have hnil : rows = [] := List.length_eq_zero_iff.mp (by omega)
    have hnull : shown rows k = .null := by
      rw [hnil, shown]
      split <;> rfl
    rw [hnull]
    cases b with
    | firstValue | lastValue => exact edgeExpr_eval_empty hrows _ _ _ _
    | lag | lead => exact shiftedExpr_eval_empty hrows _ _ _ _
    | count | sum | avg | min | max | arrayAgg | rowNumber => simp [target] at hb

/-! ## Frames that are accepted -/

theorem checkFrame_iff {config : Config} (hc : config.checkFrames = true) (f : Frame) :
    Tally.checkFrame config f = .ok () ↔ f.check = .ok () := by
  rw [Tally.checkFrame, if_pos hc]
  cases f.check <;> simp [Except.mapError]

/-- With the frame check on, a call of one of the four functions takes a frame of numbers to open
a partition, and once it is ready to return a result, if and only if the frame has no rows or lies
in the partition around its row.  Whatever it then returns evaluates, over every partition of that
many rows, to the first value of the row it looks at, or to NULL if that row is not there. -/
theorem literal_frame_safe (c first last n : Int) :
    ((Frame.constant c first last n).check = .ok () ↔
      n ≤ 0 ∨ (0 ≤ first ∧ first ≤ c ∧ c ≤ last ∧ last < n)) ∧
    ∀ (b : Builtin) (k : Int), b.target c first last = some k → IsWord n →
      ∀ (config : Config) (is : List Instruction) (es : List Entry) (w : Workspace) (u : Nat)
        (t : Tally), config.checkFrames = true → (start config).record is = .ok (es, w) →
        w.tallies[u]? = some t → t.aggregate = b.aggregate → t.signature.arity = 1 →
        ((∃ w', w.step (.openPartition u (.constant c first last n)) = (w', .ok .done)) ↔
          (Frame.constant c first last n).check = .ok ()) ∧
        (t.ready = true →
          ((∃ w' v, w.step (.resultAt u (.constant c first last n) (.columns 1)) =
            (w', .ok (.value v))) ↔ (Frame.constant c first last n).check = .ok ())) ∧
        ∀ w' v, w.step (.resultAt u (.constant c first last n) (.columns 1)) =
            (w', .ok (.value v)) →
          ∀ rows : List (List Value), rows.length = n.toNat →
            (∀ row ∈ rows, 1 ≤ row.length) → ∀ frame st,
              v.eval ⟨rows, frame⟩ st = .ok (shown rows k) := by
  refine ⟨Frame.check_constant c first last n, ?_⟩
  intro b k hb hn config is es w u t hc h ht hagg harity
  let f := Frame.constant c first last n
  have hfree : f.SlotFree := Frame.constant_slotFree c first last n
  have hconfig : w.pass.config.checkFrames = true := by rw [record_config h, hc]
  have hcheck := checkFrame_iff hconfig f
  have hadmits : b.Admits t.signature.arity := by
    rw [harity]
    cases b <;> first | rfl | exact .inl rfl | simp [target] at hb
  obtain ⟨s, hcall⟩ := record_call h ht hagg hadmits
  have hcolumns : ArgumentsFor t.signature.arity (columnsAt 1) := by
    rw [harity]
    exact columnsAt_arguments 1
  -- An answer is of a call that is ready, over a frame that is accepted.
  have answered : ∀ w' v, w.step (.resultAt u f (.columns 1)) = (w', .ok (.value v)) →
      f.check = .ok () ∧ v = windowExpr s b f (columnsAt 1) := by
    intro w' v hstep
    obtain ⟨t₀, ht₀, hp, _⟩ := consult_ok.mp hstep
    obtain rfl : t₀ = t := Option.some.inj (ht₀.symm.trans ht)
    obtain ⟨v', hresult, hv⟩ := PassM.map_ok.mp hp
    obtain ⟨hr, hf, _⟩ := Tally.resultAt_ok.mp hresult
    have hgiven := hcall.step_resultAt (Tally.requireReady_ok.mp hr) ht hf hfree hcolumns
    have hsame := hstep.symm.trans hgiven
    simp only [Prod.mk.injEq, Except.ok.injEq, Reply.value.injEq] at hsame
    exact ⟨hcheck.mp hf, hsame.2⟩
  refine ⟨⟨?_, ?_⟩, ?_, ?_⟩
  · rintro ⟨w', hstep⟩
    obtain ⟨t₀, _, ht₀, hp, _⟩ := update_ok.mp hstep
    exact hcheck.mp (Tally.openPartition_ok.mp hp).1
  · intro hf
    exact ⟨_, hcall.step_openPartition ht (hcheck.mpr hf) hfree⟩
  · intro hr
    constructor
    · rintro ⟨w', v, hstep⟩
      exact (answered w' v hstep).1
    · intro hf
      exact ⟨w, _, hcall.step_resultAt hr ht (hcheck.mpr hf) hfree hcolumns⟩
  · intro w' v hstep rows hlen hcols frame st
    obtain ⟨hf, rfl⟩ := answered w' v hstep
    exact windowExpr_shown hb hn ((Frame.check_constant c first last n).mp hf) hlen hcols frame st

/-- The row before the first one of three is not there. -/
theorem lag_of_first_row : ∃ es w w' v,
    (start (.strict "agg")).record [.create (.of "lag" [.int] .int true false) .lag,
      .openPartition 0 (.constant 0 0 2 3)] = .ok (es, w) ∧
    w.step (.resultAt 0 (.constant 0 0 2 3) (.columns 1)) = (w', .ok (.value v)) ∧
    ∀ st, v.eval ⟨[[.int 4], [.int 5], [.int 6]], none⟩ st = .ok .null := by
  have h : ∃ es w w' v t, (start (.strict "agg")).record
        [.create (.of "lag" [.int] .int true false) .lag,
          .openPartition 0 (.constant 0 0 2 3)] = .ok (es, w) ∧
      w.step (.resultAt 0 (.constant 0 0 2 3) (.columns 1)) = (w', .ok (.value v)) ∧
      w.tallies[0]? = some t ∧ t.aggregate = lag.aggregate ∧ t.signature.arity = 1 :=
    ⟨_, _, _, _, _, rfl, rfl, rfl, rfl, rfl⟩
  obtain ⟨es, w, w', v, t, hrecord, hstep, ht, hagg, harity⟩ := h
  refine ⟨es, w, w', v, hrecord, hstep, ?_⟩
  intro st
  have hsafe := (literal_frame_safe 0 0 2 3).2 lag (-1) rfl (by decide) _ _ es w 0 t rfl hrecord ht
    hagg harity
  exact hsafe.2.2 w' v hstep [[.int 4], [.int 5], [.int 6]] rfl (by decide) none st

end Builtin

end WindowFold
