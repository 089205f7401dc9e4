import Mathlib.Tactic.SplitIfs
import WindowFold.Proofs.Builtin.Edge
import WindowFold.Proofs.Builtin.Unrolling

/-!
# Regular and windowed evaluation agree

The functions that are of use outside windows give the same result over rows `s` to `e` through
the regular phases as over a window whose frame is these rows (`windowed_eq_regular`).  Six of
them run the same code, but for room made in advance (`runAll_openCode`).  First and last values
are read at the edge of the frame instead, which is what the fold of the adds comes to
(`first_adds`, `last_adds`).
-/

namespace WindowFold

/-! ## Code that does not look at the frame -/

theorem Stmt.stageAll_append (w : FrameFacts) (a b : List Stmt) :
    Stmt.stageAll w (a ++ b) = Stmt.stageAll w a ++ Stmt.stageAll w b := by
  induction a with
  | nil => rfl
  | cons s rest ih => rw [List.cons_append, stageAll, ih, stageAll, List.cons_append]

theorem Stmt.stageAll_flatMap {α : Type} (w : FrameFacts) (code : α → List Stmt)
    (items : List α) : Stmt.stageAll w (items.flatMap code) =
      items.flatMap fun a => Stmt.stageAll w (code a) := by
  induction items with
  | nil => rfl
  | cons a rest ih => rw [List.flatMap_cons, stageAll_append, ih, List.flatMap_cons]

/-- Code and an expression in which there is nothing to stage come to the same under every
frame. -/
theorem value_frame_irrel {w : FrameFacts} {ss : List Stmt} {e : Expr}
    (hss : Stmt.stageAll w ss = ss) (he : e.stage w = e) (rows : List (List Value))
    (frame frame' : Option FrameFacts) :
    (Stmt.runAll ⟨rows, frame⟩ .fresh ss).value ⟨rows, frame⟩ e =
      (Stmt.runAll ⟨rows, frame'⟩ .fresh ss).value ⟨rows, frame'⟩ e := by
  have under (frame : Option FrameFacts) :
      (Stmt.runAll ⟨rows, frame⟩ .fresh ss).value ⟨rows, frame⟩ e =
        (Stmt.runAll ⟨rows, some w⟩ .fresh ss).value ⟨rows, some w⟩ e := by
    rw [Outcome.value_stage _ _ w frame, he, ← Stmt.runAll_stage rows w frame, hss]
  rw [under frame, under frame']

/-! ## Frames that are accepted -/

/-- A frame of numbers is accepted if it has no rows, or lies in the partition and around the
current row. -/
theorem Frame.check_constant (c s e n : Int) : (Frame.constant c s e n).check = .ok () ↔
    n ≤ 0 ∨ (0 ≤ s ∧ s ≤ c ∧ c ≤ e ∧ e < n) := by
  have hrows : (Frame.constant c s e n).hasRows.bool? = some (decide (0 < n)) := rfl
  have horder : (Frame.constant c s e n).checkOrder =
    if e < s then .error (.startAfterEnd s e) else .ok () := rfl
  have hcurrent : (Frame.constant c s e n).checkCurrent =
    if (decide (c < s) || decide (e < c)) = true then
      .error (.currentOutside c (.int s) (.int e)) else .ok () := rfl
  have hpartition : (Frame.constant c s e n).checkPartition =
    if n ≤ 0 then .error .noRows
    else if (decide (s < 0) || decide (n ≤ e)) = true then
      .error (.outsidePartition (.int s) (.int e) n) else .ok () := rfl
  unfold Frame.check
  rw [hrows, horder, hcurrent, hpartition]
  by_cases hn : 0 < n
  · simp [hn, bind, Except.bind]
    split_ifs <;> simp <;> omega
  · simp [hn]
    omega

theorem Frame.constant_hasRows {c s e n : Int} (h : 0 < n) :
    (constant c s e n).hasRows = .bool true := by
  show Expr.bool (decide (0 < n)) = _
  rw [decide_eq_true h]

namespace Builtin

open Workspace

/-- A frame around its row and inside a partition can be used whether it is checked or not. -/
theorem usable_inside {config : Config} {c s e n : Int} (hs : 0 ≤ s) (hc : s ≤ c) (he : c ≤ e)
    (hn : e < n) : Usable config (.constant c s e n) := by
  have hcheck : (Frame.constant c s e n).check = .ok () :=
    (Frame.check_constant c s e n).mpr (.inr ⟨hs, hc, he, hn⟩)
  refine ⟨?_, Frame.constant_slotFree c s e n⟩
  rw [Tally.checkFrame, hcheck]
  split <;> rfl

variable {b : Builtin} {s : Nat → SlotId}

theorem resetCode_stage (w : FrameFacts) : Stmt.stageAll w (b.resetCode s) = b.resetCode s := by
  cases b <;> rfl

theorem resultExpr_stage (w : FrameFacts) : (b.resultExpr s).stage w = b.resultExpr s := by
  cases b <;> rfl

/-- Resetting a call and adding the columns of rows, one row after the other. -/
def foldCode (b : Builtin) (s : Nat → SlotId) (n : Nat) (rows : List Nat) : List Stmt :=
  b.resetCode s ++ rows.flatMap fun r : Nat => b.addCode s (columnsAt n (.int r))

theorem foldCode_stage (w : FrameFacts) (n : Nat) (rows : List Nat) :
    Stmt.stageAll w (b.foldCode s n rows) = b.foldCode s n rows := by
  simp only [foldCode, Stmt.stageAll_append, Stmt.stageAll_flatMap, resetCode_stage,
    addCode_stage, columnsAt_stage]
  rfl

/-! ## Folds that are run as they are -/

/-- Room made in a list that has just been set changes nothing. -/
theorem runAll_openCode (env : Env) (st : Store) (o : Opening) :
    Stmt.runAll env st (b.openCode s o) = Stmt.runAll env st (b.resetCode s) := by
  cases b with
  | arrayAgg =>
    have hassign : (Stmt.assign (s 0) .emptyList).run env st =
        (st.setSlot (s 0) (.array []), .ok ()) := rfl
    simp [openCode, resetCode, Stmt.runAll, hassign, Stmt.run_reserve, Store.list]
  | count | sum | avg | min | max | firstValue | lastValue | lag | lead | rowNumber => rfl

/-- On whichever occasion, the code of a reset runs as that of the first phase. -/
theorem Resets.runAll {ss : List Stmt} (h : b.Resets s ss) (env : Env) (st : Store) :
    Stmt.runAll env st ss = Stmt.runAll env st (b.resetCode s) := by
  rcases h with rfl | ⟨o, rfl⟩
  · rfl
  · exact runAll_openCode env st o

/-- The functions that do over a window what they do without. -/
def FoldsRows (b : Builtin) : Prop :=
  (∀ s args, b.rowCode s args = b.addCode s args) ∧
    ∀ s f args, windowExpr s b f args = b.resultExpr s

theorem foldsRows_or_edge (hw : b.aggregate.windowOnly = false) :
    b.FoldsRows ∨ b = .firstValue ∨ b = .lastValue := by
  cases b with
  | count | sum | avg | min | max | arrayAgg =>
    exact .inl ⟨fun _ _ => rfl, fun _ _ _ => rfl⟩
  | firstValue => exact .inr (.inl rfl)
  | lastValue => exact .inr (.inr rfl)
  | lag | lead | rowNumber => simp [aggregate_windowOnly, windowOnly] at hw

/-- The code that adds the rows of frames depends on their numbers only. -/
theorem flatMap_frames {n : Nat} {places : List Place} {rows : List Nat}
    (h : places.map Place.current = rows.map Int.ofNat) :
    (places.map Place.frame).flatMap (fun f => b.addCode s (columnsAt n f.currentRow)) =
      rows.flatMap fun r : Nat => b.addCode s (columnsAt n (.int r)) := by
  let code : Int → List Stmt := fun r => b.addCode s (columnsAt n (.int r))
  calc (places.map Place.frame).flatMap (fun f => b.addCode s (columnsAt n f.currentRow))
      = (places.map Place.current).flatMap code := by
        rw [List.flatMap_map, List.flatMap_map]
        rfl
    _ = (rows.map Int.ofNat).flatMap code := by rw [h]
    _ = rows.flatMap fun r : Nat => b.addCode s (columnsAt n (.int r)) := by
        rw [List.flatMap_map]
        rfl

/-- Making room at the start and the frame of the engine make no difference to a fold. -/
theorem value_openCode (o : Opening) (n : Nat) (adds : List Nat) (rows : List (List Value))
    (frame frame' : Option FrameFacts) :
    (Stmt.runAll ⟨rows, frame⟩ .fresh (b.foldCode s n adds)).value ⟨rows, frame⟩
        (b.resultExpr s) =
      (Stmt.runAll ⟨rows, frame'⟩ .fresh (b.openCode s o ++ adds.flatMap fun r : Nat =>
        b.addCode s (columnsAt n (.int r)))).value ⟨rows, frame'⟩ (b.resultExpr s) := by
  rw [Stmt.runAll_append, runAll_openCode, ← Stmt.runAll_append]
  exact value_frame_irrel (foldCode_stage .empty n adds) (resultExpr_stage .empty) rows frame frame'

/-! ## Edges -/

def headOf (rows : List (List Value)) (r : Nat) : Value := ((rows[r]?).bind (·[0]?)).getD .null

variable {rows : List (List Value)}

theorem argument_eval (hlen : IsWord rows.length) (hcols : ∀ row ∈ rows, 1 ≤ row.length)
    {r : Nat} (hr : r < rows.length) (frame : Option FrameFacts) (st : Store) :
    (Expr.argument 0 (.int r)).eval ⟨rows, frame⟩ st = .ok (headOf rows r) := by
  have hrow : rows[r]? = some rows[r] := List.getElem?_eq_getElem hr
  have hpos : 0 < rows[r].length := hcols _ (List.getElem_mem hr)
  have hcol : rows[r][0]? = some rows[r][0] := List.getElem?_eq_getElem hpos
  have hhead : headOf rows r = rows[r][0] := by
    rw [headOf, hrow, Option.bind_some, hcol, Option.getD_some]
  have hword : IsWord r := by
    constructor <;> omega
  rw [hhead]
  exact eval_argument rfl (word?_ofNat hword) hrow hcol

/-- The fold of the adds of `first_value` holds the value of the first row. -/
theorem first_adds (hs : s.Injective) (hlen : IsWord rows.length)
    (hcols : ∀ row ∈ rows, 1 ≤ row.length) (frame : Option FrameFacts) {i k : Nat}
    (hk : i + k < rows.length) :
    Completes (Stmt.runAll ⟨rows, frame⟩ .fresh
        (firstValue.foldCode s 1 (List.range' i (k + 1))))
      (EdgeState.In s ⟨headOf rows i, true⟩) := by
  have hfold : (List.range' i (k + 1)).foldl (fun x r => EdgeState.addFirst x (headOf rows r))
      .start = ⟨headOf rows i, true⟩ := by
    rw [List.range'_succ, List.foldl_cons]
    exact foldl_addFirst _ _ _
  refine (edge_reset hs).append ?_
  intro st hst
  rw [← hfold]
  refine runAll_follows ?_ hst
  intro r hr x st hx
  obtain ⟨j, hj, rfl⟩ := List.mem_range'.mp hr
  exact first_add hs hx (argument_eval hlen hcols (by omega) frame st)

/-- The fold of the adds of `last_value` holds the value of the last row. -/
theorem last_adds (hs : s.Injective) (hlen : IsWord rows.length)
    (hcols : ∀ row ∈ rows, 1 ≤ row.length) (frame : Option FrameFacts) {i k : Nat}
    (hk : i + k < rows.length) :
    Completes (Stmt.runAll ⟨rows, frame⟩ .fresh
        (lastValue.foldCode s 1 (List.range' i (k + 1))))
      (EdgeState.In s ⟨headOf rows (i + k), true⟩) := by
  have hfold : (List.range' i (k + 1)).foldl (fun x r => EdgeState.addLast x (headOf rows r))
      .start = ⟨headOf rows (i + k), true⟩ := by
    rw [List.range'_concat, List.foldl_append, Nat.one_mul]
    rfl
  refine (edge_reset hs).append ?_
  intro st hst
  rw [← hfold]
  refine runAll_follows ?_ hst
  intro r hr x st hx
  obtain ⟨j, hj, rfl⟩ := List.mem_range'.mp hr
  exact last_add hs (argument_eval hlen hcols (by omega) frame st)

/-- At the edge of a frame that has rows stands the value of the row there. -/
theorem edgeExpr_eval (hlen : IsWord rows.length) (hcols : ∀ row ∈ rows, 1 ≤ row.length)
    {r : Nat} (hr : r < rows.length) {f : Frame} (hf : f.hasRows = .bool true)
    (frame : Option FrameFacts) (st : Store) :
    (edgeExpr f (columnsAt 1) (.int r)).eval ⟨rows, frame⟩ st = .ok (headOf rows r) := by
  have hhead : (columnsAt 1 (.int r)).headD .null = .argument 0 (.int r) := rfl
  rw [edgeExpr, hf, hhead, eval_choose (t := true) rfl, if_pos rfl]
  exact argument_eval hlen hcols hr frame st

theorem value_of_completes {o : Outcome} {P : Store → Prop} (h : Completes o P) {env : Env}
    {e : Expr} {v : Value} (he : ∀ st, P st → e.eval env st = .ok v) :
    (o.value env e).2 = .ok v := by
  obtain ⟨st, rfl, hP⟩ := h
  exact he st hP

theorem EdgeState.In.result {x : EdgeState} {st : Store} (h : x.In s st) (env : Env) :
    (Expr.slot (s 0)).eval env st = .ok x.value := by
  simp only [Expr.eval, h.value]

/-- Over a window the rows add nothing and the value at the edge is read where it stands, which
is what the fold comes to that holds the value of that row. -/
theorem edge_agrees (hlen : IsWord rows.length) (hcols : ∀ row ∈ rows, 1 ≤ row.length)
    {r : Nat} (hr : r < rows.length) {code : List Stmt} {state₁ state₂ : Option FrameFacts}
    (hfold : Completes (Stmt.runAll ⟨rows, state₁⟩ .fresh code)
      (EdgeState.In s ⟨headOf rows r, true⟩))
    {o : Opening} {P : Store → Prop}
    (hopen : Completes (Stmt.runAll ⟨rows, state₂⟩ .fresh (b.openCode s o)) P)
    (hrow : ∀ args, b.rowCode s args = []) (frames : List Frame) {f : Frame}
    (hf : f.hasRows = .bool true) :
    ((Stmt.runAll ⟨rows, state₁⟩ .fresh code).value ⟨rows, state₁⟩ (.slot (s 0))).2 =
      ((Stmt.runAll ⟨rows, state₂⟩ .fresh (b.openCode s o ++
        frames.flatMap fun f => b.rowCode s (columnsAt 1 f.currentRow))).value ⟨rows, state₂⟩
          (edgeExpr f (columnsAt 1) (.int r))).2 := by
  have hnone : frames.flatMap (fun f => b.rowCode s (columnsAt 1 f.currentRow)) = [] := by
    simp [hrow]
  rw [hnone, List.append_nil, value_of_completes hfold fun st hst => hst.result _,
    value_of_completes hopen fun st _ => edgeExpr_eval hlen hcols hr hf state₂ st]

/-! ## The two ways agree -/

/-- Rows `first` to `last` give the same result through the regular phases and over a window. -/
theorem windowed_eq_regular (b : Builtin) (hw : b.aggregate.windowOnly = false)
    {types : List DataType} {returns : DataType} {nullable : Bool}
    (htyping : b.aggregate.typing types = .ok (returns, nullable)) (distinct : Bool)
    (c₁ c₂ : Config) {rows : List (List Value)} (hlen : IsWord rows.length)
    (hcols : ∀ row ∈ rows, types.length ≤ row.length) {first current last : Nat}
    (hfirst : first ≤ current) (hcurrent : current ≤ last) (hlast : last < rows.length)
    {f₀ : Frame} (hf₀ : Usable c₂ f₀) {places : List Place}
    (hplaces : ∀ x ∈ places, Tally.checkFrame c₂ x.frame = .ok ())
    (hrows : places.map Place.current = (List.range' first (last + 1 - first)).map Int.ofNat) :
    let sig := Signature.of b.aggregate.name types returns nullable distinct
    let reads := (List.range' first (last + 1 - first)).map fun r : Nat =>
      columnsAt types.length (.int r)
    let frame := Frame.constant current first last rows.length
    ∃ es₁ w₁ v₁ es₂ w₂ v₂,
      (start c₁).record (b.regular sig reads) = .ok (es₁, w₁) ∧ answer? es₁ = some v₁ ∧
      (start c₂).record (b.windowed sig f₀ (places.map Place.frame) frame) = .ok (es₂, w₂) ∧
      answer? es₂ = some v₂ ∧
      ∀ state₁ state₂,
        ((Stmt.runAll ⟨rows, state₁⟩ .fresh w₁.pass.draft.stmts).value ⟨rows, state₁⟩ v₁).2 =
          ((Stmt.runAll ⟨rows, state₂⟩ .fresh w₂.pass.draft.stmts).value ⟨rows, state₂⟩ v₂).2 := by
  intro sig reads frame
  have hsig : b.Admits sig.arity := admits_of_typing htyping
  have hreads : ∀ args ∈ reads, args.length = sig.arity ∧ ∀ v ∈ args, v.slots = [] := by
    intro args hargs
    obtain ⟨r, _, rfl⟩ := List.mem_map.mp hargs
    have hcolumns := columnsAt_arguments types.length
    exact ⟨hcolumns.length _, hcolumns.slotFree _ rfl⟩
  have hregular : ∃ w, (start c₁).record (b.regular sig reads) =
      .ok (b.regularEntries sig reads, w) :=
    record_regular hsig hw (fun args h => (hreads args h).1) (fun args h => (hreads args h).2)
  obtain ⟨w₁, h₁⟩ := hregular
  have hframe : Usable c₂ frame := usable_inside (by omega) (by omega) (by omega) (by omega)
  obtain ⟨w₂, h₂⟩ := record_windowed hsig f₀ (places.map Place.frame) frame hf₀
    (usable_frames hplaces) hframe
  refine ⟨_, w₁, _, _, w₂, _, h₁, answer?_regularEntries _, h₂, answer?_windowedEntries _ _ _, ?_⟩
  intro state₁ state₂
  have hfold : emittedBy (b.regularEntries sig reads) =
      b.foldCode SlotId.mk types.length (List.range' first (last + 1 - first)) := by
    rw [emittedBy_regularEntries, foldCode, List.flatMap_map]
  rw [record_stmts h₁, record_stmts h₂, hfold, emittedBy_windowedEntries]
  have hpositive : frame.hasRows = .bool true := Frame.constant_hasRows (by omega)
  have hspan : last + 1 - first = (last - first) + 1 := by omega
  rcases foldsRows_or_edge hw with ⟨hadd, hresult⟩ | rfl | rfl
  · simp only [hadd, hresult]
    rw [flatMap_frames hrows]
    exact congrArg Prod.snd (value_openCode _ _ _ rows state₁ state₂)
  · obtain ⟨_, rfl⟩ := List.length_eq_one_iff.mp (show types.length = 1 from hsig)
    have hfold := first_adds SlotId.mk_injective hlen hcols state₁ (i := first) (k := last - first)
      (by omega)
    rw [hspan]
    exact edge_agrees hlen hcols (by omega) hfold (edge_reset SlotId.mk_injective) (fun _ => rfl) _
      hpositive
  · obtain ⟨_, rfl⟩ := List.length_eq_one_iff.mp (show types.length = 1 from hsig)
    have hfold := last_adds SlotId.mk_injective hlen hcols state₁ (i := first) (k := last - first)
      (by omega)
    rw [show first + (last - first) = last by omega] at hfold
    rw [hspan]
    exact edge_agrees hlen hcols (by omega) hfold (edge_reset SlotId.mk_injective) (fun _ => rfl) _
      hpositive

def firstOfInts : Signature := .of "first_value" [.int] .int true false

/-- The first of three rows holds no number, and that is what the window has as well. -/
theorem first_null_windowed : ∃ es w v,
    (start (.strict "agg")).record (firstValue.windowed firstOfInts (ofThree 0).frame
      [(ofThree 0).frame, (ofThree 1).frame, (ofThree 2).frame] (.constant 1 0 2 3)) =
        .ok (es, w) ∧
    answer? es = some v ∧
    ((Stmt.runAll ⟨[[.null], [.int 5], [.int 7]], none⟩ .fresh w.pass.draft.stmts).value
      ⟨[[.null], [.int 5], [.int 7]], none⟩ v).2 = .ok .null := by
  have htyping : firstValue.aggregate.typing [.int] = .ok (.int, true) := rfl
  have hopen : Usable (.strict "agg") (ofThree 0).frame := usable_frame rfl
  have hplaces : ∀ x ∈ [ofThree 0, ofThree 1, ofThree 2],
      Tally.checkFrame (.strict "agg") x.frame = .ok () := by decide
  have hlen : IsWord ([[.null], [.int 5], [.int 7]] : List (List Value)).length := by decide
  have hcols : ∀ row ∈ ([[.null], [.int 5], [.int 7]] : List (List Value)),
      [DataType.int].length ≤ row.length := by decide
  obtain ⟨es₁, w₁, v₁, es₂, w₂, v₂, h₁, hv₁, h₂, hv₂, hrun⟩ :=
    windowed_eq_regular firstValue rfl htyping false (.relaxed "agg") (.strict "agg") hlen hcols
      (Nat.zero_le 1) (Nat.le_succ 1) (Nat.lt_succ_self 2) hopen hplaces rfl
  refine ⟨es₂, w₂, v₂, h₂, hv₂, ?_⟩
  rw [← hrun none none, record_stmts h₁]
  let reads : List (List Expr) := [[.argument 0 (.int 0)], [.argument 0 (.int 1)],
    [.argument 0 (.int 2)]]
  have hregular : ∃ w, (start (.relaxed "agg")).record (firstValue.regular firstOfInts reads) =
      .ok (firstValue.regularEntries firstOfInts reads, w) :=
    record_regular (admits_of_typing htyping) rfl (by decide) (by decide)
  obtain ⟨w, hw⟩ := hregular
  obtain ⟨rfl, _⟩ := Prod.mk.inj (Except.ok.inj (h₁.symm.trans hw))
  rw [answer?_regularEntries, Option.some.injEq] at hv₁
  rw [emittedBy_regularEntries, ← hv₁]
  rfl

end Builtin

end WindowFold
