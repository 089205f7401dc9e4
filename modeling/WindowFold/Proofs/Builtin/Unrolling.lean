import WindowFold.Proofs.Builtin.Record
import WindowFold.Proofs.Machine.Staging
import WindowFold.Proofs.Machine.Steps

/-!
# Looping at run time and unrolling while emitting agree

A builtin call can be emitted once with symbolic frames, its add being run again for every row, or
unrolled with one add for each row and the frames put in as constants.  The unrolled code is the
symbolic code with the facts of the frames staged, phase by phase (`openCode_stage`,
`rowCode_stage`, `windowExpr_stage`), so the two end with the same slots and the same value or
with the same error (`loop_eq_unrolled`).
-/

namespace WindowFold

namespace Builtin

variable {b : Builtin} {s : Nat → SlotId} {w : FrameFacts}

/-! ## Staging the code of a call -/

theorem openCode_stage (f : Frame) : Stmt.stageAll w (b.openCode s (.partition f)) =
    b.openCode s (.partition (f.stage w)) := by
  cases b <;> rfl

theorem addValueCode_stage (v : Expr) :
    Stmt.stageAll w (b.addValueCode s v) = b.addValueCode s (v.stage w) := by
  cases b <;> rfl

theorem addCode_stage (args : List Expr) :
    Stmt.stageAll w (b.addCode s args) = b.addCode s (args.map (Expr.stage w)) := by
  cases args with
  | nil => cases b <;> rfl
  | cons v rest =>
    rw [List.map_cons, addCode_cons, addCode_cons]
    exact addValueCode_stage v

theorem rowCode_stage (args : List Expr) :
    Stmt.stageAll w (b.rowCode s args) = b.rowCode s (args.map (Expr.stage w)) := by
  cases b with
  | firstValue | lastValue | lag | lead | rowNumber => rfl
  | count | sum | avg | min | max | arrayAgg => exact addCode_stage args

theorem columnsAt_stage (n : Nat) (row : Expr) :
    (columnsAt n row).map (Expr.stage w) = columnsAt n (row.stage w) := by
  simp [columnsAt, Expr.stage]

theorem headD_stage (l : List Expr) :
    (l.headD .null).stage w = (l.map (Expr.stage w)).headD .null := by
  cases l <;> rfl

theorem edgeExpr_stage (n : Nat) (f : Frame) (row : Expr) :
    (edgeExpr f (columnsAt n) row).stage w = edgeExpr (f.stage w) (columnsAt n) (row.stage w) := by
  simp only [edgeExpr, Expr.stage, headD_stage, columnsAt_stage]
  rfl

theorem shiftedExpr_stage (step : Expr → Expr → Expr)
    (hstep : ∀ x y, (step x y).stage w = step (x.stage w) (y.stage w)) (n : Nat) (f : Frame) :
    (shiftedExpr step f (columnsAt n)).stage w = shiftedExpr step (f.stage w) (columnsAt n) := by
  have hoffset : ((columnsAt n f.currentRow)[1]?.getD (Expr.int 1)).stage w =
      (columnsAt n (f.currentRow.stage w))[1]?.getD (.int 1) := by
    rw [← columnsAt_stage, List.getElem?_map]
    cases (columnsAt n f.currentRow)[1]? <;> rfl
  have htarget := hstep f.currentRow ((columnsAt n f.currentRow)[1]?.getD (.int 1))
  rw [hoffset] at htarget
  simp only [shiftedExpr, Expr.stage, headD_stage, columnsAt_stage, htarget, Expr.and, Expr.ge,
    Expr.lt]
  rfl

theorem windowExpr_stage (n : Nat) (f : Frame) :
    (windowExpr s b f (columnsAt n)).stage w = windowExpr s b (f.stage w) (columnsAt n) := by
  cases b with
  | firstValue => exact edgeExpr_stage n f f.frameStart
  | lastValue => exact edgeExpr_stage n f f.frameEnd
  | lag => exact shiftedExpr_stage .sub (fun _ _ => rfl) n f
  | lead => exact shiftedExpr_stage .add (fun _ _ => rfl) n f
  | rowNumber | count | sum | avg | min | max | arrayAgg => rfl

end Builtin

/-! ## Loops -/

/-- The frame of a row, its four facts being numbers. -/
structure Place where
  current : Int
  first : Int
  last : Int
  count : Int
  deriving DecidableEq, Repr

namespace Place

def facts (x : Place) : FrameFacts := .known x.current x.first x.last x.count

def frame (x : Place) : Frame := .constant x.current x.first x.last x.count

end Place

/-- Run one block under a first frame, and then another once under each of the frames. -/
def loop (rows : List (List Value)) (opening body : List Stmt) (f₀ : FrameFacts)
    (fs : List FrameFacts) : Outcome :=
  fs.foldl (fun o f => andThen o fun st => Stmt.runAll ⟨rows, some f⟩ st body)
    (Stmt.runAll ⟨rows, some f₀⟩ .fresh opening)

/-- Evaluate an expression after a run, unless the run has failed. -/
def Outcome.value (o : Outcome) (env : Env) (e : Expr) : Store × Except RunError Value :=
  (o.1, o.2.bind fun _ => e.eval env o.1)

/-- A loop runs as its body does when staged for each frame. -/
theorem loop_eq_staged (rows : List (List Value)) (opening body : List Stmt) (f₀ : FrameFacts)
    (fs : List FrameFacts) (frame : Option FrameFacts) : loop rows opening body f₀ fs =
      Stmt.runAll ⟨rows, frame⟩ .fresh
        (Stmt.stageAll f₀ opening ++ fs.flatMap fun f => Stmt.stageAll f body) := by
  rw [runAll_flatMap]
  simp only [loop, Stmt.runAll_stage]

theorem Outcome.value_stage (o : Outcome) (rows : List (List Value)) (w : FrameFacts)
    (frame : Option FrameFacts) (e : Expr) :
    o.value ⟨rows, some w⟩ e = o.value ⟨rows, frame⟩ (e.stage w) := by
  simp only [Outcome.value, Expr.eval_stage]

namespace Builtin

open Workspace

theorem usable_frame {config : Config} {x : Place}
    (h : Tally.checkFrame config x.frame = .ok ()) : Usable config x.frame :=
  ⟨h, Frame.constant_slotFree _ _ _ _⟩

theorem usable_frames {config : Config} {xs : List Place}
    (h : ∀ x ∈ xs, Tally.checkFrame config x.frame = .ok ()) :
    ∀ f ∈ xs.map Place.frame, Usable config f := by
  intro f hf
  obtain ⟨x, hx, rfl⟩ := List.mem_map.mp hf
  exact usable_frame (h x hx)

/-- Emitting once and looping over the frames of the rows comes to the same store and the same
value, or the same error, as unrolling with constant frames. -/
theorem loop_eq_unrolled (b : Builtin) {types : List DataType} {returns : DataType}
    {nullable : Bool} (htyping : b.aggregate.typing types = .ok (returns, nullable))
    (distinct : Bool) (c₁ c₂ : Config) (rows : List (List Value)) {f₀ g : Place}
    {fs : List Place} (hf₀ : Tally.checkFrame c₂ f₀.frame = .ok ())
    (hfs : ∀ f ∈ fs, Tally.checkFrame c₂ f.frame = .ok ())
    (hg : Tally.checkFrame c₂ g.frame = .ok ()) :
    let sig := Signature.of b.aggregate.name types returns nullable distinct
    ∃ created opened added asked w₁ v es w₂ v',
      (start c₁).record (b.windowed sig .symbolic [.symbolic] .symbolic) =
        .ok ([created, opened, added, asked], w₁) ∧
      asked.emitted = [] ∧ asked.value? = some v ∧
      (start c₂).record (b.windowed sig f₀.frame (fs.map Place.frame) g.frame) = .ok (es, w₂) ∧
      answer? es = some v' ∧
      ∀ frame, (loop rows opened.emitted added.emitted f₀.facts (fs.map Place.facts)).value
          ⟨rows, some g.facts⟩ v =
        (Stmt.runAll ⟨rows, frame⟩ .fresh w₂.pass.draft.stmts).value ⟨rows, frame⟩ v' := by
  intro sig
  have hsig : b.Admits sig.arity := admits_of_typing htyping
  have hsymbolic := usable_symbolic c₁
  obtain ⟨w₁, h₁⟩ := record_windowed hsig .symbolic [.symbolic] .symbolic hsymbolic
    (by simpa using hsymbolic) hsymbolic
  obtain ⟨w₂, h₂⟩ := record_windowed hsig f₀.frame (fs.map Place.frame) g.frame
    (usable_frame hf₀) (usable_frames hfs) (usable_frame hg)
  refine ⟨_, _, _, _, w₁, _, _, w₂, _, h₁, rfl, rfl, h₂, answer?_windowedEntries _ _ _, ?_⟩
  intro frame
  -- The symbolic code staged for the frames is the unrolled code.
  have hopen := openCode_stage (b := b) (s := SlotId.mk) (w := f₀.facts) .symbolic
  have hadd (f : Place) := rowCode_stage (b := b) (s := SlotId.mk) (w := f.facts)
    (columnsAt sig.arity Frame.symbolic.currentRow)
  have hcode : (Stmt.stageAll f₀.facts (b.openCode SlotId.mk (.partition .symbolic)) ++
      (fs.map Place.facts).flatMap fun f => Stmt.stageAll f
        (b.rowCode SlotId.mk (columnsAt sig.arity Frame.symbolic.currentRow))) =
      w₂.pass.draft.stmts := by
    rw [record_stmts h₂, emittedBy_windowedEntries, hopen, List.flatMap_map, List.flatMap_map]
    simp only [hadd, columnsAt_stage]
    rfl
  have hvalue := windowExpr_stage (b := b) (s := SlotId.mk) (w := g.facts) sig.arity .symbolic
  rw [loop_eq_staged _ _ _ _ _ frame, hcode, Outcome.value_stage _ _ _ frame, hvalue]
  rfl

/-- A row of a partition of three, its frame being the whole partition. -/
def ofThree (row : Int) : Place := ⟨row, 0, 2, 3⟩

def sumOfInts : Signature := .of "sum" [.int] .int true false

/-- A sum over three rows, unrolled, by way of the loop. -/
theorem sum_of_three_unrolled : ∃ es w v,
    (start (.strict "agg")).record (Builtin.sum.windowed sumOfInts (ofThree 0).frame
      [(ofThree 0).frame, (ofThree 1).frame, (ofThree 2).frame] (ofThree 2).frame) = .ok (es, w) ∧
    answer? es = some v ∧
    ((Stmt.runAll ⟨[[.int 2], [.null], [.int 5]], none⟩ .fresh w.pass.draft.stmts).value
      ⟨[[.int 2], [.null], [.int 5]], none⟩ v).2 = .ok (.int 7) := by
  have htyping : Builtin.sum.aggregate.typing [.int] = .ok (.int, true) := rfl
  have hfirst : Tally.checkFrame (.strict "agg") (ofThree 0).frame = .ok () := rfl
  have hrows : ∀ f ∈ [ofThree 0, ofThree 1, ofThree 2],
      Tally.checkFrame (.strict "agg") f.frame = .ok () := by decide
  have hlast : Tally.checkFrame (.strict "agg") (ofThree 2).frame = .ok () := rfl
  obtain ⟨created, opened, added, asked, w₁, v, es, w₂, v', h₁, _, hv, h₂, hanswer, hrun⟩ :=
    loop_eq_unrolled .sum htyping false (.relaxed "agg") (.strict "agg")
      [[.int 2], [.null], [.int 5]] hfirst hrows hlast
  refine ⟨es, w₂, v', h₂, hanswer, ?_⟩
  rw [← hrun none]
  have hsymbolic : ∃ w, (start (.relaxed "agg")).record
      (Builtin.sum.windowed sumOfInts .symbolic [.symbolic] .symbolic) =
        .ok (Builtin.sum.windowedEntries sumOfInts .symbolic [.symbolic] .symbolic, w) :=
    record_windowed (admits_of_typing htyping) .symbolic [.symbolic] .symbolic
      (usable_symbolic _) (by simp [usable_symbolic]) (usable_symbolic _)
  obtain ⟨w, hw⟩ := hsymbolic
  have hsame := h₁.symm.trans hw
  simp only [Except.ok.injEq, Prod.mk.injEq, windowedEntries, List.cons_append, List.nil_append,
    List.map_cons, List.map_nil, List.cons.injEq, and_true] at hsame
  obtain ⟨⟨rfl, rfl, rfl, rfl⟩, _⟩ := hsame
  simp only [Entry.value?, Option.some.injEq] at hv
  subst hv
  rfl

end Builtin

end WindowFold
