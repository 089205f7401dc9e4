import WindowFold.Aggregate.Builtin
import WindowFold.Proofs.Emit.Confined

/-!
# What the phases of the builtin functions read

Whatever its signature, a builtin function is asked for results without emitting anything, and
they read only slots of the call and what the frame and the arguments read (`result_keeps`,
`resultAt_keeps`).  The phases that change the state touch no local that the arguments do not
read (`add_keeps`, `addRow_keeps`, `merge_keeps`).
-/

namespace WindowFold

variable {c : Site} {S : SlotId → Prop} {L : LocalId → Prop} {P : Op → Prop}

theorem Accumulator.owns_of_slot {a : Accumulator} {i : Nat} {s : SlotId} (h : a.slot i = .ok s) :
    a.owns s = true := by
  rw [owns_iff, List.mem_map]
  simp only [slot] at h
  split at h
  · rename_i x hx
    exact ⟨x, List.mem_of_getElem? hx, Except.ok.inj h⟩
  · simp at h

/-- The expression that reads a slot of an accumulator. -/
theorem Accumulator.read_eq_slot {a : Accumulator} {i : Nat} {e : Expr} (h : a.read i = .ok e) :
    ∃ s, a.owns s = true ∧ e = .slot s := by
  simp only [read] at h
  cases hs : a.slot i with
  | error err => simp [hs, Except.map] at h
  | ok s =>
    simp only [hs, Except.map, Except.ok.injEq] at h
    exact ⟨s, owns_of_slot hs, h.symm⟩

theorem Site.slot_keeps (c : Site) (i : Nat) :
    (c.slot i).Keeps P fun s => c.accumulator.owns s = true :=
  .ofExcept fun _ => Accumulator.owns_of_slot

theorem Site.read_keeps (hown : ∀ s, c.accumulator.owns s = true → S s) (i : Nat) :
    (c.read i).Keeps P (Expr.Within S L) := by
  refine .ofExcept fun e he => ?_
  obtain ⟨s, hs, rfl⟩ := Accumulator.read_eq_slot he
  exact .slot (hown s hs)

theorem Site.soleArgument_keeps {args : List Expr} {Q : Expr → Prop} (h : ∀ v ∈ args, Q v) :
    (c.soleArgument args).Keeps P Q := by
  unfold soleArgument
  split
  · exact .pure (h _ (by simp))
  · exact .fail _

/-- An expression read from another accumulator names no local. -/
theorem Accumulator.read_keeps (a : Accumulator) (i : Nat) :
    (Emission.ofExcept (a.read i)).Keeps P fun e => e.locals = [] := by
  refine .ofExcept fun e he => ?_
  obtain ⟨s, _, rfl⟩ := read_eq_slot he
  rfl

namespace Aggregate

theorem argumentsAt_keeps {f : Frame} {rows : RowArguments} (h : rows.Within S L) {row : Expr}
    (hrow : row.Within S L) : (Emission.ofExcept ((c.window f rows).argumentsAt row)).Keeps P
      fun args => ∀ v ∈ args, v.Within S L :=
  .ofExcept fun _ hargs => Site.window_within h hrow hargs

theorem valueAt_keeps {f : Frame} {rows : RowArguments} (hf : f.Within S L)
    (hrows : rows.Within S L) {row : Expr} (hrow : row.Within S L) :
    (valueAt c (c.window f rows) row).Keeps P (Expr.Within S L) :=
  .bind (argumentsAt_keeps hrows hrow) fun _ hargs =>
    .bind (Site.soleArgument_keeps hargs) fun _ hv =>
      .pure (.choose (hf .hasRows) hv (.literal _))

theorem shifted_keeps {f : Frame} {rows : RowArguments} (hf : f.Within S L)
    (hrows : rows.Within S L) (name : String) {step : Expr → Expr → Expr}
    (hstep : ∀ a b, a.Within S L → b.Within S L → (step a b).Within S L) :
    ((shifted name step).resultAt c (c.window f rows)).Keeps P (Expr.Within S L) := by
  have hcurrent : f.currentRow.Within S L := hf .currentRow
  refine .bind (argumentsAt_keeps hrows hcurrent) fun here hhere => ?_
  have hoffset : (here[1]?.getD (Expr.int 1)).Within S L := by
    cases h : here[1]? with
    | none => exact .literal _
    | some v => exact hhere v (List.mem_of_getElem? h)
  have htarget := hstep _ _ hcurrent hoffset
  refine .bind (argumentsAt_keeps hrows htarget) fun there hthere => ?_
  cases there with
  | nil => exact .fail _
  | cons v rest =>
    have hinside := Expr.Within.binary (.logic .and) (hf .hasRows)
      (.binary (.logic .and) (.binary (.compare .ge) htarget (.literal (.int 0)))
        (.binary (.compare .lt) htarget (hf .rowCount)))
    exact .pure (.choose hinside (hthere v List.mem_cons_self) (.literal _))

/-- An assignment under a condition, none of which names a local. -/
theorem accumulate_keeps (total : SlotId) {v : Expr} (hv : v.locals = []) :
    (accumulate total v).Keeps Op.LocalFree fun _ => True := by
  refine .op ?_
  simp [Op.when, Op.LocalFree, Op.LocalFreeAll, Expr.locals, Expr.isNotNull, Expr.isNull,
    Expr.add, hv]

theorem improve_keeps (better : CompareOp) (best : SlotId) {v : Expr} (hv : v.locals = []) :
    (improve better best v).Keeps Op.LocalFree fun _ => True := by
  refine .op ?_
  simp [Op.when, Op.LocalFree, Op.LocalFreeAll, Expr.locals, Expr.isNotNull, Expr.isNull,
    Expr.or, hv]

end Aggregate

namespace Builtin

open Aggregate

theorem result_keeps (b : Builtin) (hown : ∀ s, c.accumulator.owns s = true → S s) :
    (b.aggregate.result c).Keeps P (Expr.Within S L) := by
  have read (i : Nat) : (c.read i).Keeps P (Expr.Within S L) := Site.read_keeps hown i
  cases b with
  | count | sum | min | max | arrayAgg | firstValue | lastValue => exact read 0
  | avg =>
    refine .bind (read 0) fun total htotal => .bind (read 1) fun n hn => ?_
    exact .pure (.choose (.binary _ hn (.literal _)) (.literal _) (.binary _ htotal hn))
  | lag | lead | rowNumber => exact .fail _

/-- A windowed result reads the slots of the call, the frame, and arguments at rows of it. -/
theorem resultAt_keeps (b : Builtin) (hown : ∀ s, c.accumulator.owns s = true → S s) {f : Frame}
    {rows : RowArguments} (hf : f.Within S L) (hrows : rows.Within S L) :
    (b.aggregate.resultAt c (c.window f rows)).Keeps P (Expr.Within S L) := by
  have hresult : (b.aggregate.result c).Keeps P (Expr.Within S L) := result_keeps b hown
  cases b with
  | count | sum | avg | min | max | arrayAgg => exact hresult
  | firstValue => exact valueAt_keeps hf hrows (hf .frameStart)
  | lastValue => exact valueAt_keeps hf hrows (hf .frameEnd)
  | lag => exact shifted_keeps hf hrows _ fun _ _ => .binary _
  | lead => exact shifted_keeps hf hrows _ fun _ _ => .binary _
  | rowNumber => exact .pure (.binary _ (hf .currentRow) (.literal _))

theorem add_keeps (b : Builtin) {args : List Expr} (hargs : ∀ v ∈ args, v.locals = []) :
    (b.aggregate.add c args).Keeps Op.LocalFree fun _ => True := by
  have sole := Site.soleArgument_keeps (c := c) (P := Op.LocalFree) hargs
  cases b with
  | count =>
    refine .bind (c.slot_keeps 0) fun n _ => ?_
    split
    · exact .op rfl
    · refine .op ?_
      simp [Op.when, Op.LocalFree, Op.LocalFreeAll, Expr.locals, Expr.isNotNull, Expr.add,
        Expr.int, hargs]
    · exact .fail _
  | sum => exact .bind sole fun v hv => .bind (c.slot_keeps 0) fun s _ => accumulate_keeps s hv
  | avg =>
    refine .bind (c.slot_keeps 0) fun total _ => .bind (c.slot_keeps 1) fun n _ => ?_
    refine .bind sole fun v hv => .op ?_
    simp [Op.when, Op.LocalFree, Op.LocalFreeAll, Expr.locals, Expr.isNotNull, Expr.add,
      Expr.int, hv]
  | min => exact .bind sole fun v hv => .bind (c.slot_keeps 0) fun s _ => improve_keeps _ s hv
  | max => exact .bind sole fun v hv => .bind (c.slot_keeps 0) fun s _ => improve_keeps _ s hv
  | arrayAgg => exact .bind sole fun v hv => .bind (c.slot_keeps 0) fun s _ => .op hv
  | firstValue =>
    refine .bind (c.slot_keeps 0) fun value _ => .bind (c.slot_keeps 1) fun seen _ => ?_
    refine .bind sole fun v hv => .op ?_
    simp [Op.when, Op.LocalFree, Op.LocalFreeAll, Expr.locals, Expr.not, Expr.bool, hv]
  | lastValue =>
    refine .bind sole fun v hv => .bind (c.slot_keeps 0) fun value _ => ?_
    exact .bind (.op hv) fun _ _ => .bind (c.slot_keeps 1) fun seen _ => .op rfl
  | lag | lead | rowNumber => exact .fail _

theorem addRow_keeps (b : Builtin) (w : Window) {args : List Expr}
    (hargs : ∀ v ∈ args, v.locals = []) :
    (b.aggregate.addRow c w args).Keeps Op.LocalFree fun _ => True := by
  have hadd := add_keeps (c := c) b hargs
  cases b with
  | count | sum | avg | min | max | arrayAgg => exact hadd
  | firstValue | lastValue | lag | lead | rowNumber => exact .pure trivial

theorem merge_keeps (b : Builtin) (other : Accumulator) :
    (b.aggregate.merge c other).Keeps Op.LocalFree fun _ => True := by
  cases b with
  | count =>
    refine .bind (c.slot_keeps 0) fun n _ => .bind (other.read_keeps 0) fun m hm => .op ?_
    simp [Op.LocalFree, Expr.locals, Expr.add, hm]
  | sum =>
    exact .bind (other.read_keeps 0) fun v hv =>
      .bind (c.slot_keeps 0) fun s _ => accumulate_keeps s hv
  | min | max =>
    exact .bind (other.read_keeps 0) fun v hv =>
      .bind (c.slot_keeps 0) fun s _ => improve_keeps _ s hv
  | avg =>
    refine .bind (c.slot_keeps 0) fun total _ => .bind (c.slot_keeps 1) fun n _ => ?_
    refine .bind (other.read_keeps 0) fun v hv => .bind (.op ?_) fun _ _ =>
      .bind (other.read_keeps 1) fun m hm => .op ?_
    · simp [Op.LocalFree, Expr.locals, Expr.add, hv]
    · simp [Op.LocalFree, Expr.locals, Expr.add, hm]
  | arrayAgg | firstValue | lastValue | lag | lead | rowNumber => exact .fail _

end Builtin
end WindowFold
