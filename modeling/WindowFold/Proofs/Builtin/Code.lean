import Mathlib.Logic.Function.Defs
import Mathlib.Tactic.Tauto
import WindowFold.Aggregate.Builtin
import WindowFold.Proofs.Emit.Code
import WindowFold.Proofs.Machine.Footprint

/-!
# The code of the builtin functions

What each builtin function emits in its phases, as lists of statements over the slots of the call.
The `_gives` theorems tie the lists to the phases; they ask of a call no more than what resolving
its name and creating it establish (`Builtin.Fits`).
-/

namespace WindowFold

theorem SlotId.mk_injective : SlotId.mk.Injective :=
  fun _ _ h => congrArg SlotId.index h

/-- No fact of the frame reads a slot. -/
def Frame.SlotFree (f : Frame) : Prop := ∀ k, (f.fact k).slots = []

theorem Frame.symbolic_slotFree : Frame.symbolic.SlotFree := by
  intro k
  cases k <;> rfl

theorem Frame.constant_slotFree (c s e n : Int) : (Frame.constant c s e n).SlotFree := by
  intro k
  cases k <;> rfl

namespace Builtin

/-- How many arguments a call may have. -/
def Admits : Builtin → Nat → Prop
  | .count, n => n ≤ 1
  | .lag, n | .lead, n => n = 1 ∨ n = 2
  | .rowNumber, n => n = 0
  | _, n => n = 1

def size : Builtin → Nat
  | .count | .sum | .min | .max | .arrayAgg => 1
  | .avg | .firstValue | .lastValue => 2
  | .lag | .lead | .rowNumber => 0

/-- The functions that are of use over windows only. -/
def windowOnly : Builtin → Bool
  | .lag | .lead | .rowNumber => true
  | _ => false

/-- The functions whose states can be folded into one another. -/
def mergeable : Builtin → Bool
  | .count | .sum | .avg | .min | .max => true
  | _ => false

theorem aggregate_windowOnly (b : Builtin) : b.aggregate.windowOnly = b.windowOnly := by
  cases b <;> rfl

theorem mergeable_windowOnly {b : Builtin} (h : b.mergeable = true) :
    b.aggregate.windowOnly = false := by
  cases b <;> first | rfl | exact absurd h Bool.false_ne_true

theorem layout_length (b : Builtin) (sig : Signature) :
    (b.aggregate.layout sig).length = b.size := by
  cases b <;> rfl

theorem soleType_bind_ok {α : Type} {name : String} {types : List DataType}
    {f : DataType → Except EmitError α} {a : α}
    (h : (soleType name types >>= f) = .ok a) : types.length = 1 := by
  unfold soleType at h
  split at h
  · rfl
  · simp [bind, Except.bind] at h

theorem admits_of_typing {b : Builtin} {types : List DataType} {r : DataType × Bool}
    (h : b.aggregate.typing types = .ok r) : b.Admits types.length := by
  cases b with
  | count =>
    simp only [aggregate, Aggregate.count] at h
    split at h
    · assumption
    · simp at h
  | sum => exact soleType_bind_ok h
  | avg => exact soleType_bind_ok h
  | min => exact soleType_bind_ok h
  | max => exact soleType_bind_ok h
  | arrayAgg => exact soleType_bind_ok h
  | firstValue => exact soleType_bind_ok h
  | lastValue => exact soleType_bind_ok h
  | lag =>
    simp only [aggregate, Aggregate.lag, Aggregate.shifted, Aggregate.placed] at h
    split at h
    · exact .inl rfl
    · exact .inr rfl
    · simp at h
  | lead =>
    simp only [aggregate, Aggregate.lead, Aggregate.shifted, Aggregate.placed] at h
    split at h
    · exact .inl rfl
    · exact .inr rfl
    · simp at h
  | rowNumber =>
    simp only [aggregate, Aggregate.rowNumber, Aggregate.placed] at h
    split at h
    · rename_i hnil
      simpa [Admits] using hnil
    · simp at h

/-- A call of the function: as many arguments as it admits, and its slots are `s 0`, `s 1`, … -/
structure Fits (b : Builtin) (c : Site) (s : Nat → SlotId) : Prop where
  arity : b.Admits c.signature.arity
  slots : c.accumulator.slots.map Slot.id = (List.range b.size).map s
  distinct : s.Injective

/-- The slots of the call are `s 0`, `s 1`, …, whatever its arguments. -/
def Lays (b : Builtin) (c : Site) (s : Nat → SlotId) : Prop :=
  c.accumulator.slots.map Slot.id = (List.range b.size).map s

theorem Fits.lays {b : Builtin} {c : Site} {s : Nat → SlotId} (h : b.Fits c s) : b.Lays c s :=
  h.slots

/-! ## The lists -/

section

variable (s : Nat → SlotId)

/-- A reset, also the one before any partition. -/
def resetCode : Builtin → List Stmt
  | .count => [.assign (s 0) (.int 0)]
  | .sum | .min | .max => [.assign (s 0) .null]
  | .avg => [.assign (s 0) (.float 0.0), .assign (s 1) (.int 0)]
  | .arrayAgg => [.assign (s 0) .emptyList]
  | .firstValue | .lastValue => [.assign (s 0) .null, .assign (s 1) (.bool false)]
  | .lag | .lead | .rowNumber => []

def openCode (b : Builtin) (o : Opening) : List Stmt :=
  match b with
  | .arrayAgg => [.assign (s 0) .emptyList, .reserve (s 0) o.rowCountHint]
  | b => b.resetCode s

def sumCode (v : Expr) : List Stmt :=
  [.branch v.isNotNull
    [.assign (s 0) (.choose (Expr.slot (s 0)).isNull v (.add (.slot (s 0)) v))] []]

def improveCode (better : CompareOp) (v : Expr) : List Stmt :=
  [.branch v.isNotNull
    [.branch ((Expr.slot (s 0)).isNull.or (.binary (.compare better) v (.slot (s 0))))
      [.assign (s 0) v] []] []]

/-- An add of one value, to a function that takes one. -/
def addValueCode (b : Builtin) (v : Expr) : List Stmt :=
  match b with
  | .count => [.branch v.isNotNull [.assign (s 0) (.add (.slot (s 0)) (.int 1))] []]
  | .sum => sumCode s v
  | .avg =>
    [.branch v.isNotNull [.assign (s 0) (.add (.slot (s 0)) v),
      .assign (s 1) (.add (.slot (s 1)) (.int 1))] []]
  | .min => improveCode s .lt v
  | .max => improveCode s .gt v
  | .arrayAgg => [.push (s 0) v]
  | .firstValue =>
    [.branch (Expr.slot (s 1)).not [.assign (s 0) v, .assign (s 1) (.bool true)] []]
  | .lastValue => [.assign (s 0) v, .assign (s 1) (.bool true)]
  | .lag | .lead | .rowNumber => []

/-- An add.  Only `count` does anything without a value. -/
def addCode (b : Builtin) (args : List Expr) : List Stmt :=
  match b, args with
  | .count, [] => [.assign (s 0) (.add (.slot (s 0)) (.int 1))]
  | b, v :: _ => b.addValueCode s v
  | _, [] => []

/-- A merge with a call whose slots are `s' 0`, `s' 1`, … -/
def mergeCode (s' : Nat → SlotId) (b : Builtin) : List Stmt :=
  match b with
  | .count => [.assign (s 0) (.add (.slot (s 0)) (.slot (s' 0)))]
  | .avg =>
    [.assign (s 0) (.add (.slot (s 0)) (.slot (s' 0))),
      .assign (s 1) (.add (.slot (s 1)) (.slot (s' 1)))]
  | .sum | .min | .max => b.addValueCode s (.slot (s' 0))
  | _ => []

def rowCode (b : Builtin) (args : List Expr) : List Stmt :=
  match b with
  | .firstValue | .lastValue | .lag | .lead | .rowNumber => []
  | b => b.addCode s args

def resultExpr : Builtin → Expr
  | .avg => .choose ((Expr.slot (s 1)).eq (.int 0)) .null ((Expr.slot (s 0)).div (.slot (s 1)))
  | _ => .slot (s 0)

end

/-- The first argument at a row if there are rows. -/
def edgeExpr (f : Frame) (args : Expr → List Expr) (row : Expr) : Expr :=
  .choose f.hasRows ((args row).headD .null) .null

/-- The first argument at a row away from the current one if that row is there. -/
def shiftedExpr (step : Expr → Expr → Expr) (f : Frame) (args : Expr → List Expr) : Expr :=
  let target := step f.currentRow ((args f.currentRow)[1]?.getD (.int 1))
  .choose (f.hasRows.and ((target.ge (.int 0)).and (target.lt f.rowCount)))
    ((args target).headD .null) .null

def windowExpr (s : Nat → SlotId) (b : Builtin) (f : Frame) (args : Expr → List Expr) : Expr :=
  match b with
  | .firstValue => edgeExpr f args f.frameStart
  | .lastValue => edgeExpr f args f.frameEnd
  | .lag => shiftedExpr .sub f args
  | .lead => shiftedExpr .add f args
  | .rowNumber => f.currentRow.add (.int 1)
  | b => b.resultExpr s

/-! ## The phases emit the lists -/

section

variable {b : Builtin} {c : Site} {s : Nat → SlotId}

theorem Lays.slot_ok (h : b.Lays c s) {i : Nat} (hi : i < b.size) :
    c.accumulator.slot i = .ok (s i) := by
  have hid : (c.accumulator.slots.map Slot.id)[i]? = some (s i) := by
    rw [h, List.getElem?_map, List.getElem?_range hi, Option.map_some]
  rw [List.getElem?_map, Option.map_eq_some_iff] at hid
  obtain ⟨x, hx, hid⟩ := hid
  simp only [Accumulator.slot, hx, hid]

theorem Lays.slot (h : b.Lays c s) {i : Nat} (hi : i < b.size) : c.slot i = pure (s i) := by
  rw [Site.slot, h.slot_ok hi]
  rfl

theorem Lays.read (h : b.Lays c s) {i : Nat} (hi : i < b.size) :
    c.read i = pure (.slot (s i)) := by
  rw [Site.read, Accumulator.read, h.slot_ok hi]
  rfl

/-- A function that is of use outside windows takes one argument, or is `count` with none. -/
theorem Fits.args_cases (h : b.Fits c s) (hw : b.aggregate.windowOnly = false) {args : List Expr}
    (hargs : args.length = c.signature.arity) : (∃ v, args = [v]) ∨ (b = .count ∧ args = []) := by
  have harity := h.arity
  rw [← hargs] at harity
  cases b with
  | count =>
    rcases args with _ | ⟨v, _ | ⟨v', rest⟩⟩
    · exact .inr ⟨rfl, rfl⟩
    · exact .inl ⟨v, rfl⟩
    · simp [Admits] at harity
  | lag | lead | rowNumber => simp [aggregate_windowOnly, windowOnly] at hw
  | sum | avg | min | max | arrayAgg | firstValue | lastValue =>
    exact .inl (List.length_eq_one_iff.mp harity)

theorem reset_gives (h : b.Lays c s) (hw : b.aggregate.windowOnly = false) :
    (b.aggregate.reset c).Gives (b.resetCode s) () := by
  cases b with
  | count | sum | min | max | arrayAgg =>
    simp only [aggregate, Aggregate.count, Aggregate.sum, Aggregate.min, Aggregate.max,
      Aggregate.extremum, Aggregate.arrayAgg, h.slot Nat.zero_lt_one, pure_bind]
    exact .assign _ _
  | avg | firstValue | lastValue =>
    simp only [aggregate, Aggregate.avg, Aggregate.firstValue, Aggregate.lastValue,
      Aggregate.edge, h.slot Nat.zero_lt_two, h.slot Nat.one_lt_two, pure_bind]
    exact .bind (.assign _ _) (.assign _ _)
  | lag | lead | rowNumber => simp [aggregate_windowOnly, windowOnly] at hw

theorem accumulate_gives (v : Expr) :
    (Aggregate.accumulate (s 0) v).Gives (sumCode s v) () :=
  .whenOps _ (.ofOps_cons (.assign _ _) .ofOps_nil)

theorem improve_gives (better : CompareOp) (v : Expr) :
    (Aggregate.improve better (s 0) v).Gives (improveCode s better v) () :=
  .whenOps _ (.ofOps_cons (.whenOps _ (.ofOps_cons (.assign _ _) .ofOps_nil)) .ofOps_nil)

theorem add_gives (h : b.Fits c s) (hw : b.aggregate.windowOnly = false) {args : List Expr}
    (hargs : args.length = c.signature.arity) :
    (b.aggregate.add c args).Gives (b.addCode s args) () := by
  have hl := h.lays
  rcases h.args_cases hw hargs with ⟨v, rfl⟩ | ⟨rfl, rfl⟩
  · have sole : c.soleArgument [v] = pure v := rfl
    cases b with
    | count =>
      simp only [aggregate, Aggregate.count, hl.slot Nat.zero_lt_one, pure_bind]
      exact .whenOps _ (.ofOps_cons (.assign _ _) .ofOps_nil)
    | sum =>
      simp only [aggregate, Aggregate.sum, hl.slot Nat.zero_lt_one, sole, pure_bind]
      exact accumulate_gives v
    | avg =>
      simp only [aggregate, Aggregate.avg, hl.slot Nat.zero_lt_two, hl.slot Nat.one_lt_two, sole,
        pure_bind]
      exact .whenOps _ (.ofOps_cons (.assign _ _) (.ofOps_cons (.assign _ _) .ofOps_nil))
    | min =>
      simp only [aggregate, Aggregate.min, Aggregate.extremum, hl.slot Nat.zero_lt_one, sole,
        pure_bind]
      exact improve_gives .lt v
    | max =>
      simp only [aggregate, Aggregate.max, Aggregate.extremum, hl.slot Nat.zero_lt_one, sole,
        pure_bind]
      exact improve_gives .gt v
    | arrayAgg =>
      simp only [aggregate, Aggregate.arrayAgg, hl.slot Nat.zero_lt_one, sole, pure_bind]
      exact .push _ _
    | firstValue =>
      simp only [aggregate, Aggregate.firstValue, Aggregate.edge, hl.slot Nat.zero_lt_two,
        hl.slot Nat.one_lt_two, sole, pure_bind]
      exact .whenOps _ (.ofOps_cons (.assign _ _) (.ofOps_cons (.assign _ _) .ofOps_nil))
    | lastValue =>
      simp only [aggregate, Aggregate.lastValue, Aggregate.edge, hl.slot Nat.zero_lt_two,
        hl.slot Nat.one_lt_two, sole, pure_bind]
      exact .bind (.assign _ _) (.assign _ _)
    | lag | lead | rowNumber => simp [aggregate_windowOnly, windowOnly] at hw
  · simp only [aggregate, Aggregate.count, hl.slot Nat.zero_lt_one, pure_bind]
    exact .assign _ _

theorem merge_gives {c' : Site} {s' : Nat → SlotId} (h : b.Lays c s) (h' : b.Lays c' s')
    (hm : b.mergeable = true) :
    (b.aggregate.merge c c'.accumulator).Gives (b.mergeCode s s') () := by
  have read {i : Nat} (hi : i < b.size) :
      Emission.ofExcept (c'.accumulator.read i) = pure (.slot (s' i)) := h'.read hi
  cases b with
  | count =>
    simp only [aggregate, Aggregate.count, h.slot Nat.zero_lt_one, read Nat.zero_lt_one, pure_bind]
    exact .assign _ _
  | sum =>
    simp only [aggregate, Aggregate.sum, h.slot Nat.zero_lt_one, read Nat.zero_lt_one, pure_bind]
    exact accumulate_gives _
  | avg =>
    simp only [aggregate, Aggregate.avg, h.slot Nat.zero_lt_two, h.slot Nat.one_lt_two,
      read Nat.zero_lt_two, read Nat.one_lt_two, pure_bind]
    exact .bind (.assign _ _) (.assign _ _)
  | min =>
    simp only [aggregate, Aggregate.min, Aggregate.extremum, h.slot Nat.zero_lt_one,
      read Nat.zero_lt_one, pure_bind]
    exact improve_gives .lt _
  | max =>
    simp only [aggregate, Aggregate.max, Aggregate.extremum, h.slot Nat.zero_lt_one,
      read Nat.zero_lt_one, pure_bind]
    exact improve_gives .gt _
  | arrayAgg | firstValue | lastValue | lag | lead | rowNumber => simp [mergeable] at hm

theorem result_gives (h : b.Lays c s) (hw : b.aggregate.windowOnly = false) :
    (b.aggregate.result c).Gives [] (b.resultExpr s) := by
  cases b with
  | count | sum | min | max | arrayAgg =>
    simp only [aggregate, Aggregate.count, Aggregate.sum, Aggregate.min, Aggregate.max,
      Aggregate.extremum, Aggregate.arrayAgg, h.read Nat.zero_lt_one]
    exact .pure _
  | firstValue | lastValue =>
    simp only [aggregate, Aggregate.firstValue, Aggregate.lastValue, Aggregate.edge,
      h.read Nat.zero_lt_two]
    exact .pure _
  | avg =>
    simp only [aggregate, Aggregate.avg, h.read Nat.zero_lt_two, h.read Nat.one_lt_two, pure_bind]
    exact .pure _
  | lag | lead | rowNumber => simp [aggregate_windowOnly, windowOnly] at hw

theorem open_gives (h : b.Lays c s) (o : Opening) :
    (b.aggregate.openWindow c o).Gives (b.openCode s o) () := by
  cases b with
  | arrayAgg =>
    simp only [aggregate, Aggregate.arrayAgg, h.slot Nat.zero_lt_one, pure_bind]
    exact .bind (.assign _ _) (.reserve _ _)
  | lag | lead | rowNumber => exact .pure ()
  | count | sum | avg | min | max | firstValue | lastValue => exact reset_gives h rfl

theorem addRow_gives (h : b.Fits c s) (w : Window) {args : List Expr}
    (hargs : args.length = c.signature.arity) :
    (b.aggregate.addRow c w args).Gives (b.rowCode s args) () := by
  cases b with
  | firstValue | lastValue | lag | lead | rowNumber => exact .pure ()
  | count | sum | avg | min | max | arrayAgg => exact add_gives h rfl hargs

/-- The arguments of a window are those of the call, as long as there are enough of them. -/
theorem window_arguments {c : Site} {args : Expr → List Expr} {row : Expr} (f : Frame)
    (hargs : (args row).length = c.signature.arity) :
    (c.window f (.total args)).argumentsAt row = .ok (args row) := by
  simp [Site.window, RowArguments.total, bind, Except.bind, hargs]

theorem valueAt_gives {args : Expr → List Expr} (f : Frame) (row : Expr)
    (hone : c.signature.arity = 1) (hargs : (args row).length = c.signature.arity) :
    (Aggregate.valueAt c (c.window f (.total args)) row).Gives [] (edgeExpr f args row) := by
  obtain ⟨v, hv⟩ := List.length_eq_one_iff.mp (hargs.trans hone)
  rw [Aggregate.valueAt, window_arguments f hargs, edgeExpr, hv]
  exact .pure _

theorem shifted_gives {args : Expr → List Expr} (f : Frame) (name : String)
    (step : Expr → Expr → Expr) (hpos : 0 < c.signature.arity)
    (hargs : ∀ row, (args row).length = c.signature.arity) :
    ((Aggregate.shifted name step).resultAt c (c.window f (.total args))).Gives []
      (shiftedExpr step f args) := by
  have harguments (row : Expr) : Emission.ofExcept
      ((c.window f (.total args)).argumentsAt row) = pure (args row) := by
    rw [window_arguments f (hargs row)]
    rfl
  have hframe : (c.window f (.total args)).frame = f := rfl
  simp only [Aggregate.shifted, Aggregate.placed, hframe, harguments, pure_bind, shiftedExpr]
  have hlen := hargs (step f.currentRow ((args f.currentRow)[1]?.getD (.int 1)))
  cases hthere : args (step f.currentRow ((args f.currentRow)[1]?.getD (.int 1))) with
  | nil =>
    rw [hthere, List.length_nil] at hlen
    omega
  | cons v rest => exact .pure _

theorem resultAt_gives (h : b.Fits c s) (f : Frame) {args : Expr → List Expr}
    (hargs : ∀ row, (args row).length = c.signature.arity) :
    (b.aggregate.resultAt c (c.window f (.total args))).Gives [] (windowExpr s b f args) := by
  have harity := h.arity
  cases b with
  | firstValue => exact valueAt_gives f f.frameStart harity (hargs _)
  | lastValue => exact valueAt_gives f f.frameEnd harity (hargs _)
  | lag => exact shifted_gives f _ .sub (by rcases harity with h | h <;> omega) hargs
  | lead => exact shifted_gives f _ .add (by rcases harity with h | h <;> omega) hargs
  | rowNumber => exact .pure _
  | count | sum | avg | min | max | arrayAgg => exact result_gives h.lays rfl

/-! ## The lists keep to the slots of the call -/

def Own (b : Builtin) (s : Nat → SlotId) (x : SlotId) : Prop := ∃ i < b.size, x = s i

theorem Lays.owns_iff (h : b.Lays c s) {x : SlotId} :
    c.accumulator.owns x = true ↔ b.Own s x := by
  rw [Accumulator.owns_iff, h, List.mem_map]
  simp only [List.mem_range, Own, eq_comm]

theorem own_zero (h : 0 < b.size) : b.Own s (s 0) := ⟨0, h, rfl⟩

theorem own_one (h : 1 < b.size) : b.Own s (s 1) := ⟨1, h, rfl⟩

theorem resetCode_touched : ∀ x ∈ Stmt.touchedAll (b.resetCode s), b.Own s x := by
  cases b with
  | count | sum | min | max | arrayAgg =>
    intro x hx
    have hx : x = s 0 := by
      simpa [resetCode, Stmt.touchedAll, Stmt.touched, Expr.slots, Expr.int, Expr.null] using hx
    exact hx ▸ own_zero Nat.zero_lt_one
  | avg | firstValue | lastValue =>
    intro x hx
    have hx : x = s 0 ∨ x = s 1 := by
      simpa [resetCode, Stmt.touchedAll, Stmt.touched, Expr.slots, Expr.int, Expr.null,
        Expr.float, Expr.bool] using hx
    rcases hx with rfl | rfl
    · exact own_zero Nat.zero_lt_two
    · exact own_one Nat.one_lt_two
  | lag | lead | rowNumber => simp [resetCode, Stmt.touchedAll]

theorem openCode_touched {o : Opening} (ho : o.rowCountHint.slots = []) :
    ∀ x ∈ Stmt.touchedAll (b.openCode s o), b.Own s x := by
  cases b with
  | arrayAgg =>
    intro x hx
    have hx : x = s 0 := by
      simpa [openCode, Stmt.touchedAll, Stmt.touched, Expr.slots, ho] using hx
    exact hx ▸ own_zero Nat.zero_lt_one
  | count | sum | avg | min | max | firstValue | lastValue | lag | lead | rowNumber =>
    intro x hx
    exact resetCode_touched x hx

/-- A reset assigns every slot once, whatever the occasion. -/
theorem openCode_assigned (o : Opening) :
    Stmt.assignedAll (b.openCode s o) = (List.range b.size).map s := by
  cases b <;> rfl

theorem resetCode_assigned : Stmt.assignedAll (b.resetCode s) = (List.range b.size).map s := by
  cases b <;> rfl

theorem addValueCode_touched {v : Expr} (hv : v.slots = []) :
    ∀ x ∈ Stmt.touchedAll (b.addValueCode s v), b.Own s x := by
  cases b with
  | count | sum | min | max | arrayAgg =>
    intro x hx
    have hx : x = s 0 := by
      simpa [addValueCode, sumCode, improveCode, Stmt.touchedAll, Stmt.touched, Expr.slots,
        Expr.isNotNull, Expr.isNull, Expr.or, Expr.add, Expr.int, hv] using hx
    exact hx ▸ own_zero Nat.zero_lt_one
  | avg | firstValue | lastValue =>
    intro x hx
    have hx : x = s 0 ∨ x = s 1 := by
      have hx := by
        simpa [addValueCode, Stmt.touchedAll, Stmt.touched, Expr.slots, Expr.isNotNull, Expr.not,
          Expr.add, Expr.int, Expr.bool, hv] using hx
      tauto
    rcases hx with rfl | rfl
    · exact own_zero Nat.zero_lt_two
    · exact own_one Nat.one_lt_two
  | lag | lead | rowNumber => simp [addValueCode, Stmt.touchedAll]

theorem addCode_cons (v : Expr) (rest : List Expr) :
    b.addCode s (v :: rest) = b.addValueCode s v := by
  cases b <;> rfl

theorem addCode_touched {args : List Expr} (hargs : ∀ v ∈ args, v.slots = []) :
    ∀ x ∈ Stmt.touchedAll (b.addCode s args), b.Own s x := by
  cases args with
  | cons v rest =>
    rw [addCode_cons]
    exact addValueCode_touched (hargs v List.mem_cons_self)
  | nil =>
    cases b with
    | count =>
      intro x hx
      have hx : x = s 0 := by
        simpa [addCode, Stmt.touchedAll, Stmt.touched, Expr.slots, Expr.add, Expr.int] using hx
      exact hx ▸ own_zero Nat.zero_lt_one
    | sum | avg | min | max | arrayAgg | firstValue | lastValue | lag | lead | rowNumber =>
      simp [addCode, Stmt.touchedAll]

/-- A merge touches the slots of the two calls. -/
theorem mergeCode_touched {s' : Nat → SlotId} :
    ∀ x ∈ Stmt.touchedAll (b.mergeCode s s'), b.Own s x ∨ b.Own s' x := by
  cases b with
  | count | sum | min | max =>
    intro x hx
    have hx : x = s 0 ∨ x = s' 0 := by
      have hx := by
        simpa [mergeCode, addValueCode, sumCode, improveCode, Stmt.touchedAll, Stmt.touched,
          Expr.slots, Expr.isNotNull, Expr.isNull, Expr.or, Expr.add] using hx
      tauto
    rcases hx with rfl | rfl
    · exact .inl (own_zero Nat.zero_lt_one)
    · exact .inr (own_zero Nat.zero_lt_one)
  | avg =>
    intro x hx
    have hx : (x = s 0 ∨ x = s 1) ∨ (x = s' 0 ∨ x = s' 1) := by
      have hx := by
        simpa [mergeCode, Stmt.touchedAll, Stmt.touched, Expr.slots, Expr.add] using hx
      tauto
    have own {s : Nat → SlotId} (h : x = s 0 ∨ x = s 1) : avg.Own s x := by
      rcases h with rfl | rfl
      · exact own_zero Nat.zero_lt_two
      · exact own_one Nat.one_lt_two
    exact hx.imp own own
  | arrayAgg | firstValue | lastValue | lag | lead | rowNumber =>
    simp [mergeCode, Stmt.touchedAll]

/-- A merge leaves the call that is merged in alone. -/
theorem mergeCode_written {s' : Nat → SlotId} :
    ∀ x ∈ Stmt.writtenAll (b.mergeCode s s'), b.Own s x := by
  cases b with
  | count | sum | min | max =>
    intro x hx
    have hx : x = s 0 := by
      simpa [mergeCode, addValueCode, sumCode, improveCode, Stmt.writtenAll, Stmt.written] using hx
    exact hx ▸ own_zero Nat.zero_lt_one
  | avg =>
    intro x hx
    have hx : x = s 0 ∨ x = s 1 := by
      simpa [mergeCode, Stmt.writtenAll, Stmt.written] using hx
    rcases hx with rfl | rfl
    · exact own_zero Nat.zero_lt_two
    · exact own_one Nat.one_lt_two
  | arrayAgg | firstValue | lastValue | lag | lead | rowNumber =>
    simp [mergeCode, Stmt.writtenAll]

/-- Whatever the arguments of a phase read, it writes the slots of its call. -/
theorem openCode_written (o : Opening) : ∀ x ∈ Stmt.writtenAll (b.openCode s o), b.Own s x := by
  cases b with
  | arrayAgg =>
    intro x hx
    have hx : x = s 0 := by simpa [openCode, Stmt.writtenAll, Stmt.written] using hx
    exact hx ▸ own_zero Nat.zero_lt_one
  | count | sum | avg | min | max | firstValue | lastValue | lag | lead | rowNumber =>
    exact fun x hx => resetCode_touched x (Stmt.writtenAll_subset_touchedAll _ hx)

theorem addCode_written (args : List Expr) :
    ∀ x ∈ Stmt.writtenAll (b.addCode s args), b.Own s x := by
  intro x hx
  cases args with
  | nil =>
    cases b with
    | count =>
      have hx : x = s 0 := by simpa [addCode, Stmt.writtenAll, Stmt.written] using hx
      exact hx ▸ own_zero Nat.zero_lt_one
    | sum | avg | min | max | arrayAgg | firstValue | lastValue | lag | lead | rowNumber =>
      simp [addCode, Stmt.writtenAll] at hx
  | cons v rest =>
    rw [addCode_cons] at hx
    cases b with
    | count | sum | min | max | arrayAgg =>
      have hx : x = s 0 := by
        simpa [addValueCode, sumCode, improveCode, Stmt.writtenAll, Stmt.written] using hx
      exact hx ▸ own_zero Nat.zero_lt_one
    | avg | firstValue | lastValue =>
      have hx : x = s 0 ∨ x = s 1 := by
        simpa [addValueCode, Stmt.writtenAll, Stmt.written] using hx
      rcases hx with rfl | rfl
      · exact own_zero Nat.zero_lt_two
      · exact own_one Nat.one_lt_two
    | lag | lead | rowNumber => simp [addValueCode, Stmt.writtenAll] at hx

theorem rowCode_written (args : List Expr) :
    ∀ x ∈ Stmt.writtenAll (b.rowCode s args), b.Own s x := by
  cases b with
  | firstValue | lastValue | lag | lead | rowNumber => simp [rowCode, Stmt.writtenAll]
  | count | sum | avg | min | max | arrayAgg => exact addCode_written args

theorem rowCode_touched {args : List Expr} (hargs : ∀ v ∈ args, v.slots = []) :
    ∀ x ∈ Stmt.touchedAll (b.rowCode s args), b.Own s x := by
  cases b with
  | firstValue | lastValue | lag | lead | rowNumber => simp [rowCode, Stmt.touchedAll]
  | count | sum | avg | min | max | arrayAgg => exact addCode_touched hargs

theorem resultExpr_slots (hw : b.aggregate.windowOnly = false) :
    ∀ x ∈ (b.resultExpr s).slots, b.Own s x := by
  cases b with
  | count | sum | min | max | arrayAgg =>
    intro x hx
    have hx : x = s 0 := by simpa [resultExpr, Expr.slots] using hx
    exact hx ▸ own_zero Nat.zero_lt_one
  | firstValue | lastValue =>
    intro x hx
    have hx : x = s 0 := by simpa [resultExpr, Expr.slots] using hx
    exact hx ▸ own_zero Nat.zero_lt_two
  | avg =>
    intro x hx
    have hx : x = s 1 ∨ x = s 0 ∨ x = s 1 := by
      simpa [resultExpr, Expr.slots, Expr.eq, Expr.div, Expr.int, Expr.null] using hx
    rcases hx with rfl | rfl | rfl
    · exact own_one Nat.one_lt_two
    · exact own_zero Nat.zero_lt_two
    · exact own_one Nat.one_lt_two
  | lag | lead | rowNumber => simp [aggregate_windowOnly, windowOnly] at hw

section

variable {f : Frame} {args : Expr → List Expr}

theorem headD_slots {l : List Expr} (h : ∀ v ∈ l, v.slots = []) : (l.headD .null).slots = [] := by
  cases l with
  | nil => rfl
  | cons v rest => exact h v List.mem_cons_self

theorem edgeExpr_slots {row : Expr} (hf : f.SlotFree) (hrow : row.slots = [])
    (hargs : ∀ row, row.slots = [] → ∀ v ∈ args row, v.slots = []) :
    (edgeExpr f args row).slots = [] := by
  have hrows : f.hasRows.slots = [] := hf .hasRows
  simp only [edgeExpr, Expr.slots, hrows, headD_slots (hargs row hrow), List.nil_append]
  rfl

theorem shiftedExpr_slots {step : Expr → Expr → Expr}
    (hstep : ∀ a b, (step a b).slots = a.slots ++ b.slots) (hf : f.SlotFree)
    (hargs : ∀ row, row.slots = [] → ∀ v ∈ args row, v.slots = []) :
    (shiftedExpr step f args).slots = [] := by
  have hcurrent : f.currentRow.slots = [] := hf .currentRow
  have hrows : f.hasRows.slots = [] := hf .hasRows
  have hcount : f.rowCount.slots = [] := hf .rowCount
  have hoffset : ((args f.currentRow)[1]?.getD (Expr.int 1)).slots = [] := by
    cases h : (args f.currentRow)[1]? with
    | none => rfl
    | some v => exact hargs _ hcurrent v (List.mem_of_getElem? h)
  have htarget := hstep f.currentRow ((args f.currentRow)[1]?.getD (.int 1))
  rw [hcurrent, hoffset, List.append_nil] at htarget
  simp only [shiftedExpr, Expr.slots, Expr.and, Expr.ge, Expr.lt, hrows, hcount, htarget,
    headD_slots (hargs _ htarget)]
  rfl

theorem windowExpr_slots (hf : f.SlotFree)
    (hargs : ∀ row, row.slots = [] → ∀ v ∈ args row, v.slots = []) :
    ∀ x ∈ (windowExpr s b f args).slots, b.Own s x := by
  have of_nil {e : Expr} (h : e.slots = []) : ∀ x ∈ e.slots, b.Own s x := by simp [h]
  cases b with
  | firstValue => exact of_nil (edgeExpr_slots hf (hf .frameStart) hargs)
  | lastValue => exact of_nil (edgeExpr_slots hf (hf .frameEnd) hargs)
  | lag => exact of_nil (shiftedExpr_slots (fun _ _ => rfl) hf hargs)
  | lead => exact of_nil (shiftedExpr_slots (fun _ _ => rfl) hf hargs)
  | rowNumber =>
    have hcurrent : f.currentRow.slots = [] := hf .currentRow
    refine of_nil ?_
    rw [windowExpr, Expr.add, Expr.slots, hcurrent]
    rfl
  | count | sum | avg | min | max | arrayAgg =>
    intro x hx
    exact resultExpr_slots rfl x hx

end

end

end Builtin
end WindowFold
