import Mathlib.Algebra.Order.BigOperators.Group.List
import Mathlib.Algebra.Ring.Nat
import Mathlib.Data.List.Flatten
import Mathlib.Data.String.Basic
import Mathlib.Order.Compare
import WindowFold.Proofs.Builtin.Account

/-!
# Functions that fold into one cell

`sum`, `min` and `max` keep one cell.  It is NULL for as long as there is nothing in it, and a
NULL that is added is skipped, so that NULL is the neutral element of what is picked from two
cells (`gather`).  Such a function adds a value and merges the cell of another call by the same
code, and one law about that code (`Fold.take`) gives both halves of its account.

Whole numbers may be added up only as far as every total stays a word; `weight` is what a value
uses up of that.  Picking the least or the greatest uses up nothing.
-/

namespace WindowFold

/-- The whole number that a value is. -/
def Value.number? : Value → Option Int
  | .int n => some n
  | _ => none

/-- The value a slot holds for a cell, NULL for an empty one. -/
def cellValue {α : Type} (embed : α → Value) (cell : Option α) : Value := cell.elim .null embed

/-- What is picked of all the cells, the empty ones left out. -/
def gather {α : Type} (pick : α → α → α) (cells : List (Option α)) : Option α :=
  cells.foldl (Option.merge pick) none

section

variable {α : Type} {pick : α → α → α}

theorem gather_singleton (cell : Option α) : gather pick [cell] = cell :=
  Option.merge_none_left

theorem gather_append [Std.Associative pick] (as bs : List (Option α)) :
    gather pick (as ++ bs) = Option.merge pick (gather pick as) (gather pick bs) := by
  have := Option.associative_merge pick
  calc gather pick (as ++ bs)
      = bs.foldl (Option.merge pick) (gather pick as) := List.foldl_append
    _ = bs.foldl (Option.merge pick) (Option.merge pick (gather pick as) none) := by
        rw [Option.merge_none_right]
    _ = Option.merge pick (gather pick as) (gather pick bs) := List.foldl_assoc

theorem gather_cons [Std.Associative pick] (cell : Option α) (rest : List (Option α)) :
    gather pick (cell :: rest) = Option.merge pick cell (gather pick rest) := by
  rw [← List.singleton_append, gather_append, gather_singleton]

theorem gather_perm [Std.Associative pick] [Std.Commutative pick] {as bs : List (Option α)}
    (h : as.Perm bs) : gather pick as = gather pick bs := by
  have := Option.associative_merge pick
  have := Option.commutative_merge pick
  exact h.foldl_op_eq

/-- What a cell uses up, an empty one nothing. -/
def cellWeight (weight : α → Nat) (cell : Option α) : Nat := cell.elim 0 weight

theorem cellWeight_merge_le {weight : α → Nat}
    (h : ∀ x y, weight (pick x y) ≤ weight x + weight y) (a b : Option α) :
    cellWeight weight (Option.merge pick a b) ≤ cellWeight weight a + cellWeight weight b := by
  cases a with
  | none =>
    rw [Option.merge_none_left]
    exact Nat.le_add_left _ _
  | some x =>
    cases b with
    | none =>
      rw [Option.merge_none_right]
      exact Nat.le_add_right _ _
    | some y => exact h x y

theorem cellWeight_gather_le {weight : α → Nat} [Std.Associative pick]
    (h : ∀ x y, weight (pick x y) ≤ weight x + weight y) (cells : List (Option α)) :
    cellWeight weight (gather pick cells) ≤ (cells.map (cellWeight weight)).sum := by
  induction cells with
  | nil => exact Nat.le_refl 0
  | cons cell rest ih =>
    have hle := cellWeight_merge_le h cell (gather pick rest)
    rw [gather_cons, List.map_cons, List.sum_cons]
    omega

end

section

variable {env : Env} {st : Store}

/-- Code under the condition that a value is not NULL runs if its cell has something in it. -/
theorem branch_cell {α : Type} {embed : α → Value} (hembed : ∀ x, (embed x).isNull = false)
    {e : Expr} {taken : Option α} (he : e.eval env st = .ok (cellValue embed taken))
    {yes : List Stmt} {P : Store → Prop} (hnone : taken = none → P st)
    (hsome : ∀ x, taken = some x → Completes (Stmt.runAll env st yes) P) :
    Completes (Stmt.runAll env st [.branch e.isNotNull yes []]) P := by
  have htest := test_isNotNull he
  cases taken with
  | none => exact branch_completes htest nofun fun _ => hnone rfl
  | some x =>
    rw [show (cellValue embed (some x)).isNull = false from hembed x] at htest
    exact branch_completes htest (fun _ => hsome x rfl) nofun

end

namespace Builtin

/-- A function that keeps one cell. -/
structure Fold (b : Builtin) (α : Type) where
  /-- What the slot holds for a cell with something in it. -/
  embed : α → Value
  /-- The cell that a value stands for. -/
  decode : Value → Option α
  pick : α → α → α
  weight : α → Nat
  assoc : Std.Associative pick
  comm : Std.Commutative pick
  decode_cell : ∀ cell, decode (cellValue embed cell) = cell
  weight_pick : ∀ x y, weight (pick x y) ≤ weight x + weight y
  counts : b ≠ .count
  mergeable : b.mergeable = true
  size : b.size = 1
  result : ∀ s, b.resultExpr s = .slot (s 0)
  reset : ∀ s, b.resetCode s = [.assign (s 0) .null]
  merge : ∀ s s', b.mergeCode s s' = b.addValueCode s (.slot (s' 0))
  /-- An add of the value of a cell picks from the two. -/
  take : ∀ (s : Nat → SlotId) (env : Env) (st : Store) (e : Expr) (held taken : Option α),
    cellWeight weight held + cellWeight weight taken < 0x8000000000000000 →
    st.slots (s 0) = some (cellValue embed held) →
    e.eval env st = .ok (cellValue embed taken) →
    Completes (Stmt.runAll env st (b.addValueCode s e))
      fun st' => st'.slots (s 0) = some (cellValue embed (Option.merge pick held taken))

namespace Fold

variable {b : Builtin} {α : Type} (f : Fold b α)

/-- The cells of all the values. -/
def cells (inputs : List (List Value)) : List (Option α) := inputs.flatten.map f.decode

def load (inputs : List (List Value)) : Nat := ((f.cells inputs).map (cellWeight f.weight)).sum

/-- Every value is that of a cell, and together they are not too much. -/
structure Fine (inputs : List (List Value)) : Prop where
  known : ∀ v ∈ inputs.flatten, cellValue f.embed (f.decode v) = v
  light : f.load inputs < 0x8000000000000000

theorem cells_append (as bs : List (List Value)) :
    f.cells (as ++ bs) = f.cells as ++ f.cells bs := by
  rw [cells, List.flatten_append, List.map_append]
  rfl

/-- Taking in what other inputs come to is as good as taking in those inputs. -/
theorem take_gathered {s : Nat → SlotId} {env : Env} {st : Store} {e : Expr}
    {as bs : List (List Value)} (hfine : f.Fine (as ++ bs))
    (hst : st.Carries s [cellValue f.embed (gather f.pick (f.cells as))])
    (he : e.eval env st = .ok (cellValue f.embed (gather f.pick (f.cells bs)))) :
    Completes (Stmt.runAll env st (b.addValueCode s e))
      fun st' => st'.Carries s [cellValue f.embed (gather f.pick (f.cells (as ++ bs)))] := by
  have := f.assoc
  have hlight := hfine.light
  rw [load, cells_append, List.map_append, List.sum_append] at hlight
  have has := cellWeight_gather_le f.weight_pick (f.cells as)
  have hbs := cellWeight_gather_le f.weight_pick (f.cells bs)
  rw [cells_append, gather_append]
  refine (f.take s env st e _ _ (by omega) (carries_singleton.mp hst) he).mono ?_
  exact fun _ h => carries_singleton.mpr h

end Fold

/-- An account of a function whose states can be folded into one another: the order of the inputs
does not matter, and a merge comes to the same as all the adds. -/
structure Merging (b : Builtin) extends Account b where
  mergeable : b.mergeable = true
  fine_of_sublist : ∀ {as bs : List (List Value)}, as.Sublist bs → fine bs → fine as
  fine_of_perm : ∀ {as bs : List (List Value)}, as.Perm bs → fine bs → fine as
  total_of_perm : ∀ {as bs : List (List Value)}, as.Perm bs → total as = total bs
  merge : ∀ (s s' : Nat → SlotId) (env : Env) (st : Store) (as bs : List (List Value)),
    fine (as ++ bs) → st.Carries s (contents as) → st.Carries s' (contents bs) →
    Completes (Stmt.runAll env st (b.mergeCode s s'))
      fun st' => st'.Carries s (contents (as ++ bs))

theorem Fold.cells_of_values {b : Builtin} {α : Type} (f : Fold b α) {inputs : List (List Value)}
    {cells : List (Option α)} (h : inputs.flatten = cells.map (cellValue f.embed)) :
    f.cells inputs = cells := by
  have hdecode : f.decode ∘ cellValue f.embed = id := funext f.decode_cell
  rw [Fold.cells, h, List.map_map, hdecode, List.map_id]

theorem Fold.fine_of_values {b : Builtin} {α : Type} (f : Fold b α) {inputs : List (List Value)}
    {cells : List (Option α)} (h : inputs.flatten = cells.map (cellValue f.embed))
    (hlight : (cells.map (cellWeight f.weight)).sum < 0x8000000000000000) : f.Fine inputs := by
  refine ⟨fun v hv => ?_, ?_⟩
  · rw [h] at hv
    obtain ⟨cell, _, rfl⟩ := List.mem_map.mp hv
    rw [f.decode_cell]
  · rw [load, f.cells_of_values h]
    exact hlight

def Fold.merging {b : Builtin} {α : Type} (f : Fold b α) : Merging b where
  contents inputs := [cellValue f.embed (gather f.pick (f.cells inputs))]
  total inputs := cellValue f.embed (gather f.pick (f.cells inputs))
  fine := f.Fine
  size _ := f.size.symm
  first _ := rfl
  result := f.result
  reset s env st _ := by
    rw [f.reset]
    exact (assign_completes rfl).mono fun _ h => carries_singleton.mpr h
  add := by
    intro s env st inputs args values _ hfine hlen hst hargs
    cases hargs with
    | nil =>
      have hsame : f.cells (inputs ++ [[]]) = f.cells inputs := by
        rw [f.cells_append]
        exact List.append_nil _
      rw [addCode_nil f.counts, hsame]
      exact ⟨st, rfl, hst⟩
    | @cons e v args values he hargs =>
      obtain rfl : values = [] := by simpa using hlen
      have hv : cellValue f.embed (f.decode v) = v := hfine.known v (by simp)
      have hcells : f.cells [[v]] = [f.decode v] := rfl
      rw [addCode_cons]
      refine f.take_gathered hfine hst ?_
      rw [he, hcells, gather_singleton, hv]
  mergeable := f.mergeable
  fine_of_sublist := by
    intro as bs hsub hfine
    refine ⟨fun v hv => hfine.known v (hsub.flatten.subset hv), ?_⟩
    have hload : f.load as ≤ f.load bs :=
      ((hsub.flatten.map f.decode).map _).sum_le_sum fun _ _ => Nat.zero_le _
    exact Nat.lt_of_le_of_lt hload hfine.light
  fine_of_perm := by
    intro as bs hperm hfine
    refine ⟨fun v hv => hfine.known v (hperm.flatten.mem_iff.mp hv), ?_⟩
    have hload : f.load as = f.load bs := ((hperm.flatten.map f.decode).map _).sum_eq
    rw [hload]
    exact hfine.light
  total_of_perm := by
    intro as bs hperm
    have := f.assoc
    have := f.comm
    have hcells : (f.cells as).Perm (f.cells bs) := hperm.flatten.map _
    rw [gather_perm hcells]
  merge := by
    intro s s' env st as bs hfine hst hst'
    rw [f.merge]
    exact f.take_gathered hfine hst (eval_slot (carries_singleton.mp hst'))

theorem Fold.merging_of_values {b : Builtin} {α : Type} (f : Fold b α) {inputs : List (List Value)}
    {cells : List (Option α)} (h : inputs.flatten = cells.map (cellValue f.embed))
    (hlight : (cells.map (cellWeight f.weight)).sum < 0x8000000000000000) :
    f.merging.fine inputs ∧ f.merging.total inputs = cellValue f.embed (gather f.pick cells) := by
  refine ⟨f.fine_of_values h hlight, ?_⟩
  show cellValue f.embed (gather f.pick (f.cells inputs)) = _
  rw [f.cells_of_values h]

/-! ## Counting -/

def countMerging : Merging .count where
  toAccount := countAccount
  mergeable := rfl
  fine_of_sublist := fun hsub hfine => Nat.lt_of_le_of_lt hsub.length_le hfine
  fine_of_perm := by
    intro as bs hperm hfine
    have hlen : bs.length < 0x8000000000000000 := hfine
    rw [← hperm.length_eq] at hlen
    exact hlen
  total_of_perm := by
    intro as bs hperm
    show Value.int (as.countP counted) = .int (bs.countP counted)
    rw [hperm.countP_eq]
  merge := by
    intro s s' env st as bs hfine hst hst'
    have hlen : (as ++ bs).length < 0x8000000000000000 := hfine
    have has : as.countP counted ≤ as.length := List.countP_le_length
    have hbs : bs.countP counted ≤ bs.length := List.countP_le_length
    rw [List.length_append] at hlen
    have hadd : ((Expr.slot (s 0)).add (.slot (s' 0))).eval env st =
        .ok (.int (as.countP counted + bs.countP counted)) :=
      eval_add_words (eval_slot (carries_singleton.mp hst))
        (eval_slot (carries_singleton.mp hst')) (by omega) (by omega) (by omega)
    refine (assign_completes hadd).mono fun st' h => carries_singleton.mpr ?_
    rw [List.countP_append, Int.natCast_add]
    exact h

/-! ## Totals -/

/-- The first number added is put into the cell, and the others are added to what it holds. -/
def sumFold : Fold .sum Int where
  embed := .int
  decode := Value.number?
  pick := (· + ·)
  weight := Int.natAbs
  assoc := ⟨Int.add_assoc⟩
  comm := ⟨Int.add_comm⟩
  decode_cell cell := by cases cell <;> rfl
  weight_pick := Int.natAbs_add_le
  counts := Builtin.noConfusion
  mergeable := rfl
  size := rfl
  result _ := rfl
  reset _ := rfl
  merge _ _ := rfl
  take := by
    intro s env st e held taken hweight hst he
    refine branch_cell (fun _ => rfl) he ?_ ?_
    · rintro rfl
      rw [Option.merge_none_right]
      exact hst
    · rintro n rfl
      refine assign_completes ?_
      rw [eval_choose (test_isNull (eval_slot hst))]
      cases held with
      | none => exact he
      | some m =>
        have hm : m.natAbs + n.natAbs < 0x8000000000000000 := hweight
        exact eval_add_words (eval_slot hst) he (by omega) (by omega) (by omega)

/-! ## Extremes -/

/-- What weighs nothing is never too much. -/
theorem sum_weightless {α : Type} (cells : List (Option α)) :
    (cells.map (cellWeight fun _ => 0)).sum < 0x8000000000000000 := by
  have hzero : (cells.map (cellWeight fun _ => 0)).sum = 0 := by
    refine List.sum_eq_zero fun n hn => ?_
    obtain ⟨cell, _, rfl⟩ := List.mem_map.mp hn
    cases cell <;> rfl
  rw [hzero]
  exact Nat.zero_lt_succ _


/-- Values that are compared as what they stand for. -/
structure Ranked (α : Type) [LinearOrder α] where
  embed : α → Value
  decode : Value → Option α
  decode_cell : ∀ cell, decode (cellValue embed cell) = cell
  notNull : ∀ x, (embed x).isNull = false
  order : ∀ x y, (embed x).order (embed y) = .ok (compare x y)

section

variable {α : Type} [LinearOrder α] (r : Ranked α)

theorem compare_not_null {l r : Value} (op : CompareOp) (hl : l.isNull = false)
    (hr : r.isNull = false) : op.apply l r = (l.order r).map fun o => .bool (op.holds o) := by
  unfold CompareOp.apply
  split
  · simp [Value.isNull] at hl
  · simp [Value.isNull] at hr
  · rfl

theorem Ranked.test_compare {env : Env} {st : Store} {e e' : Expr} {x y : α} (op : CompareOp)
    (he : e.eval env st = .ok (r.embed x)) (he' : e'.eval env st = .ok (r.embed y)) :
    (Expr.binary (.compare op) e e').test env st = .ok (some (op.holds (compare x y))) := by
  have happly : op.apply (r.embed x) (r.embed y) = .ok (.bool (op.holds (compare x y))) := by
    rw [compare_not_null op (r.notNull x) (r.notNull y), r.order]
    rfl
  simp only [Expr.test, Expr.eval, he, he', bind, Except.bind, happly, Value.truth]

/-- The code of an improvement picks the better one of the value held and the one taken in. -/
theorem Ranked.improve {better : CompareOp} {pick : α → α → α}
    (hpick : ∀ x y, pick x y = if better.holds (compare y x) then y else x)
    {s : Nat → SlotId} {env : Env} {st : Store} {e : Expr} {held taken : Option α}
    (hst : st.slots (s 0) = some (cellValue r.embed held))
    (he : e.eval env st = .ok (cellValue r.embed taken)) :
    Completes (Stmt.runAll env st (improveCode s better e))
      fun st' => st'.slots (s 0) = some (cellValue r.embed (Option.merge pick held taken)) := by
  refine branch_cell r.notNull he ?_ ?_
  · rintro rfl
    rw [Option.merge_none_right]
    exact hst
  · rintro y rfl
    have hslot : (Expr.slot (s 0)).eval env st = .ok (cellValue r.embed held) := eval_slot hst
    cases held with
    | none =>
      have hfirst : ((Expr.slot (s 0)).isNull.or (.binary (.compare better) e (.slot (s 0)))).test
          env st = .ok (some (true || true)) := test_or (test_isNull hslot) nofun
      exact branch_completes hfirst (fun _ => assign_completes he) nofun
    | some x =>
      have hbetter := test_or (test_isNull hslot) fun _ => r.test_compare better he hslot
      have hx : (cellValue r.embed (some x)).isNull = false := r.notNull x
      rw [hx, Bool.false_or] at hbetter
      rw [show Option.merge pick (some x) (some y) = some (pick x y) from rfl, hpick]
      refine branch_completes hbetter ?_ ?_
      · intro h
        rw [h]
        exact assign_completes he
      · intro h
        rw [h]
        exact hst

def minFold : Fold .min α where
  embed := r.embed
  decode := r.decode
  pick := Min.min
  weight _ := 0
  assoc := inferInstance
  comm := inferInstance
  decode_cell := r.decode_cell
  weight_pick _ _ := Nat.le_refl 0
  counts := Builtin.noConfusion
  mergeable := rfl
  size := rfl
  result _ := rfl
  reset _ := rfl
  merge _ _ := rfl
  take := by
    intro s env st e held taken _ hst he
    refine r.improve ?_ hst he
    intro x y
    have hlt : CompareOp.lt.holds (compare y x) = true ↔ y < x := by
      rw [← compare_lt_iff_lt, CompareOp.holds, Ordering.isLT_iff_eq_lt]
    by_cases h : y < x
    · rw [if_pos (hlt.mpr h), min_eq_right h.le]
    · rw [if_neg (hlt.not.mpr h), min_eq_left (not_lt.mp h)]

def maxFold : Fold .max α where
  embed := r.embed
  decode := r.decode
  pick := Max.max
  weight _ := 0
  assoc := inferInstance
  comm := inferInstance
  decode_cell := r.decode_cell
  weight_pick _ _ := Nat.le_refl 0
  counts := Builtin.noConfusion
  mergeable := rfl
  size := rfl
  result _ := rfl
  reset _ := rfl
  merge _ _ := rfl
  take := by
    intro s env st e held taken _ hst he
    refine r.improve ?_ hst he
    intro x y
    have hgt : CompareOp.gt.holds (compare y x) = true ↔ x < y := by
      rw [← compare_gt_iff_gt, CompareOp.holds, Ordering.isGT_iff_eq_gt]
    by_cases h : x < y
    · rw [if_pos (hgt.mpr h), max_eq_right h.le]
    · rw [if_neg (hgt.not.mpr h), max_eq_left (not_lt.mp h)]

end

/-- A whole number of 64 bits. -/
abbrev Word : Type := { n : Int // IsWord n }

def Word.value (n : Word) : Value := .int n

def wordsRanked : Ranked Word where
  embed := Word.value
  decode
    | .int n => if h : IsWord n then some ⟨n, h⟩ else none
    | _ => none
  decode_cell cell := by
    cases cell with
    | none => rfl
    | some x => exact dif_pos x.property
  notNull _ := rfl
  order := by
    intro x y
    simp only [Word.value, Value.order, Value.word?, if_pos x.property, if_pos y.property]
    rfl

def stringsRanked : Ranked String where
  embed := .string
  decode
    | .string x => some x
    | _ => none
  decode_cell cell := by cases cell <;> rfl
  notNull _ := rfl
  order _ _ := rfl

end Builtin
end WindowFold
