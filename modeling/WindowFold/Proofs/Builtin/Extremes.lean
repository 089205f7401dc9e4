import WindowFold.Proofs.Builtin.Merged
import WindowFold.Proofs.Text.Bytes

/-!
# The least and the greatest of values

Fed whole numbers, strings or truth values, with NULLs among them, `min` and `max` give one that is
at an end of all of them in the order in which values are compared, or NULL where there is nothing
else (`extremum_of_values`).  It depends neither on the order in which the values come nor on the
NULLs.

What is picked of two cells is one of them, and stands before both (`Fold.Chooses`).  That is all
that is used of the two functions.
-/

namespace WindowFold

/-- The order of values of one kind: numbers by size, strings by their bytes, and false before
true. -/
def Value.AtMost : Value → Value → Prop
  | .bool a, .bool b => a ≤ b
  | .int m, .int n => m ≤ n
  | .string s, .string t => bytes s ≤ bytes t
  | _, _ => False

/-- The values that are not NULL. -/
def present (values : List Value) : List Value := values.filter fun v => !v.isNull

theorem mem_present {values : List Value} {v : Value} :
    v ∈ present values ↔ v ∈ values ∧ v ≠ .null := by
  rw [present, List.mem_filter, Bool.not_eq_true', ← Bool.not_eq_true, Value.isNull_iff]

theorem gather_eq_none {α : Type} {pick : α → α → α} [Std.Associative pick]
    {cells : List (Option α)} : gather pick cells = none ↔ ∀ cell ∈ cells, cell = none := by
  induction cells with
  | nil => exact ⟨nofun, fun _ => rfl⟩
  | cons cell rest ih =>
    rw [gather_cons, List.forall_mem_cons, ← ih]
    cases cell <;> cases gather pick rest <;> simp [Option.merge]

namespace Builtin

open Workspace Move

variable {b : Builtin} {rel : Value → Value → Prop}

/-! ## Picking one -/

section

variable {α : Type}

/-- One of two is picked, which stands before both, and it takes no room. -/
structure Fold.Chooses (f : Fold b α) (rel : Value → Value → Prop) : Prop where
  notNull : ∀ x, (f.embed x).isNull = false
  weightless : f.weight = fun _ => 0
  one : ∀ x y, f.pick x y = x ∨ f.pick x y = y
  left : ∀ x y, rel (f.embed (f.pick x y)) (f.embed x)
  right : ∀ x y, rel (f.embed (f.pick x y)) (f.embed y)
  trans : ∀ x y z, rel (f.embed x) (f.embed y) → rel (f.embed y) (f.embed z) →
    rel (f.embed x) (f.embed z)

variable {f : Fold b α}

/-- What is picked of all the cells is in one of them, and stands before what is in any. -/
theorem Fold.Chooses.gather (h : f.Chooses rel) {cells : List (Option α)} {m : α}
    (hm : gather f.pick cells = some m) :
    some m ∈ cells ∧ ∀ x, some x ∈ cells → rel (f.embed m) (f.embed x) := by
  have := f.assoc
  induction cells generalizing m with
  | nil => simp [WindowFold.gather] at hm
  | cons cell rest ih =>
    rw [gather_cons] at hm
    cases cell with
    | none =>
      rw [Option.merge_none_left] at hm
      obtain ⟨hmem, hbound⟩ := ih hm
      refine ⟨List.mem_cons_of_mem _ hmem, fun x hx => hbound x ?_⟩
      exact (List.mem_cons.mp hx).resolve_left (Option.some_ne_none x)
    | some y =>
      cases hrest : WindowFold.gather f.pick rest with
      | none =>
        rw [hrest, Option.merge_none_right] at hm
        obtain rfl := Option.some.inj hm
        refine ⟨List.mem_cons_self, fun x hx => ?_⟩
        rcases List.mem_cons.mp hx with hx | hx
        · obtain rfl := Option.some.inj hx
          have hself := h.left x x
          rwa [(h.one x x).elim id id] at hself
        · exact absurd (gather_eq_none.mp hrest _ hx) (Option.some_ne_none x)
      | some z =>
        obtain ⟨hmem, hbound⟩ := ih hrest
        rw [hrest] at hm
        obtain rfl : f.pick y z = m := Option.some.inj hm
        constructor
        · rcases h.one y z with hy | hz
          · rw [hy]
            exact List.mem_cons_self
          · rw [hz]
            exact List.mem_cons_of_mem _ hmem
        · intro x hx
          rcases List.mem_cons.mp hx with hx | hx
          · obtain rfl := Option.some.inj hx
            exact h.left x z
          · exact h.trans _ _ _ (h.right y z) (hbound x hx)

/-- Every value is that of a cell. -/
def Fold.Knows (f : Fold b α) (values : List Value) : Prop :=
  ∀ v ∈ values, cellValue f.embed (f.decode v) = v

/-- What the cells of values come to. -/
def Fold.pickOf (f : Fold b α) (values : List Value) : Value :=
  cellValue f.embed (WindowFold.gather f.pick (values.map f.decode))

/-- NULLs are passed over. -/
theorem Fold.pickOf_present (f : Fold b α) (values : List Value) :
    f.pickOf (present values) = f.pickOf values := by
  have := f.assoc
  have hcells : WindowFold.gather f.pick ((present values).map f.decode) =
      WindowFold.gather f.pick (values.map f.decode) := by
    induction values with
    | nil => rfl
    | cons v rest ih =>
      rw [present, List.filter_cons, ← present]
      by_cases hv : v.isNull = true
      · have hnone : f.decode v = none := by
          rw [Value.isNull_iff.mp hv]
          exact f.decode_cell none
        rw [hv, Bool.not_true, if_neg Bool.false_ne_true, ih, List.map_cons, gather_cons, hnone,
          Option.merge_none_left]
      · rw [Bool.not_eq_true] at hv
        rw [hv, Bool.not_false, if_pos rfl, List.map_cons, List.map_cons, gather_cons, gather_cons,
          ih]
  rw [pickOf, hcells, pickOf]

theorem Fold.pickOf_of_perm (f : Fold b α) {vs ws : List Value}
    (h : (present vs).Perm (present ws)) : f.pickOf vs = f.pickOf ws := by
  have := f.assoc
  have := f.comm
  rw [← f.pickOf_present vs, ← f.pickOf_present ws, pickOf, pickOf, gather_perm (h.map f.decode)]

theorem Fold.Knows.of_present {vs ws : List Value} (h : f.Knows ws)
    (hsub : present vs ⊆ present ws) : f.Knows vs := by
  intro v hv
  by_cases hnull : v = .null
  · subst hnull
    rw [show f.decode .null = none from f.decode_cell none]
    rfl
  · exact h v (mem_present.mp (hsub (mem_present.mpr ⟨hv, hnull⟩))).1

/-- What is picked of values is NULL where there is nothing else, and else one of the values that
stands before all of them. -/
theorem Fold.Chooses.pickOf (h : f.Chooses rel) {values : List Value} (hvalues : f.Knows values) :
    (f.pickOf values = .null ↔ ∀ v ∈ values, v = .null) ∧
      (f.pickOf values ≠ .null → f.pickOf values ∈ values ∧
        ∀ v ∈ values, v ≠ .null → rel (f.pickOf values) v) := by
  have := f.assoc
  have hempty : ∀ {v}, v ∈ values → f.decode v = none → v = .null := by
    intro v hv hnone
    rw [← hvalues v hv, hnone]
    rfl
  rw [Fold.pickOf]
  cases hm : WindowFold.gather f.pick (values.map f.decode) with
  | none =>
    have hnone := gather_eq_none.mp hm
    refine ⟨⟨fun _ v hv => hempty hv (hnone _ (List.mem_map_of_mem hv)), fun _ => rfl⟩, ?_⟩
    exact fun hne => absurd rfl hne
  | some m =>
    have hne : cellValue f.embed (some m) ≠ .null := by
      intro hnull
      have hflag := h.notNull m
      rw [show f.embed m = .null from hnull] at hflag
      exact Bool.noConfusion hflag
    obtain ⟨hmem, hbound⟩ := h.gather hm
    obtain ⟨v, hv, hdecode⟩ := List.mem_map.mp hmem
    have hvalue : cellValue f.embed (some m) = v := by
      rw [← hdecode, hvalues v hv]
    refine ⟨⟨fun hnull => absurd hnull hne, fun hall => ?_⟩, fun _ => ⟨hvalue ▸ hv, ?_⟩⟩
    · rw [hvalue]
      exact hall v hv
    · intro w hw hwnull
      cases hcell : f.decode w with
      | none => exact absurd (hempty hw hcell) hwnull
      | some x =>
        have hx := hbound x (hcell ▸ List.mem_map_of_mem hw)
        rwa [show f.embed x = w by rw [← hvalues w hw, hcell]; rfl] at hx

/-- A call that is reset and fed the values has what is picked of them as its result. -/
theorem Fold.Chooses.runs (h : f.Chooses rel) {sig : Signature} (hn : b.Admits sig.arity)
    (hone : sig.arity = 1) (config : Config) (env : Env) (st : Store)
    {items : List (Expr × Value)}
    (hitems : ∀ x ∈ items, x.1.slots = [] ∧ ∀ st, x.1.eval env st = .ok x.2)
    (hvalues : f.Knows (items.map Prod.snd)) :
    ∃ es w e, (start config).record (b.regular sig (items.map fun x => [x.1])) = .ok (es, w) ∧
      answer? es = some e ∧ Completes (Stmt.runAll env st w.pass.draft.stmts)
        fun st' => e.eval env st' = .ok (f.pickOf (items.map Prod.snd)) := by
  let fed : List (List Expr × List Value) := items.map fun x => ([x.1], [x.2])
  have hinputs : (((single fed).flatMap added).map Prod.snd).flatten = items.map Prod.snd := by
    rw [single_added, List.map_map]
    exact List.map_eq_flatMap.symm
  have hfeeds : ∀ u args values, .add u args values ∈ single fed →
      Feeds env sig.arity args values := by
    intro u args values hadd
    have hmem : (args, values) ∈ (single fed).flatMap added :=
      List.mem_flatMap.mpr ⟨_, hadd, List.mem_singleton_self _⟩
    rw [single_added] at hmem
    obtain ⟨x, hx, heq⟩ := List.mem_map.mp hmem
    obtain ⟨rfl, rfl⟩ := Prod.mk.inj heq
    obtain ⟨hslots, heval⟩ := hitems x hx
    refine ⟨hone.symm, fun e he => ?_, fun st => .cons (heval st) .nil⟩
    rw [List.mem_singleton.mp he, hslots]
  have hfine : f.Fine (((single fed).flatMap added).map Prod.snd) := by
    refine ⟨fun v hv => hvalues v (hinputs ▸ hv), ?_⟩
    rw [Fold.load, h.weightless]
    exact sum_weightless _
  obtain ⟨es, w, e, hrecord, he, hrun⟩ := merged_total f.merging hn config
    (single_mergesInto fed) env hfeeds hfine st
  rw [single_instructions, List.map_map] at hrecord
  refine ⟨es, w, e, hrecord, he, hrun.mono fun st' heval => ?_⟩
  rw [heval]
  show Except.ok (cellValue f.embed (WindowFold.gather f.pick (f.cells _))) = _
  rw [Fold.cells, hinputs]
  rfl

end

/-! ## The two functions -/

/-- The two functions, and how what they pick stands to the values. -/
inductive Extreme : Builtin → (Value → Value → Prop) → Prop
  | min : Extreme .min Value.AtMost
  | max : Extreme .max fun m v => v.AtMost m

section

variable {α : Type} [LinearOrder α]

/-- The order of what values stand for is the order of the values. -/
def Ranked.Faithful (r : Ranked α) : Prop := ∀ x y, (r.embed x).AtMost (r.embed y) ↔ x ≤ y

theorem Ranked.Faithful.chooses {r : Ranked α} (h : r.Faithful) (hb : Extreme b rel) :
    ∃ f : Fold b α, f.Chooses rel ∧ f.embed = r.embed ∧ f.decode = r.decode := by
  cases hb with
  | min =>
    refine ⟨minFold r, ?_, rfl, rfl⟩
    exact {
      notNull := r.notNull
      weightless := rfl
      one := min_choice
      left := fun x y => (h _ _).mpr (min_le_left x y)
      right := fun x y => (h _ _).mpr (min_le_right x y)
      trans := fun x y z hxy hyz => (h x z).mpr (((h x y).mp hxy).trans ((h y z).mp hyz)) }
  | max =>
    refine ⟨maxFold r, ?_, rfl, rfl⟩
    exact {
      notNull := r.notNull
      weightless := rfl
      one := max_choice
      left := fun x y => (h _ _).mpr (le_max_left x y)
      right := fun x y => (h _ _).mpr (le_max_right x y)
      trans := fun x y z hxy hyz => (h z x).mpr (((h z y).mp hyz).trans ((h y x).mp hxy)) }

theorem Ranked.Faithful.compare {r : Ranked α} (h : r.Faithful) (x y : α) :
    CompareOp.le.apply (r.embed x) (r.embed y) = .ok (.bool true) ↔
      (r.embed x).AtMost (r.embed y) := by
  have hle : CompareOp.le.holds (Ord.compare x y) = true ↔ x ≤ y :=
    Ordering.isLE_iff_ne_gt.trans compare_le_iff_le
  rw [compare_not_null .le (r.notNull x) (r.notNull y), r.order, h, ← hle, Except.map,
    Except.ok.injEq, Value.bool.injEq]

end

def boolsRanked : Ranked Bool where
  embed := .bool
  decode
    | .bool b => some b
    | _ => none
  decode_cell cell := by cases cell <;> rfl
  notNull _ := rfl
  order x y := by cases x <;> cases y <;> rfl

/-- All values that are not NULL are whole numbers of 64 bits, or all strings, or all truth
values. -/
inductive OfOneKind (values : List Value) : Prop
  | words (h : ∀ v ∈ values, v = .null ∨ ∃ n, v = .int n ∧ IsWord n)
  | strings (h : ∀ v ∈ values, v = .null ∨ ∃ s, v = .string s)
  | bools (h : ∀ v ∈ values, v = .null ∨ ∃ b, v = .bool b)

theorem OfOneKind.ranked {values : List Value} (h : OfOneKind values) :
    ∃ (α : Type) (_ : LinearOrder α) (r : Ranked α), r.Faithful ∧
      ∀ v ∈ values, cellValue r.embed (r.decode v) = v := by
  cases h with
  | words h =>
    refine ⟨Word, inferInstance, wordsRanked, fun _ _ => Iff.rfl, fun v hv => ?_⟩
    rcases h v hv with rfl | ⟨n, rfl, hn⟩
    · rfl
    · rw [show wordsRanked.decode (.int n) = some ⟨n, hn⟩ from dif_pos hn]
      rfl
  | strings h =>
    refine ⟨String, inferInstance, stringsRanked, fun _ _ => le_iff_bytes_le.symm, fun v hv => ?_⟩
    rcases h v hv with rfl | ⟨s, rfl⟩ <;> rfl
  | bools h =>
    refine ⟨Bool, inferInstance, boolsRanked, fun _ _ => Iff.rfl, fun v hv => ?_⟩
    rcases h v hv with rfl | ⟨b, rfl⟩ <;> rfl

/-- `min` and `max` of values of one kind.  The result is NULL where all values are, and else one of
them that is at most, or at least, every value that is not NULL; and a call that is fed the values
in any order, with any NULLs among them, runs to its end and gives that result. -/
theorem extremum_of_values (hb : Extreme b rel) {types : List DataType} {returns : DataType}
    {nullable : Bool} (htyping : b.aggregate.typing types = .ok (returns, nullable))
    (distinct : Bool) {values : List Value} (hkind : OfOneKind values) :
    let sig := Signature.of b.aggregate.name types returns nullable distinct
    (∀ v ∈ present values, ∀ w ∈ present values,
      CompareOp.le.apply v w = .ok (.bool true) ↔ v.AtMost w) ∧
    ∃ m, (m = .null ↔ ∀ v ∈ values, v = .null) ∧
      (m ≠ .null → m ∈ values ∧ ∀ v ∈ values, v ≠ .null → rel m v) ∧
      ∀ (config : Config) (env : Env) (st : Store) (items : List (Expr × Value)),
        (∀ x ∈ items, x.1.slots = [] ∧ ∀ st, x.1.eval env st = .ok x.2) →
        (present (items.map Prod.snd)).Perm (present values) →
        ∃ es w e, (start config).record (b.regular sig (items.map fun x => [x.1])) = .ok (es, w) ∧
          answer? es = some e ∧
          Completes (Stmt.runAll env st w.pass.draft.stmts) fun st' => e.eval env st' = .ok m := by
  intro sig
  obtain ⟨α, order, r, hr, hvalues⟩ := hkind.ranked
  obtain ⟨f, hf, hembed, hdecode⟩ := hr.chooses hb
  have hknows : f.Knows values := by
    intro v hv
    rw [hembed, hdecode]
    exact hvalues v hv
  have hn : b.Admits sig.arity := admits_of_typing htyping
  have hone : sig.arity = 1 := by cases hb <;> exact hn
  have hcell : ∀ v ∈ present values, ∃ x, v = r.embed x := by
    intro v hv
    obtain ⟨hv, hnull⟩ := mem_present.mp hv
    have hv := hvalues v hv
    cases hx : r.decode v with
    | none =>
      rw [hx] at hv
      exact absurd hv.symm hnull
    | some x =>
      rw [hx] at hv
      exact ⟨x, hv.symm⟩
  refine ⟨?_, f.pickOf values, (hf.pickOf hknows).1, (hf.pickOf hknows).2, ?_⟩
  · intro v hv w hw
    obtain ⟨x, rfl⟩ := hcell v hv
    obtain ⟨y, rfl⟩ := hcell w hw
    exact hr.compare x y
  · intro config env st items hitems hperm
    rw [← f.pickOf_of_perm hperm]
    exact hf.runs hn hone config env st hitems (hknows.of_present hperm.subset)

/-- Strings with NULLs among them. -/
def someStrings : List (Expr × Value) :=
  [(.literal .null, .null), (.literal (.string "aé"), .string "aé"),
    (.literal (.string "b"), .string "b"), (.literal .null, .null),
    (.literal (.string "az"), .string "az")]

/-- The least of the three strings is what it is in another order and without NULLs. -/
theorem least_of_strings : ∃ es w e,
    (start (.strict "agg")).record (min.regular (.of "min" [.string] .string true false)
      (someStrings.map fun x => [x.1])) = .ok (es, w) ∧
    answer? es = some e ∧ Completes (Stmt.runAll ⟨[], none⟩ .fresh w.pass.draft.stmts)
      fun st => e.eval ⟨[], none⟩ st = .ok (.string "az") := by
  let values : List Value := [.string "az", .string "b", .string "aé"]
  have hkind : OfOneKind values := by
    refine .strings fun v hv => .inr ?_
    simp only [values, List.mem_cons, List.not_mem_nil, or_false] at hv
    rcases hv with rfl | rfl | rfl <;> exact ⟨_, rfl⟩
  have htyping : min.aggregate.typing [.string] = .ok (.string, true) := rfl
  obtain ⟨_, m, hnull, hleast, hrun⟩ := extremum_of_values .min htyping false hkind
  have hne : m ≠ .null := by
    intro h
    exact Value.noConfusion (hnull.mp h _ List.mem_cons_self)
  obtain ⟨hmem, hbound⟩ := hleast hne
  have haz : m.AtMost (.string "az") := hbound _ List.mem_cons_self nofun
  obtain rfl : m = .string "az" := by
    simp only [values, List.mem_cons, List.not_mem_nil, or_false] at hmem
    rcases hmem with rfl | rfl | rfl
    · rfl
    · have hb : ¬bytes "b" ≤ bytes "az" := by decide
      exact absurd haz hb
    · have he : ¬bytes "aé" ≤ bytes "az" := by decide
      exact absurd haz he
  have hitems : ∀ x ∈ someStrings, x.1.slots = [] ∧ ∀ st, x.1.eval ⟨[], none⟩ st = .ok x.2 := by
    intro x hx
    simp only [someStrings, List.mem_cons, List.not_mem_nil, or_false] at hx
    rcases hx with rfl | rfl | rfl | rfl | rfl <;> exact ⟨rfl, fun _ => rfl⟩
  have hperm : (present (someStrings.map Prod.snd)).Perm (present values) := by
    show values.reverse.Perm values
    exact List.reverse_perm values
  exact hrun _ _ _ someStrings hitems hperm

end Builtin
end WindowFold
