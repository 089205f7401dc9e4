import WindowFold.Proofs.Builtin.Phases
import WindowFold.Proofs.Machine.Conforming
import WindowFold.Proofs.Machine.Reached

/-!
# The code of the builtin functions keeps to its types

Resolving a call gives types to its result and to its slots (`Builtin.Types`).  A reset leaves
values of these types in the slots, from whatever store it starts, and every other phase keeps
them there at every point of its run, as long as the arguments are of the types that were
resolved.  What is returned then evaluates to a value of the type of the result.
-/

namespace WindowFold

/-- The slots `s 0`, `s 1`, … hold values of these types. -/
def Store.Typed (st : Store) (s : Nat → SlotId) (types : List DataType) : Prop :=
  ∀ i T, types[i]? = some T → ∃ v, st.slots (s i) = some v ∧ v.Conforms T

/-- The values of every row of the partition are of these types. -/
def Env.Columns (env : Env) (types : List DataType) : Prop :=
  ∀ row ∈ env.rows, ∀ (i : Nat) v T, row[i]? = some v → types[i]? = some T → v.Conforms T

/-- Symbolic, or without rows, or of numbers. -/
def Frame.Plain (f : Frame) : Prop :=
  f = .symbolic ∨ f = .empty ∨ ∃ c first last n, IsWord c ∧ f = .constant c first last n

section

variable {env : Env} {st : Store} {s : Nat → SlotId} {types : List DataType} {T U : DataType}
  {v w : Value} {i : Nat}

theorem typed_nil : st.Typed s [] := fun i T hT => by simp at hT

theorem typed_singleton (hv : st.slots (s 0) = some v) (hconforms : v.Conforms T) :
    st.Typed s [T] := by
  intro i U hU
  obtain ⟨rfl, rfl⟩ : i = 0 ∧ T = U := by simpa [List.getElem?_singleton] using hU
  exact ⟨v, hv, hconforms⟩

theorem typed_pair (hv : st.slots (s 0) = some v) (hvT : v.Conforms T)
    (hw : st.slots (s 1) = some w) (hwU : w.Conforms U) : st.Typed s [T, U] := by
  intro i V hV
  match i with
  | 0 => exact ⟨v, hv, Option.some.inj hV ▸ hvT⟩
  | 1 => exact ⟨w, hw, Option.some.inj hV ▸ hwU⟩
  | i + 2 => simp at hV

namespace Store.Typed

theorem slot (h : st.Typed s types) (hT : types[i]? = some T) :
    (Expr.slot (s i)).HasType env st T := by
  obtain ⟨v, hv, hconforms⟩ := h i T hT
  exact .slot hv hconforms

theorem setSlot (h : st.Typed s types) (hs : s.Injective) (hT : types[i]? = some T)
    (hv : v.Conforms T) : (st.setSlot (s i) v).Typed s types := by
  intro j U hU
  rw [setSlot_slots]
  by_cases hji : j = i
  · obtain rfl : T = U := Option.some.inj (hT.symm.trans (hji ▸ hU))
    exact ⟨v, by rw [if_pos (congrArg s hji)], hv⟩
  · rw [if_neg (hs.ne hji)]
    exact h j U hU

/-- An assignment of a value of the type of the slot. -/
theorem assign (h : st.Typed s types) (hs : s.Injective) (hT : types[i]? = some T) {e : Expr}
    (he : e.HasType env st T) {rest : List Stmt}
    (hrest : ∀ st', st'.Typed s types → Throughout env st' rest (·.Typed s types)) :
    Throughout env st (.assign (s i) e :: rest) (·.Typed s types) :=
  throughout_assign h fun v hv => hrest _ (h.setSlot hs hT (he v hv))

theorem stay (st : Store) (h : st.Typed s types) : Throughout env st [] (·.Typed s types) :=
  throughout_nil h

end Store.Typed

theorem argument_hasType (h : env.Columns types) (hT : types[i]? = some T) (row : Expr) :
    (Expr.argument i row).HasType env st T := by
  intro v hv
  simp only [Expr.eval, bind, Except.bind, Env.argument, Env.row] at hv
  split at hv
  · simp at hv
  · rename_i position _
    split at hv
    · simp at hv
    · rename_i values hvalues
      have hrow : values ∈ env.rows := by
        split at hvalues
        · split at hvalues
          · rename_i r hr
            obtain rfl := Except.ok.inj hvalues
            exact List.mem_of_getElem? hr
          · simp at hvalues
        · simp at hvalues
      split at hv
      · rename_i x hx
        obtain rfl := Except.ok.inj hv
        exact h values hrow i x T hx hT
      · simp at hv

theorem Frame.Plain.currentRow_hasType {f : Frame} (h : f.Plain)
    (hframe : ∀ facts ∈ env.frame, ∀ c ∈ facts.currentRow, IsWord c) :
    f.currentRow.HasType env st .int := by
  rcases h with rfl | rfl | ⟨c, first, last, n, hc, rfl⟩
  · intro v hv
    simp only [symbolic, Expr.eval, Env.fact] at hv
    split at hv
    · rename_i facts hfacts
      obtain rfl := Except.ok.inj hv
      rw [FrameFacts.value]
      cases hcurrent : facts.currentRow with
      | none => exact .inl rfl
      | some c => exact Value.conforms_word (hframe facts hfacts c hcurrent)
    · simp at hv
  · exact .null
  · exact .of_eval rfl (Value.conforms_word hc)

end

namespace Builtin

/-- What a call is resolved to: the types of its arguments, of its result and of its slots. -/
inductive Types : Builtin → List DataType → DataType → List DataType → Prop
  | count {args} : Types .count args .int [.int]
  | sumInt : Types .sum [.int] .int [.int]
  | sumFloat : Types .sum [.float] .float [.float]
  | avg {T} : Types .avg [T] .float [.float, .int]
  | min {T} : Types .min [T] T [T]
  | max {T} : Types .max [T] T [T]
  | arrayAgg {T} : Types .arrayAgg [T] .array [.array]
  | firstValue {T} : Types .firstValue [T] T [T, .bool]
  | lastValue {T} : Types .lastValue [T] T [T, .bool]
  | lag {T rest} : Types .lag (T :: rest) T []
  | lead {T rest} : Types .lead (T :: rest) T []
  | rowNumber : Types .rowNumber [] .int []

theorem types_of_typing {b : Builtin} {args : List DataType} {nullable : Bool} {sig : Signature}
    (h : b.aggregate.typing args = .ok (sig.returns, nullable)) :
    b.Types args sig.returns (b.aggregate.layout sig) := by
  cases b with
  | count =>
    simp only [aggregate, Aggregate.count] at h
    split at h
    · simp only [Except.ok.injEq, Prod.mk.injEq] at h
      rw [← h.1]
      exact .count
    · simp at h
  | sum =>
    obtain ⟨T, rfl⟩ := List.length_eq_one_iff.mp (soleType_bind_ok h)
    simp only [aggregate, Aggregate.sum, soleType, bind, Except.bind] at h ⊢
    cases T with
    | int =>
      simp only [Except.ok.injEq, Prod.mk.injEq] at h
      rw [← h.1]
      exact .sumInt
    | float =>
      simp only [Except.ok.injEq, Prod.mk.injEq] at h
      rw [← h.1]
      exact .sumFloat
    | null | bool | string | array | any => simp at h
  | avg =>
    obtain ⟨T, rfl⟩ := List.length_eq_one_iff.mp (soleType_bind_ok h)
    have hfloat : DataType.float = sig.returns := by
      cases T <;> simp_all [aggregate, Aggregate.avg, soleType, bind, Except.bind]
    rw [← hfloat]
    exact .avg
  | min =>
    obtain ⟨T, rfl⟩ := List.length_eq_one_iff.mp (soleType_bind_ok h)
    have hT : T = sig.returns := by
      cases T <;> simp_all [aggregate, Aggregate.min, Aggregate.extremum, soleType, bind, Except.bind]
    rw [hT]
    exact .min
  | max =>
    obtain ⟨T, rfl⟩ := List.length_eq_one_iff.mp (soleType_bind_ok h)
    have hT : T = sig.returns := by
      cases T <;> simp_all [aggregate, Aggregate.max, Aggregate.extremum, soleType, bind, Except.bind]
    rw [hT]
    exact .max
  | arrayAgg =>
    obtain ⟨T, rfl⟩ := List.length_eq_one_iff.mp (soleType_bind_ok h)
    simp only [aggregate, Aggregate.arrayAgg, soleType, bind, Except.bind, Except.ok.injEq,
      Prod.mk.injEq] at h
    rw [← h.1]
    exact .arrayAgg
  | firstValue =>
    obtain ⟨T, rfl⟩ := List.length_eq_one_iff.mp (soleType_bind_ok h)
    obtain rfl : T = sig.returns := congrArg Prod.fst (Except.ok.inj h)
    exact .firstValue
  | lastValue =>
    obtain ⟨T, rfl⟩ := List.length_eq_one_iff.mp (soleType_bind_ok h)
    obtain rfl : T = sig.returns := congrArg Prod.fst (Except.ok.inj h)
    exact .lastValue
  | lag =>
    simp only [aggregate, Aggregate.lag, Aggregate.shifted, Aggregate.placed] at h
    split at h
    · obtain rfl := congrArg Prod.fst (Except.ok.inj h)
      exact .lag
    · obtain rfl := congrArg Prod.fst (Except.ok.inj h)
      exact .lag
    · simp at h
  | lead =>
    simp only [aggregate, Aggregate.lead, Aggregate.shifted, Aggregate.placed] at h
    split at h
    · obtain rfl := congrArg Prod.fst (Except.ok.inj h)
      exact .lead
    · obtain rfl := congrArg Prod.fst (Except.ok.inj h)
      exact .lead
    · simp at h
  | rowNumber =>
    simp only [aggregate, Aggregate.rowNumber, Aggregate.placed] at h
    split at h
    · rename_i hnil
      obtain rfl := List.isEmpty_iff.mp hnil
      simp only [Except.ok.injEq, Prod.mk.injEq] at h
      rw [← h.1]
      exact .rowNumber
    · simp at h

variable {b : Builtin} {s : Nat → SlotId} {args : List DataType} {returns : DataType}
  {state : List DataType} {env : Env} {st : Store}

/-! ## Resets -/

/-- After a reset the slots hold values of their types, whatever they held before. -/
theorem Types.resetCode_typed (h : b.Types args returns state) (hs : s.Injective) (env : Env)
    (st : Store) :
    ∃ st', Stmt.runAll env st (b.resetCode s) = (st', .ok ()) ∧ st'.Typed s state := by
  have first (v w : Value) : ((st.setSlot (s 0) v).setSlot (s 1) w).slots (s 0) = some v := by
    rw [Store.setSlot_slots, if_neg (hs.ne (by decide)), Store.setSlot_slots, if_pos rfl]
  have last {st : Store} {x : SlotId} (v : Value) : (st.setSlot x v).slots x = some v := if_pos rfl
  cases h with
  | count => exact ⟨_, rfl, typed_singleton (last _) (Value.conforms_word (by decide))⟩
  | sumInt | sumFloat | min | max =>
    exact ⟨_, rfl, typed_singleton (last _) (Value.conforms_null _)⟩
  | arrayAgg => exact ⟨_, rfl, typed_singleton (last _) (Value.conforms_array [])⟩
  | avg =>
    exact ⟨_, rfl, typed_pair (first _ _) (Value.conforms_ofFloat _) (last _)
      (Value.conforms_word (by decide))⟩
  | firstValue | lastValue =>
    exact ⟨_, rfl, typed_pair (first _ _) (Value.conforms_null _) (last _)
      (Value.conforms_bool false)⟩
  | lag | lead | rowNumber => exact ⟨_, rfl, typed_nil⟩

theorem Types.resetCode_keeps (h : b.Types args returns state) (hs : s.Injective)
    (hst : st.Typed s state) : Throughout env st (b.resetCode s) (·.Typed s state) := by
  cases h with
  | count => exact hst.assign hs rfl (.of_eval rfl (Value.conforms_word (by decide))) .stay
  | sumInt | sumFloat | min | max => exact hst.assign hs rfl .null .stay
  | arrayAgg => exact hst.assign hs rfl (.of_eval rfl (Value.conforms_array [])) .stay
  | avg =>
    refine hst.assign hs rfl (.of_eval rfl (Value.conforms_ofFloat _)) fun st' hst' => ?_
    exact hst'.assign hs rfl (.of_eval rfl (Value.conforms_word (by decide))) .stay
  | firstValue | lastValue =>
    refine hst.assign hs rfl .null fun st' hst' => ?_
    exact hst'.assign hs rfl (.of_eval rfl (Value.conforms_bool false)) .stay
  | lag | lead | rowNumber => exact throughout_nil hst

theorem openCode_of_ne (hb : b ≠ .arrayAgg) (o : Opening) : b.openCode s o = b.resetCode s := by
  cases b <;> first | rfl | exact absurd rfl hb

theorem Types.openCode_keeps (h : b.Types args returns state) (hs : s.Injective)
    (hst : st.Typed s state) (o : Opening) :
    Throughout env st (b.openCode s o) (·.Typed s state) := by
  by_cases hb : b = .arrayAgg
  · subst hb
    cases h
    refine hst.assign hs rfl (.of_eval rfl (Value.conforms_array [])) fun st' hst' => ?_
    exact throughout_reserve (throughout_nil hst')
  · rw [openCode_of_ne hb]
    exact h.resetCode_keeps hs hst

theorem Types.resets_keeps {ss : List Stmt} (h : b.Types args returns state) (hs : s.Injective)
    (hst : st.Typed s state) (hss : b.Resets s ss) :
    Throughout env st ss (·.Typed s state) := by
  rcases hss with rfl | ⟨o, rfl⟩
  · exact h.resetCode_keeps hs hst
  · exact h.openCode_keeps hs hst o

/-! ## Adds and merges -/

theorem one_hasType : (Expr.int 1).HasType env st .int :=
  .of_eval rfl (Value.conforms_word (by decide))

theorem true_hasType : (Expr.bool true).HasType env st .bool :=
  .of_eval rfl (Value.conforms_bool true)

theorem Types.addValueCode_keeps {T : DataType} {rest : List DataType} {v : Expr}
    (h : b.Types (T :: rest) returns state) (hs : s.Injective) (hst : st.Typed s state)
    (hv : v.HasType env st T) : Throughout env st (b.addValueCode s v) (·.Typed s state) := by
  have guarded {c : Expr} {ss : List Stmt} (hss : Throughout env st ss (·.Typed s state)) :
      Throughout env st [.branch c ss []] (·.Typed s state) :=
    throughout_branch hss (throughout_nil hst)
  cases h with
  | count => exact guarded (hst.assign hs rfl ((hst.slot rfl).add one_hasType) .stay)
  | sumInt => exact guarded (hst.assign hs rfl (.choose _ hv ((hst.slot rfl).add hv)) .stay)
  | sumFloat =>
    exact guarded (hst.assign hs rfl (.choose _ hv (.arith_float .add (hst.slot rfl) v)) .stay)
  | avg =>
    refine guarded (hst.assign hs rfl (.arith_float .add (hst.slot rfl) v) fun st' hst' => ?_)
    exact hst'.assign hs rfl ((hst'.slot rfl).add one_hasType) .stay
  | min | max => exact guarded (guarded (hst.assign hs rfl hv .stay))
  | arrayAgg =>
    exact throughout_push hst fun items =>
      throughout_nil (hst.setSlot hs rfl (Value.conforms_array items))
  | firstValue =>
    exact guarded (hst.assign hs rfl hv fun st' hst' => hst'.assign hs rfl true_hasType .stay)
  | lastValue => exact hst.assign hs rfl hv fun st' hst' => hst'.assign hs rfl true_hasType .stay
  | lag | lead => exact throughout_nil hst

/-- Expressions one for each type, whose values conform. -/
def HaveTypes (env : Env) (st : Store) (es : List Expr) (types : List DataType) : Prop :=
  List.Forall₂ (fun e T => e.HasType env st T) es types

theorem columnsAt_haveTypes {types : List DataType} (h : env.Columns types) (row : Expr) :
    HaveTypes env st (columnsAt types.length row) types := by
  refine List.forall₂_iff_get.mpr ⟨by simp [columnsAt], ?_⟩
  intro i hi hT
  simp only [columnsAt, List.get_eq_getElem, List.getElem_map, List.getElem_range]
  exact argument_hasType h (List.getElem?_eq_getElem hT) row

theorem Types.addCode_keeps {vs : List Expr} (h : b.Types args returns state) (hs : s.Injective)
    (hst : st.Typed s state) (hvs : HaveTypes env st vs args) :
    Throughout env st (b.addCode s vs) (·.Typed s state) := by
  cases hvs with
  | nil =>
    cases h with
    | count => exact hst.assign hs rfl ((hst.slot rfl).add one_hasType) .stay
    | rowNumber => exact throughout_nil hst
  | cons hv _ =>
    rw [addCode_cons]
    exact h.addValueCode_keeps hs hst hv

theorem Types.rowCode_keeps {vs : List Expr} (h : b.Types args returns state) (hs : s.Injective)
    (hst : st.Typed s state) (hvs : HaveTypes env st vs args) :
    Throughout env st (b.rowCode s vs) (·.Typed s state) := by
  cases b with
  | firstValue | lastValue | lag | lead | rowNumber => exact throughout_nil hst
  | count | sum | avg | min | max | arrayAgg => exact h.addCode_keeps hs hst hvs

/-- A merge with a call of the same types, either another one or the call itself. -/
theorem Types.mergeCode_keeps {s' : Nat → SlotId} (h : b.Types args returns state)
    (hs : s.Injective) (hapart : ∀ i < b.size, ∀ j < b.size, s i = s' j → i = j)
    (hst : st.Typed s state) (hst' : st.Typed s' state) :
    Throughout env st (b.mergeCode s s') (·.Typed s state) := by
  cases h with
  | count => exact hst.assign hs rfl ((hst.slot rfl).add (hst'.slot rfl)) .stay
  | sumInt => exact Types.sumInt.addValueCode_keeps hs hst (hst'.slot rfl)
  | sumFloat => exact Types.sumFloat.addValueCode_keeps hs hst (hst'.slot rfl)
  | min => exact Types.min.addValueCode_keeps hs hst (hst'.slot rfl)
  | max => exact Types.max.addValueCode_keeps hs hst (hst'.slot rfl)
  | avg =>
    refine throughout_assign hst fun v hv => ?_
    have htotal : (Expr.add (.slot (s 0)) (.slot (s' 0))).HasType env st .float :=
      .arith_float .add (hst.slot rfl) _
    have hnext : (st.setSlot (s 0) v).Typed s [.float, .int] := hst.setSlot hs rfl (htotal v hv)
    -- The other number is still there, for only the first slot has been assigned.
    obtain ⟨n, hn, hconforms⟩ := hst' 1 .int rfl
    have hother : (st.setSlot (s 0) v).slots (s' 1) = some n := by
      have hne : s' 1 ≠ s 0 := fun h =>
        Nat.zero_ne_one (hapart 0 Nat.zero_lt_two 1 Nat.one_lt_two h.symm)
      rw [Store.setSlot_slots, if_neg hne, hn]
    exact hnext.assign hs rfl ((hnext.slot rfl).add (.slot hother hconforms)) .stay
  | arrayAgg | firstValue | lastValue | lag | lead | rowNumber => exact throughout_nil hst

/-- What a call is resolved to is all there is to the types of its slots. -/
theorem Types.state_unique {state' : List DataType} (h : b.Types args returns state)
    (h' : b.Types args returns state') : state = state' := by
  cases h <;> cases h' <;> rfl

/-! ## Results -/

theorem Types.resultExpr_hasType (h : b.Types args returns state) (hst : st.Typed s state)
    (hw : b.aggregate.windowOnly = false) : (b.resultExpr s).HasType env st returns := by
  cases h with
  | avg => exact .choose _ .null (.arith_float .div (hst.slot rfl) _)
  | count | sumInt | sumFloat | min | max | arrayAgg | firstValue | lastValue =>
    exact hst.slot rfl
  | lag | lead | rowNumber => simp [aggregate_windowOnly, windowOnly] at hw

/-- Over a plain frame and the columns of the partition. -/
theorem Types.windowExpr_hasType {f : Frame} (h : b.Types args returns state)
    (hst : st.Typed s state) (hf : f.Plain)
    (hframe : ∀ facts ∈ env.frame, ∀ c ∈ facts.currentRow, IsWord c)
    (hcolumns : env.Columns args) :
    (windowExpr s b f (columnsAt args.length)).HasType env st returns := by
  have there {T : DataType} {rest : List DataType} (hcolumns : env.Columns (T :: rest))
      (row : Expr) :
      ((columnsAt (T :: rest).length row).headD .null).HasType env st T := by
    have hhead : (columnsAt (T :: rest).length row).headD .null = .argument 0 row := by
      simp [columnsAt, List.range_succ_eq_map]
    rw [hhead]
    exact argument_hasType hcolumns rfl row
  have hresult (hw : b.aggregate.windowOnly = false) :
      (b.resultExpr s).HasType env st returns := h.resultExpr_hasType hst hw
  cases h with
  | firstValue | lastValue | lag | lead => exact .choose _ (there hcolumns _) .null
  | rowNumber => exact (hf.currentRow_hasType hframe).add one_hasType
  | count | sumInt | sumFloat | avg | min | max | arrayAgg => exact hresult rfl

end Builtin
end WindowFold
