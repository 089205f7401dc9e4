import WindowFold.Proofs.Builtin.Codes
import WindowFold.Proofs.Builtin.Rerun

/-!
# Results that are never NULL

Resolving a call of `count`, `array_agg` or `row_number` says that its result is never NULL
(`never_null`).  The first two keep to it whatever happens: in every store that runs of a block
pass through, the slot of a count holds a word and that of an `array_agg` a list, once it holds
anything.  This is an invariant of the slots of all calls together (`Codes.upholds`), for a merge
reads the slot of another count.

The third does not.  The position of the current row is NULL where there is no row, and one more
than NULL is NULL (`null_iff_rowless`): `row_number` is the one function over a window that does
not ask the frame whether it has rows.
-/

namespace WindowFold

theorem eval_add_word {env : Env} {st : Store} {a b : Expr} {v : Value}
    (ha : ∀ x, a.eval env st = .ok x → ∃ m, x = .int m ∧ IsWord m)
    (hb : ∀ x, b.eval env st = .ok x → ∃ n, x = .int n ∧ IsWord n)
    (h : (a.add b).eval env st = .ok v) : ∃ n, v = .int n ∧ IsWord n := by
  cases hx : a.eval env st with
  | error err => simp [Expr.add, Expr.eval, hx, bind, Except.bind] at h
  | ok x =>
    cases hy : b.eval env st with
    | error err => simp [Expr.add, Expr.eval, hx, hy, bind, Except.bind] at h
    | ok y =>
      obtain ⟨m, rfl, hm⟩ := ha x hx
      obtain ⟨n, rfl, hn⟩ := hb y hy
      rw [Expr.add, eval_words hx hy hm hn, ArithOp.words, wordResult] at h
      split at h
      · rename_i hsum
        exact ⟨m + n, (Except.ok.inj h).symm, hsum⟩
      · simp at h

theorem one_word {env : Env} {st : Store} (v : Value) (h : (Expr.int 1).eval env st = .ok v) :
    ∃ n, v = .int n ∧ IsWord n :=
  ⟨1, (Except.ok.inj h).symm, by decide⟩

/-- No row is there to have a position: the frame is empty, or the engine says so. -/
def Frame.Rowless (f : Frame) (env : Env) : Prop :=
  f = .empty ∨ f = .symbolic ∧ ∃ facts, env.frame = some facts ∧ facts.currentRow = none

/-- One more than the position of the current row, which is a word if there is one. -/
theorem Frame.Plain.next_null_iff {f : Frame} (h : f.Plain) {env : Env} {st : Store}
    (hrow : ∀ facts ∈ env.frame, ∀ c ∈ facts.currentRow, IsWord c) :
    (f.currentRow.add (.int 1)).eval env st = .ok .null ↔ f.Rowless env := by
  have known {f : Frame} {c : Int} (hc : IsWord c) (he : f.currentRow.eval env st = .ok (.int c)) :
      (f.currentRow.add (.int 1)).eval env st ≠ .ok .null := by
    intro hnull
    obtain ⟨n, hn, _⟩ := eval_add_word
      (fun x hx => ⟨c, Except.ok.inj (hx.symm.trans he), hc⟩) one_word hnull
    cases hn
  have null {f : Frame} (he : f.currentRow.eval env st = .ok .null) :
      (f.currentRow.add (.int 1)).eval env st = .ok .null := by
    simp only [Expr.add, Expr.eval, he, bind, Except.bind, Expr.int, apply_null_left]
  rcases h with rfl | rfl | ⟨c, first, last, n, hc, rfl⟩
  · have hempty : Frame.symbolic ≠ .empty := by decide
    cases hframe : env.frame with
    | none =>
      refine iff_of_false ?_ (by simp [Rowless, hempty, hframe])
      simp [symbolic, Expr.add, Expr.eval, Env.fact, hframe, bind, Except.bind]
    | some facts =>
      have heval : Frame.symbolic.currentRow.eval env st =
          .ok (FrameFacts.position facts.currentRow) := by
        simp only [symbolic, Expr.eval, Env.fact, hframe, FrameFacts.value]
      cases hcurrent : facts.currentRow with
      | none =>
        rw [hcurrent] at heval
        exact iff_of_true (null heval) (.inr ⟨rfl, facts, hframe, hcurrent⟩)
      | some c =>
        rw [hcurrent] at heval
        refine iff_of_false (known (hrow facts hframe c hcurrent) heval) ?_
        simp [Rowless, hempty, hframe, hcurrent]
  · exact iff_of_true (null rfl) (.inl rfl)
  · refine iff_of_false (known hc rfl) ?_
    simp [Rowless, Frame.constant, Frame.empty, Frame.symbolic, Expr.int, Expr.null]

namespace Builtin

/-- The values that the slot of a function that is never NULL may hold. -/
def Present : Builtin → Value → Prop
  | .count, v => ∃ n, v = .int n ∧ IsWord n
  | .arrayAgg, v => ∃ items, v = .array items
  | _, _ => True

/-- The slots of the call may hold what is present, and nothing else. -/
def Bounds (b : Builtin) (s : Nat → SlotId) (A : SlotId → Value → Prop) : Prop :=
  ∀ x, b.Own s x → ∀ v, A x v ↔ b.Present v

theorem never_null {b : Builtin} {types : List DataType} {returns : DataType}
    (h : b.aggregate.typing types = .ok (returns, false)) :
    (b = .count ∨ b = .arrayAgg) ∨ b = .rowNumber := by
  cases b with
  | count => exact .inl (.inl rfl)
  | arrayAgg => exact .inl (.inr rfl)
  | rowNumber => exact .inr rfl
  | sum | avg | min | max | firstValue | lastValue =>
    obtain ⟨T, rfl⟩ := List.length_eq_one_iff.mp (soleType_bind_ok h)
    cases T <;> cases h
  | lag | lead =>
    simp only [aggregate, Aggregate.lag, Aggregate.lead, Aggregate.shifted, Aggregate.placed] at h
    split at h <;> cases h

variable {b : Builtin} {s s' : Nat → SlotId} {A : SlotId → Value → Prop} {ss : List Stmt}

namespace Bounds

theorem slot_present (h : b.Bounds s A) {i : Nat} (hi : i < b.size) {env : Env} {st : Store}
    (hst : st.Obeys A) {v : Value} (hv : (Expr.slot (s i)).eval env st = .ok v) : b.Present v := by
  simp only [Expr.eval] at hv
  split at hv
  · rename_i w hw
    rw [← Except.ok.inj hv]
    exact (h (s i) ⟨i, hi, rfl⟩ w).mp (hst (s i) w hw)
  · simp at hv

theorem slot_not_null (h : b.Bounds s A) (hb : b = .count ∨ b = .arrayAgg) {env : Env}
    {st : Store} (hst : st.Obeys A) : (Expr.slot (s 0)).eval env st ≠ .ok .null := by
  intro hnull
  rcases hb with rfl | rfl
  · obtain ⟨n, hn, _⟩ := h.slot_present Nat.zero_lt_one hst hnull
    cases hn
  · obtain ⟨items, hitems⟩ := h.slot_present Nat.zero_lt_one hst hnull
    cases hitems

/-- The slots of the other functions may hold anything. -/
theorem upholds_free (h : b.Bounds s A) (hb : ∀ v, b.Present v)
    (hss : ∀ x ∈ Stmt.writtenAll ss, b.Own s x) : Upholds A ss :=
  upholds_of_free fun x hx v => (h x (hss x hx) v).mpr (hb v)

/-- An assignment of a sum of words to the slot of a count. -/
theorem upholds_count (h : Builtin.count.Bounds s A) {e : Expr}
    (he : ∀ env st, st.Obeys A → ∀ v, e.eval env st = .ok v → ∃ n, v = .int n ∧ IsWord n) :
    Upholds A [.assign (s 0) (.add (.slot (s 0)) e)] := by
  refine upholds_assign (fun env st v hst hv => ?_) upholds_nil
  refine (h (s 0) (own_zero Nat.zero_lt_one) v).mpr (eval_add_word ?_ (he env st hst) hv)
  exact fun x hx => h.slot_present Nat.zero_lt_one hst hx

theorem resets_upholds (h : b.Bounds s A) (hss : b.Resets s ss) : Upholds A ss := by
  have hwritten : ∀ x ∈ Stmt.writtenAll ss, b.Own s x := by
    rcases hss with rfl | ⟨o, rfl⟩
    · exact fun x hx => resetCode_touched x (Stmt.writtenAll_subset_touchedAll _ hx)
    · exact openCode_written o
  cases b with
  | count =>
    have hzero : Upholds A [.assign (s 0) (.int 0)] :=
      upholds_assign (fun _ _ v _ hv => (h (s 0) (own_zero Nat.zero_lt_one) v).mpr
        ⟨0, (Except.ok.inj hv).symm, by decide⟩) upholds_nil
    rcases hss with rfl | ⟨o, rfl⟩ <;> exact hzero
  | arrayAgg =>
    have hempty {rest : List Stmt} (hrest : Upholds A rest) :
        Upholds A (.assign (s 0) .emptyList :: rest) :=
      upholds_assign (fun _ _ v _ hv => (h (s 0) (own_zero Nat.zero_lt_one) v).mpr
        ⟨[], (Except.ok.inj hv).symm⟩) hrest
    rcases hss with rfl | ⟨o, rfl⟩
    · exact hempty upholds_nil
    · exact hempty (upholds_reserve upholds_nil)
  | sum | avg | min | max | firstValue | lastValue | lag | lead | rowNumber =>
    exact h.upholds_free (fun _ => trivial) hwritten

theorem addCode_upholds (h : b.Bounds s A) (args : List Expr) : Upholds A (b.addCode s args) := by
  cases b with
  | count =>
    have hone : Upholds A [.assign (s 0) (.add (.slot (s 0)) (.int 1))] :=
      h.upholds_count fun _ _ _ => one_word
    cases args with
    | nil => exact hone
    | cons v rest => exact upholds_guarded hone
  | arrayAgg =>
    cases args with
    | nil => exact upholds_nil
    | cons v rest =>
      exact upholds_push (fun items => (h (s 0) (own_zero Nat.zero_lt_one) _).mpr ⟨items, rfl⟩)
        upholds_nil
  | sum | avg | min | max | firstValue | lastValue | lag | lead | rowNumber =>
    exact h.upholds_free (fun _ => trivial) (addCode_written args)

theorem rowCode_upholds (h : b.Bounds s A) (args : List Expr) : Upholds A (b.rowCode s args) := by
  cases b with
  | firstValue | lastValue | lag | lead | rowNumber => exact upholds_nil
  | count | sum | avg | min | max | arrayAgg => exact h.addCode_upholds args

theorem mergeCode_upholds (h : b.Bounds s A) (h' : b.Bounds s' A) :
    Upholds A (b.mergeCode s s') := by
  cases b with
  | count => exact h.upholds_count fun _ _ hst _ hv => h'.slot_present Nat.zero_lt_one hst hv
  | arrayAgg => exact upholds_nil
  | sum | avg | min | max | firstValue | lastValue | lag | lead | rowNumber =>
    exact h.upholds_free (fun _ => trivial) mergeCode_written

end Bounds

end Builtin

namespace Workspace

open Builtin

variable {w : Workspace} {e : Entry} {es : List Entry} {u : Nat} {t : Tally}

/-- What the functions of all calls let a slot hold. -/
def Permits (w : Workspace) (x : SlotId) (v : Value) : Prop :=
  ∀ (u : Nat) (t : Tally) (b : Builtin), w.tallies[u]? = some t → t.aggregate = b.aggregate →
    w.Owns u x → b.Present v

/-- It is for the one function that owns it to say what a slot may hold. -/
theorem bounds_permits {b : Builtin} {s : Nat → SlotId} (hapart : w.Apart)
    (ht : w.tallies[u]? = some t) (hb : b.Resolved s t) : b.Bounds s w.Permits := by
  intro x hx v
  have hown : w.Owns u x := (owns_of_tally ht).mpr (hb.fits.lays.owns_iff.mpr hx)
  constructor
  · intro h
    exact h u t b ht hb.aggregate hown
  · intro hv u' t' b' ht' hb' hown'
    obtain rfl := hapart.unique _ _ _ hown hown'
    obtain rfl := Option.some.inj (ht.symm.trans ht')
    obtain rfl := aggregate_injective (hb.aggregate.symm.trans hb')
    exact hv

theorem Codes.upholds (h : w.Codes e) (hapart : w.Apart) : Upholds w.Permits e.emitted := by
  cases h with
  | quiet _ hw => exact upholds_of_free (by simp [hw])
  | resets _ ht hb hss => exact (bounds_permits hapart ht hb).resets_upholds hss
  | adds ht hb => exact (bounds_permits hapart ht hb).addCode_upholds _
  | addsRow ht hb _ => exact (bounds_permits hapart ht hb).rowCode_upholds _
  | merges ht ht' _ hb hb' _ =>
    exact (bounds_permits hapart ht hb).mergeCode_upholds (bounds_permits hapart ht' hb')

theorem upholds_emittedBy {A : SlotId → Value → Prop} (h : ∀ e ∈ es, Upholds A e.emitted) :
    Upholds A (emittedBy es) := by
  induction es with
  | nil => exact upholds_nil
  | cons e rest ih =>
    exact (h e List.mem_cons_self).append (ih fun x hx => h x (List.mem_cons_of_mem _ hx))

/-- Runs that come one after another leave in the slots what they may hold. -/
theorem leftBehind_obeys {A : SlotId → Value → Prop} {ss : List Stmt} (h : Upholds A ss)
    (rows : List (List Value)) (frames : List (Option FrameFacts)) :
    (leftBehind rows ss frames).Obeys A := by
  have key : ∀ st : Store, st.Obeys A →
      (frames.foldl (fun st frame => (Stmt.runAll ⟨rows, frame⟩ st ss).1) st).Obeys A := by
    induction frames with
    | nil => exact fun st hst => hst
    | cons frame rest ih => exact fun st hst => ih _ (h.runAll _ hst)
  exact key .fresh fresh_obeys

/-- What the functions that are never NULL answer. -/
theorem Yields.never_null {b : Builtin} {s : Nat → SlotId} {i : Instruction} {m : Emission Expr}
    {v : Expr} (h : w.Yields t i m) (hb : b.Resolved s t) (hm : ∀ n, m.outcome n = .ok v)
    (hi : i.asks? = some u) :
    ((b = .count ∨ b = .arrayAgg) → v = .slot (s 0)) ∧
      (b = .rowNumber → ∃ f rows, i = .resultAt u f rows ∧ v = f.currentRow.add (.int 1)) := by
  have held (hm : ∀ n, (b.aggregate.result t.site).outcome n = .ok v)
      (hb' : b = .count ∨ b = .arrayAgg) : v = .slot (s 0) := by
    rcases hb' with rfl | rfl
    · exact Except.ok.inj ((hm 0).symm.trans ((result_gives hb.fits.lays rfl).outcome 0))
    · exact Except.ok.inj ((hm 0).symm.trans ((result_gives hb.fits.lays rfl).outcome 0))
  cases h with
  | result hopen =>
    rw [hb.aggregate] at hm
    refine ⟨held hm, ?_⟩
    rintro rfl
    exact absurd (hb.windowOnly_false hopen) (by decide)
  | @resultAt _ f rows _ =>
    obtain rfl := Option.some.inj hi
    rw [hb.aggregate] at hm
    constructor
    · intro hb'
      refine held ?_ hb'
      rcases hb' with rfl | rfl <;> exact hm
    · rintro rfl
      exact ⟨f, rows, rfl, (Except.ok.inj (hm 0)).symm⟩

/-- The functions of calls whose results were said never to be NULL. -/
theorem record_never_null {config : Config} {is : List Instruction} {b : Builtin}
    {s : Nat → SlotId} (h : (start config).record is = .ok (es, w)) (his : ∀ i ∈ is, i.Named)
    (ht : w.tallies[u]? = some t) (hb : b.Resolved s t) (hnullable : t.signature.nullable = false) :
    (b = .count ∨ b = .arrayAgg) ∨ b = .rowNumber := by
  obtain ⟨name, types, distinct, hresolve⟩ := record_named h his ht
  obtain ⟨b', nullable, hb', htyping, hsig⟩ := resolve_ok hresolve
  obtain rfl := aggregate_injective (hb.aggregate.symm.trans hb')
  rw [hsig] at hnullable
  obtain rfl : nullable = false := hnullable
  exact Builtin.never_null htyping

/-- Whatever has been done with the calls of a pass and however often its block has run: what is
returned by a call whose result was said never to be NULL evaluates to NULL, at whatever point of
a run, exactly if the call is one of `row_number` and no row is there. -/
theorem null_iff_rowless {config : Config} {is : List Instruction}
    (h : (start config).record is = .ok (es, w)) (his : ∀ i ∈ is, i.Named ∧ i.byCall = true)
    {rows : List (List Value)} {frames : List (Option FrameFacts)} {env env' : Env} {p : Store}
    (hp : Reaches env (leftBehind rows w.pass.draft.stmts frames) w.pass.draft.stmts p)
    (ht : w.tallies[u]? = some t) (hnullable : t.signature.nullable = false) (he : e ∈ es)
    (hu : e.instruction.asks? = some u) {v : Expr} (hv : e.reply = .value v)
    (hf : ∀ f args, e.instruction = .resultAt u f args → f.Plain)
    (hrow : ∀ facts ∈ env'.frame, ∀ c ∈ facts.currentRow, IsWord c) :
    v.eval env' p = .ok .null ↔ t.aggregate = Builtin.rowNumber.aggregate ∧
      ∃ f args, e.instruction = .resultAt u f args ∧ f.Rowless env' := by
  have hcoded := record_coded h his
  have hapart := record_apart h
  have hupholds := upholds_emittedBy fun x hx => (hcoded.codes x hx).upholds hapart
  rw [record_stmts h] at hp
  have hobeys := hupholds env _ (leftBehind_obeys hupholds rows frames) p hp
  obtain ⟨t', m, ht', hy, hm⟩ := hcoded.answers e he u v hu hv
  obtain rfl := Option.some.inj (ht.symm.trans ht')
  obtain ⟨b, s, hb⟩ := hcoded.resolved u t ht
  obtain ⟨hslot, hnext⟩ := hy.never_null hb hm hu
  rcases record_never_null h (fun i hi => (his i hi).1) ht hb hnullable with hheld | rfl
  · rw [hslot hheld]
    refine iff_of_false ((bounds_permits hapart ht hb).slot_not_null hheld hobeys) ?_
    rintro ⟨hagg, _⟩
    obtain rfl := aggregate_injective (hb.aggregate.symm.trans hagg)
    simp at hheld
  · obtain ⟨f, args, hi, rfl⟩ := hnext rfl
    rw [(hf f args hi).next_null_iff hrow]
    constructor
    · exact fun hrowless => ⟨hb.aggregate, f, args, hi, hrowless⟩
    · rintro ⟨_, f', args', hi', hrowless⟩
      obtain ⟨_, rfl, _⟩ := Instruction.resultAt.inj (hi.symm.trans hi')
      exact hrowless

/-- The number of the current row of a frame, and how it is told. -/
def numbered (f : Frame) : List Entry :=
  [⟨.create (.of "row_number" [] .int false false) .rowNumber, [], .done⟩,
    ⟨.openPartition 0 f, [], .done⟩,
    ⟨.resultAt 0 f (.columns 0), [], .value (f.currentRow.add (.int 1))⟩]

theorem numbered_resolved : (Registry.builtin.map Builtin.aggregate).resolve "row_number" [] false =
    .ok (.of "row_number" [] .int false false, .rowNumber) :=
  resolve_name (b := .rowNumber) rfl false

/-- The third row has a number, and without rows there is none. -/
theorem third_row_numbered : ∃ w, (start (.strict "agg")).record
      ((numbered .symbolic).map Entry.instruction) = .ok (numbered .symbolic, w) ∧
    let number := Frame.symbolic.currentRow.add (.int 1)
    number.eval ⟨[], some (.known 2 0 4 5)⟩ .fresh ≠ .ok .null ∧
      number.eval ⟨[], some .empty⟩ .fresh = .ok .null := by
  have h : ∃ w t, (start (.strict "agg")).record ((numbered .symbolic).map Entry.instruction) =
        .ok (numbered .symbolic, w) ∧ w.tallies[0]? = some t ∧ t.signature.nullable = false ∧
      t.aggregate = Builtin.rowNumber.aggregate :=
    ⟨_, _, rfl, rfl, rfl, rfl⟩
  obtain ⟨w, t, hrecord, ht, hnullable, hagg⟩ := h
  have his : ∀ i ∈ (numbered .symbolic).map Entry.instruction, i.Named ∧ i.byCall = true := by
    simp only [numbered, List.map_cons, List.map_nil, List.forall_mem_cons, Instruction.Named,
      Instruction.byCall, true_and, and_true]
    exact ⟨⟨_, _, _, numbered_resolved⟩, by simp⟩
  have hplain : ∀ f args, (Instruction.resultAt 0 Frame.symbolic (.columns 0)) =
      .resultAt 0 f args → f.Plain := by
    intro f args hi
    obtain ⟨_, rfl, _⟩ := Instruction.resultAt.inj hi
    exact .inl rfl
  have hreached : Reaches ⟨[], none⟩ (leftBehind [] w.pass.draft.stmts []) w.pass.draft.stmts
      .fresh := .here
  have hlast := List.getLast_mem (l := numbered .symbolic) (by simp [numbered])
  refine ⟨w, hrecord, fun hnull => ?_, ?_⟩
  · have hrow : ∀ facts ∈ some (FrameFacts.known 2 0 4 5), ∀ c ∈ facts.currentRow, IsWord c := by
      decide
    obtain ⟨_, f, args, hi, hrowless⟩ :=
      (null_iff_rowless hrecord his hreached ht hnullable hlast rfl rfl hplain hrow).mp hnull
    obtain ⟨_, rfl, _⟩ := Instruction.resultAt.inj hi
    rcases hrowless with hempty | ⟨_, facts, hfacts, hnone⟩
    · exact absurd hempty (by decide)
    · rw [← Option.some.inj hfacts] at hnone
      cases hnone
  · have hrow : ∀ facts ∈ some FrameFacts.empty, ∀ c ∈ facts.currentRow, IsWord c := by
      simp [FrameFacts.empty]
    exact (null_iff_rowless hrecord his hreached ht hnullable hlast rfl rfl hplain hrow).mpr
      ⟨hagg, _, _, rfl, .inr ⟨rfl, _, rfl, rfl⟩⟩

/-- A call whose result was said never to be NULL, over a partition without rows. -/
theorem empty_partition_numbered : ∃ sig w st v,
    (Registry.builtin.map Builtin.aggregate).resolve "row_number" [] false =
      .ok (sig, .rowNumber) ∧ sig.nullable = false ∧
    (start (.strict "agg")).record [.create sig .rowNumber, .openPartition 0 .empty] =
      .ok ((numbered .empty).take 2, w) ∧
    w.step (.resultAt 0 .empty (.columns 0)) = (w, .ok (.value v)) ∧
    Stmt.runAll ⟨[], some .empty⟩ .fresh w.pass.draft.stmts = (st, .ok ()) ∧
    v.eval ⟨[], some .empty⟩ st = .ok .null :=
  ⟨_, _, _, _, numbered_resolved, rfl, rfl, rfl, rfl, rfl⟩

end Workspace

end WindowFold
