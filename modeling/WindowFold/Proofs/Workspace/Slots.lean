import WindowFold.Proofs.Machine.Assignment
import WindowFold.Proofs.Workspace.Record

/-!
# Every slot has one owner

A new call takes the slots after all those taken before it, so no two calls of a workspace own
the same slot (`record_apart`).  Who owns what is fixed when a call is created and never changes
after that (`Takes.accumulator`).

With the slot check on, the statements of a phase keep to the slots of its call, or in a merge to
those of the two calls (`Takes.touches`), a reset assigns all of them (`Takes.assigns`), and a
value returned reads no others (`Takes.returns`).
-/

namespace WindowFold

/-- The call whose state is merged in. -/
def Instruction.merged? : Instruction → Option Nat
  | .merge _ v => some v
  | _ => none

theorem zipWith_slot_ids (ids : List SlotId) (types : List DataType)
    (h : ids.length = types.length) : (List.zipWith Slot.mk ids types).map Slot.id = ids := by
  induction ids generalizing types with
  | nil => rfl
  | cons s rest ih =>
    cases types with
    | nil => simp at h
    | cons t types =>
      rw [List.zipWith_cons_cons, List.map_cons, ih types (by simpa using h)]

/-- A new call owns the slots from the last one taken up to the next one free. -/
theorem Tally.create_owns {s : Signature} {agg : Aggregate} {p p' : Pass} {t : Tally}
    (h : Tally.create s agg p = .ok t p') (x : SlotId) : t.accumulator.owns x = true ↔
      p.draft.slotCount ≤ x.index ∧ x.index < p'.draft.slotCount := by
  obtain ⟨rfl, _, rfl⟩ := Tally.create_ok.mp h
  rw [Accumulator.owns_iff, zipWith_slot_ids _ _ (by simp), List.mem_map]
  simp only [List.mem_range'_1]
  constructor
  · intro h
    obtain ⟨k, hk, rfl⟩ := h
    exact hk
  · intro h
    exact ⟨x.index, h, rfl⟩

namespace Workspace

/-- The call at this position has the slot. -/
def Owns (w : Workspace) (u : Nat) (s : SlotId) : Prop :=
  ∃ a, (w.tallies.map Tally.accumulator)[u]? = some a ∧ a.owns s = true

variable {w w' : Workspace} {e : Entry} {t : Tally} {a : Accumulator} {u v : Nat} {s : SlotId}

theorem owns_iff (ha : (w.tallies.map Tally.accumulator)[u]? = some a) :
    w.Owns u s ↔ a.owns s = true := by
  simp [Owns, ha]

theorem accumulator_of_tally (ht : w.tallies[u]? = some t) :
    (w.tallies.map Tally.accumulator)[u]? = some t.accumulator := by
  rw [List.getElem?_map, ht, Option.map_some]

theorem owns_of_tally (ht : w.tallies[u]? = some t) :
    w.Owns u s ↔ t.accumulator.owns s = true :=
  owns_iff (accumulator_of_tally ht)

theorem Takes.accumulator (h : w.Takes e w')
    (ha : (w.tallies.map Tally.accumulator)[u]? = some a) :
    (w'.tallies.map Tally.accumulator)[u]? = some a := by
  rcases h.accumulators with h | ⟨s, agg, t, _, h⟩
  · rw [h, ha]
  · obtain ⟨hlt, _⟩ := List.getElem?_eq_some_iff.mp ha
    rw [h, List.getElem?_append_left hlt, ha]

theorem Takes.owns (h : w.Takes e w') (ho : w.Owns u s) : w'.Owns u s := by
  obtain ⟨a, ha, hs⟩ := ho
  exact ⟨a, h.accumulator ha, hs⟩

/-- A slot is new only if it is one of a call just created. -/
theorem Takes.owns_cases (h : w.Takes e w') (ho : w'.Owns u s) : w.Owns u s ∨
    (u = w.tallies.length ∧ w.pass.draft.slotCount ≤ s.index ∧
      s.index < w'.pass.draft.slotCount) := by
  obtain ⟨a, ha, hs⟩ := ho
  rcases h.accumulators with h | ⟨sig, agg, t, hc, h⟩
  · rw [h] at ha
    exact .inl ⟨a, ha, hs⟩
  · rw [h, List.getElem?_append] at ha
    by_cases hu : u < (w.tallies.map Tally.accumulator).length
    · rw [if_pos hu] at ha
      exact .inl ⟨a, ha, hs⟩
    · rw [if_neg hu, List.getElem?_singleton] at ha
      rw [List.length_map] at hu ha
      by_cases hz : u - w.tallies.length = 0
      · rw [if_pos hz, Option.some.injEq] at ha
        subst ha
        exact .inr ⟨by omega, (Tally.create_owns hc s).mp hs⟩
      · rw [if_neg hz] at ha
        simp at ha

theorem Takes.slotCount_le (h : w.Takes e w') :
    w.pass.draft.slotCount ≤ w'.pass.draft.slotCount := by
  cases h with
  | created h =>
    rw [(Tally.create_ok.mp h).2.2]
    exact Nat.le_add_right _ _
  | opened _ _ _ hm _ _ => exact Nat.le_of_eq (Pass.emit_ok hm).2.draft.slotCount.symm
  | updated _ _ _ _ hm _ => exact Nat.le_of_eq (Pass.emit_ok hm).2.draft.slotCount.symm
  | yielded _ _ _ _ hm _ _ _ => exact Nat.le_of_eq (Pass.emit_ok hm).2.draft.slotCount.symm
  | bound h => exact Nat.le_of_eq (Pass.bind_ok h).1.slotCount.symm
  | warmed _ hs => exact Nat.le_of_eq hs.draft.slotCount.symm
  | emitted hm => exact Nat.le_of_eq (Pass.emit_ok hm).2.draft.slotCount.symm

/-- Slots are handed out in order, and none of them twice. -/
structure Apart (w : Workspace) : Prop where
  taken : ∀ u s, w.Owns u s → s.index < w.pass.draft.slotCount
  unique : ∀ u v s, w.Owns u s → w.Owns v s → u = v

theorem Takes.apart (h : w.Takes e w') (hw : w.Apart) : w'.Apart := by
  constructor
  · intro u s hu
    rcases h.owns_cases hu with hu | ⟨_, _, hlt⟩
    · exact Nat.lt_of_lt_of_le (hw.taken u s hu) h.slotCount_le
    · exact hlt
  · intro u v s hu hv
    rcases h.owns_cases hu with hu | ⟨hu, hle, _⟩
    · rcases h.owns_cases hv with hv | ⟨_, hle, _⟩
      · exact hw.unique u v s hu hv
      · have hlt := hw.taken u s hu
        omega
    · rcases h.owns_cases hv with hv | ⟨hv, _, _⟩
      · have hlt := hw.taken v s hv
        omega
      · rw [hu, hv]

theorem start_apart (config : Config) : (start config).Apart := by
  have none : ∀ u s, ¬ (start config).Owns u s := by
    intro u s h
    obtain ⟨a, ha, _⟩ := h
    simp [start] at ha
  exact ⟨fun u s h => (none u s h).elim, fun u v s h => (none u s h).elim⟩

/-- No two calls of a pass ever share a slot. -/
theorem record_apart {config : Config} {is : List Instruction} {es : List Entry}
    (h : (start config).record is = .ok (es, w)) : w.Apart :=
  record_induction (P := fun _ w => w.Apart) (start_apart config)
    (fun _ _ _ _ hw ht => ht.apart hw) h

/-! ## What the checks leave to a phase -/

theorem Updates.opens?_eq_none {i : Instruction} {o : Option Accumulator} {m : Emission Unit}
    (h : w.Updates t i o m) : i.opens? = none := by
  cases h <;> rfl

theorem Yields.opens?_eq_none {i : Instruction} {m : Emission Expr} (h : w.Yields t i m) :
    i.opens? = none := by
  cases h <;> rfl

theorem Yields.merged?_eq_none {i : Instruction} {m : Emission Expr} (h : w.Yields t i m) :
    i.merged? = none := by
  cases h <;> rfl

theorem Instruction.call?_of_opens? {i : Instruction} (h : i.opens? = some u) :
    i.call? = some u := by
  cases i <;> simp_all [Instruction.opens?, Instruction.call?]

theorem Instruction.merged?_of_opens? {i : Instruction} (h : i.opens? = some u) :
    i.merged? = none := by
  cases i <;> simp_all [Instruction.opens?, Instruction.merged?]

/-- A phase that succeeds is of a call that is there. -/
theorem Takes.exists_tally (h : w.Takes e w') (hi : e.instruction.call? = some u) :
    ∃ t, w.tallies[u]? = some t := by
  cases h with
  | opened hopens ht =>
    rw [Instruction.call?_of_opens? hopens, Option.some.injEq] at hi
    exact ⟨_, hi ▸ ht⟩
  | updated hcall ht =>
    rw [hcall, Option.some.injEq] at hi
    exact ⟨_, hi ▸ ht⟩
  | yielded hcall ht =>
    rw [hcall, Option.some.injEq] at hi
    exact ⟨_, hi ▸ ht⟩
  | created => simp [Instruction.call?] at hi
  | bound => simp [Instruction.call?] at hi
  | warmed => simp [Instruction.call?] at hi
  | emitted => simp [Instruction.call?] at hi

theorem Takes.touches (h : w.Takes e w') (hc : w.pass.config.checkSlots = true)
    (hu : e.instruction.call? = some u) (hs : s ∈ Stmt.touchedAll e.emitted) :
    w.Owns u s ∨ ∃ v, e.instruction.merged? = some v ∧ w.Owns v s := by
  cases h with
  | created => simp [Instruction.call?] at hu
  | opened hi ht _ _ hcheck _ =>
    rw [Instruction.call?_of_opens? hi, Option.some.injEq] at hu
    subst hu
    rcases Tally.owned_of_checkSlots hc hcheck s hs with hs | ⟨_, ho, _⟩
    · exact .inl ((owns_of_tally ht).mpr hs)
    · simp at ho
  | updated hi ht _ hup _ hcheck =>
    rw [hi, Option.some.injEq] at hu
    subst hu
    rcases Tally.owned_of_checkSlots hc hcheck s hs with hs | ⟨a, ho, hs⟩
    · exact .inl ((owns_of_tally ht).mpr hs)
    · cases hup with
      | add => simp at ho
      | addRow => simp at ho
      | merge _ hv _ =>
        rw [Option.some.injEq] at ho
        subst ho
        exact .inr ⟨_, rfl, (owns_of_tally hv).mpr hs⟩
  | yielded hi ht _ _ _ _ hcheck _ =>
    rw [hi, Option.some.injEq] at hu
    subst hu
    rcases Tally.owned_of_checkSlots hc hcheck s hs with hs | ⟨_, ho, _⟩
    · exact .inl ((owns_of_tally ht).mpr hs)
    · simp at ho
  | bound => simp [Instruction.call?] at hu
  | warmed => simp [Instruction.call?] at hu
  | emitted => simp [Instruction.call?] at hu

theorem Takes.assigns (h : w.Takes e w') (hc : w.pass.config.checkSlots = true)
    (hu : e.instruction.opens? = some u) :
    ∃ a, (w.tallies.map Tally.accumulator)[u]? = some a ∧
      ∀ s, a.owns s = true → s ∈ Stmt.assignedAll e.emitted := by
  cases h with
  | created => simp [Instruction.opens?] at hu
  | @opened i v t ss p hi ht _ _ hcheck hcomplete =>
    rw [hi, Option.some.injEq] at hu
    subst hu
    have hown : ∀ s ∈ Stmt.assignedAll ss, t.accumulator.owns s = true := by
      intro s hs
      have htouched := Stmt.writtenAll_subset_touchedAll ss
        (Stmt.assignedAll_subset_writtenAll ss hs)
      rcases Tally.owned_of_checkSlots hc hcheck s htouched with hs | ⟨_, ho, _⟩
      · exact hs
      · simp at ho
    exact ⟨t.accumulator, accumulator_of_tally ht,
      fun s hs => Tally.assigned_of_checkComplete hc hcomplete hown hs⟩
  | updated _ _ _ hup _ _ => simp [hup.opens?_eq_none] at hu
  | yielded _ _ _ hy _ _ _ _ => simp [hy.opens?_eq_none] at hu
  | bound => simp [Instruction.opens?] at hu
  | warmed => simp [Instruction.opens?] at hu
  | emitted => simp [Instruction.opens?] at hu

theorem Takes.returns {x : Expr} (h : w.Takes e w') (hc : w.pass.config.checkSlots = true)
    (hx : e.value? = some x) (hs : s ∈ x.slots) :
    ∃ u t, w.tallies[u]? = some t ∧ t.ready = true ∧ w.Owns u s := by
  cases h with
  | @yielded i u t m ss v p _ ht hr _ _ _ _ hcheck =>
    have hv : v = x := by simpa [Entry.value?] using hx
    subst hv
    rcases Tally.owned_of_checkSlots hc hcheck s hs with hs | ⟨_, ho, _⟩
    · exact ⟨u, t, ht, hr, (owns_of_tally ht).mpr hs⟩
    · simp at ho
  | created => simp [Entry.value?] at hx
  | opened => simp [Entry.value?] at hx
  | updated => simp [Entry.value?] at hx
  | bound => simp [Entry.value?] at hx
  | warmed => simp [Entry.value?] at hx
  | emitted => simp [Entry.value?] at hx

/-- The statements of a phase keep to the slots of its call also when more calls have come. -/
theorem record_touches {config : Config} (hc : config.checkSlots = true) {is : List Instruction}
    {es : List Entry} (h : (start config).record is = .ok (es, w)) :
    ∀ e ∈ es, ∀ u, e.instruction.call? = some u → ∀ s ∈ Stmt.touchedAll e.emitted,
      w.Owns u s ∨ ∃ v, e.instruction.merged? = some v ∧ w.Owns v s := by
  refine (record_induction (P := fun es w => w.pass.config = config ∧
    ∀ e ∈ es, ∀ u, e.instruction.call? = some u → ∀ s ∈ Stmt.touchedAll e.emitted,
      w.Owns u s ∨ ∃ v, e.instruction.merged? = some v ∧ w.Owns v s) ?_ ?_ h).2
  · exact ⟨rfl, by simp⟩
  · intro es w e w' hw ht
    obtain ⟨hconfig, hes⟩ := hw
    refine ⟨ht.config.trans hconfig, ?_⟩
    intro x hx u hu s hs
    rw [List.mem_append, List.mem_singleton] at hx
    have hold : w.Owns u s ∨ ∃ v, x.instruction.merged? = some v ∧ w.Owns v s := by
      rcases hx with hx | rfl
      · exact hes x hx u hu s hs
      · exact ht.touches (by rw [hconfig, hc]) hu hs
    rcases hold with ho | ⟨v, hv, ho⟩
    · exact .inl (ht.owns ho)
    · exact .inr ⟨v, hv, ht.owns ho⟩

end Workspace
end WindowFold
