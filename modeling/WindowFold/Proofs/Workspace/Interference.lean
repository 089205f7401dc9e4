import WindowFold.Proofs.Workspace.Initialised

/-!
# Calls do not interfere

With the slot check on and without merges, the phases of a call see nothing of the phases of the
others: when the block of a pass runs to its end, the statements of one call alone, in their
order, run to their end as well and leave the slots of the call with the same values
(`own_run_agrees`).

The block and the statements of the one call are followed in step.  Statements of the call read
and write its own slots only, so the two runs go on agreeing there; statements of others, and
bindings, write none of its slots.
-/

namespace WindowFold

/-- A part that keeps to the slots `S`, of a whole whose other statements leave `S` alone, runs as
it does within the whole. -/
theorem runAll_filter_agree {env : Env} {S : SlotId → Prop} {mine : Entry → Bool}
    {es : List Entry}
    (htouched : ∀ e ∈ es, mine e = true → ∀ s ∈ Stmt.touchedAll e.emitted, S s)
    (hlocals : ∀ e ∈ es, mine e = true → Stmt.localsAll e.emitted = [])
    (hwritten : ∀ e ∈ es, mine e = false → ∀ s ∈ Stmt.writtenAll e.emitted, ¬ S s)
    {a a' b : Store} (hab : a.Agree S (fun _ => False) b)
    (h : Stmt.runAll env a (emittedBy es) = (a', .ok ())) :
    ∃ b', Stmt.runAll env b (emittedBy (es.filter mine)) = (b', .ok ()) ∧
      a'.Agree S (fun _ => False) b' := by
  induction es generalizing a b with
  | nil =>
    simp only [emittedBy, List.flatMap_nil, Stmt.runAll, Prod.mk.injEq, and_true] at h
    subst h
    exact ⟨b, rfl, hab⟩
  | cons e rest ih =>
    rw [emittedBy, List.flatMap_cons, Stmt.runAll_append] at h
    obtain ⟨a₁, h₁, h₂⟩ := andThen_eq_ok h
    have next {b₁ : Store} (hab₁ : a₁.Agree S (fun _ => False) b₁) :=
      ih (fun x hx => htouched x (List.mem_cons_of_mem _ hx))
        (fun x hx => hlocals x (List.mem_cons_of_mem _ hx))
        (fun x hx => hwritten x (List.mem_cons_of_mem _ hx)) hab₁ h₂
    cases hmine : mine e with
    | true =>
      obtain ⟨hresult, hstore⟩ := Stmt.runAll_agree env hab e.emitted
        (htouched e List.mem_cons_self hmine)
        (by simp [hlocals e List.mem_cons_self hmine])
      rw [h₁] at hresult hstore
      obtain ⟨b', hb', hab'⟩ := next hstore
      refine ⟨b', ?_, hab'⟩
      rw [List.filter_cons_of_pos hmine, emittedBy, List.flatMap_cons, Stmt.runAll_append]
      have hb₁ : Stmt.runAll env b e.emitted =
          ((Stmt.runAll env b e.emitted).1, .ok ()) := Prod.ext rfl hresult.symm
      rw [hb₁, andThen_ok]
      exact hb'
    | false =>
      have hab₁ : a₁.Agree S (fun _ => False) b := by
        refine ⟨fun s hs => ?_, fun _ hx => hx.elim⟩
        have hkept := Stmt.runAll_slots_of_not_mem env a s e.emitted
          (fun hw => hwritten e List.mem_cons_self hmine s hw hs)
        rw [h₁] at hkept
        exact hkept.trans (hab.slots s hs)
      rw [List.filter_cons_of_neg (by simp [hmine])]
      exact next hab₁

namespace Workspace

variable {w w' : Workspace} {es : List Entry} {e : Entry}

/-- Creating a call and binding a value write no slot. -/
theorem Takes.written_of_no_call (h : w.Takes e w') (hcall : e.instruction.byCall = true)
    (hnone : e.instruction.call? = none) : Stmt.writtenAll e.emitted = [] := by
  cases h with
  | created => rfl
  | bound => rfl
  | opened hi => simp [Instruction.call?_of_opens? hi] at hnone
  | updated hi => simp [hi] at hnone
  | yielded hi => simp [hi] at hnone
  | warmed => simp [Instruction.byCall] at hcall
  | emitted => simp [Instruction.byCall] at hcall

theorem record_written_of_no_call {config : Config} {is : List Instruction}
    (h : (start config).record is = .ok (es, w)) :
    ∀ e ∈ es, e.instruction.byCall = true → e.instruction.call? = none →
      Stmt.writtenAll e.emitted = [] := by
  refine record_induction (P := fun es _ => ∀ e ∈ es, e.instruction.byCall = true →
    e.instruction.call? = none → Stmt.writtenAll e.emitted = []) (by simp) ?_ h
  intro es w e w' hes ht x hx
  rw [List.mem_append, List.mem_singleton] at hx
  rcases hx with hx | rfl
  · exact hes x hx
  · exact ht.written_of_no_call

/-- The phases of one call alone do to its slots what they do among the others. -/
theorem own_run_agrees {config : Config} (hc : config.checkSlots = true) {is : List Instruction}
    (h : (start config).record is = .ok (es, w))
    (hcalls : ∀ i ∈ is, i.byCall = true ∧ i.merged? = none) (u : Nat)
    (hlocals : ∀ e ∈ es, e.instruction.call? = some u → Stmt.localsAll e.emitted = [])
    {env : Env} {st : Store}
    (hrun : Stmt.runAll env .fresh w.pass.draft.stmts = (st, .ok ())) :
    ∃ st', Stmt.runAll env .fresh
        (emittedBy (es.filter fun e => e.instruction.call? = some u)) = (st', .ok ()) ∧
      ∀ s, w.Owns u s → st'.slots s = st.slots s := by
  have hcalls' : ∀ e ∈ es, e.instruction.byCall = true ∧ e.instruction.merged? = none := by
    intro e he
    apply hcalls
    rw [← record_instructions h]
    exact List.mem_map_of_mem he
  -- A phase touches the slots of its own call and no others.
  have hown : ∀ e ∈ es, ∀ v, e.instruction.call? = some v →
      ∀ s ∈ Stmt.touchedAll e.emitted, w.Owns v s := by
    intro e he v hv s hs
    rcases record_touches hc h e he v hv s hs with ho | ⟨m, hm, _⟩
    · exact ho
    · simp [(hcalls' e he).2] at hm
  let mine : Entry → Bool := fun e => e.instruction.call? = some u
  have htouched : ∀ e ∈ es, mine e = true → ∀ s ∈ Stmt.touchedAll e.emitted, w.Owns u s :=
    fun e he hmine => hown e he u (by simpa [mine] using hmine)
  have hfree : ∀ e ∈ es, mine e = true → Stmt.localsAll e.emitted = [] :=
    fun e he hmine => hlocals e he (by simpa [mine] using hmine)
  have hwritten : ∀ e ∈ es, mine e = false → ∀ s ∈ Stmt.writtenAll e.emitted, ¬ w.Owns u s := by
    intro e he hother s hs ho
    cases hv : e.instruction.call? with
    | none =>
      rw [record_written_of_no_call h e he (hcalls' e he).1 hv] at hs
      simp at hs
    | some v =>
      have htouched := Stmt.writtenAll_subset_touchedAll e.emitted hs
      have huv := (record_apart h).unique u v s ho (hown e he v hv s htouched)
      simp [mine, hv, huv] at hother
  rw [record_stmts h] at hrun
  obtain ⟨st', hst', hagree⟩ :=
    runAll_filter_agree htouched hfree hwritten (.refl .fresh) hrun
  exact ⟨st', hst', fun s hs => (hagree.slots s hs).symm⟩

/-- A count and a sum taken in turns, the total being bound at the end. -/
def countWithSum : List Entry :=
  let count : Expr := .slot ⟨0⟩
  let total : Expr := .slot ⟨1⟩
  let adds (n : Int) : Stmt := .branch (Expr.int n).isNotNull
    [.assign ⟨1⟩ (.choose total.isNull (.int n) (.add total (.int n)))] []
  [⟨.create (.of "count" [] .int false false) .count, [], .done⟩,
    ⟨.create (.of "sum" [.int] .int true false) .sum, [], .done⟩,
    ⟨.reset 1, [.assign ⟨1⟩ .null], .done⟩,
    ⟨.add 1 [.int 5], [adds 5], .done⟩,
    ⟨.reset 0, [.assign ⟨0⟩ (.int 0)], .done⟩,
    ⟨.add 0 [], [.assign ⟨0⟩ (.add count (.int 1))], .done⟩,
    ⟨.add 1 [.int 2], [adds 2], .done⟩,
    ⟨.result 1, [], .value total⟩,
    ⟨.bind "s" total, [.declare ⟨0⟩ "agg_s_0" total], .bound ⟨⟨0⟩, "agg_s_0"⟩⟩]

theorem sum_apart_from_count : ∃ w st st', (start (.strict "agg")).record
      (countWithSum.map Entry.instruction) = .ok (countWithSum, w) ∧
    Stmt.runAll ⟨[], none⟩ .fresh w.pass.draft.stmts = (st, .ok ()) ∧
    Stmt.runAll ⟨[], none⟩ .fresh
      (emittedBy (countWithSum.filter fun e => e.instruction.call? = some 1)) = (st', .ok ()) ∧
    st.slots ⟨1⟩ = some (.int 7) ∧ st'.slots ⟨1⟩ = st.slots ⟨1⟩ := by
  have h : ∃ w, (start (.strict "agg")).record (countWithSum.map Entry.instruction) =
      .ok (countWithSum, w) ∧ w.Owns 1 ⟨1⟩ :=
    ⟨_, rfl, _, rfl, rfl⟩
  obtain ⟨w, h, ho⟩ := h
  have hlocals : ∀ e ∈ countWithSum, e.instruction.call? = some 1 →
      Stmt.localsAll e.emitted = [] := by
    decide
  have hrun : ∃ st, Stmt.runAll ⟨[], none⟩ .fresh w.pass.draft.stmts = (st, .ok ()) ∧
      st.slots ⟨1⟩ = some (.int 7) := by
    rw [record_stmts h]
    exact ⟨_, rfl, rfl⟩
  obtain ⟨st, hrun, hseven⟩ := hrun
  obtain ⟨st', hst', hslots⟩ := own_run_agrees rfl h (by decide) 1 hlocals hrun
  exact ⟨w, st, st', h, hrun, hst', hseven, hslots ⟨1⟩ ho⟩

end Workspace
end WindowFold
