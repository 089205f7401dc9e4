import WindowFold.Proofs.Builtin.Confined
import WindowFold.Proofs.Workspace.Slots

/-!
# Asking for a result changes nothing

A result may be asked for in the middle of a block and asked for again.  Under every
configuration the statements that come with it write no slot, so a run of them leaves the slots
of all calls alone, also when it fails midway.  A builtin function brings no statements at all,
and gives the same expression whenever it is asked the same (`asking_changes_nothing`).

The value of that expression is the call's own as long as nothing else is read into it.  Without
the slot check the arguments of a window may read the slot of another call, and then the value
follows the other call (`answer_follows_another_call`).
-/

namespace WindowFold

/-- The call that is asked for its result. -/
def Instruction.asks? : Instruction → Option Nat
  | .result u | .resultAt u _ _ => some u
  | _ => none

theorem Instruction.call?_of_asks? {i : Instruction} {u : Nat} (h : i.asks? = some u) :
    i.call? = some u := by
  cases i <;> simp_all [asks?, call?]

theorem Instruction.opens?_of_asks? {i : Instruction} {u : Nat} (h : i.asks? = some u) :
    i.opens? = none := by
  cases i <;> simp_all [asks?, opens?]

/-- A later state of the same call, ready if it has been. -/
structure Tally.Becomes (t t' : Tally) : Prop where
  site : t'.site = t.site
  aggregate : t'.aggregate = t.aggregate
  ready : t.ready = true → t'.ready = true

namespace Tally

theorem Becomes.refl (t : Tally) : t.Becomes t := ⟨rfl, rfl, id⟩

theorem Becomes.trans {t₁ t₂ t₃ : Tally} (h : t₁.Becomes t₂) (h' : t₂.Becomes t₃) :
    t₁.Becomes t₃ :=
  ⟨h'.site.trans h.site, h'.aggregate.trans h.aggregate, h'.ready ∘ h.ready⟩

theorem becomes_opened (t : Tally) (i : Instruction) : t.Becomes (t.opened i) := by
  refine ⟨?_, t.opened_aggregate i, fun _ => t.opened_ready i⟩
  rw [site, site, opened_signature, opened_accumulator]

theorem checkSlots_congr {t t' : Tally} (h : t'.site = t.site) (config : Config)
    (o : Option Accumulator) (slots : List SlotId) :
    t'.checkSlots config o slots = t.checkSlots config o slots := by
  obtain ⟨hsignature, haccumulator⟩ := Site.mk.inj h
  simp only [checkSlots, checkOwned, hsignature, haccumulator]

theorem warmUpAll_becomes {hint : Expr} {p p' : Pass} {ts ts' : List Tally}
    (h : warmUpAll hint p ts = (ts', p', .ok ())) {u : Nat} {t : Tally} (ht : ts[u]? = some t) :
    ∃ t', ts'[u]? = some t' ∧ t.Becomes t' := by
  induction ts generalizing p ts' u with
  | nil => simp at ht
  | cons t₀ rest ih =>
    simp only [warmUpAll] at h
    cases hw : t₀.warmUp hint p with
    | error e q => simp [hw] at h
    | ok t₁ q =>
      simp only [hw, Prod.mk.injEq] at h
      obtain ⟨rfl, hp, hr⟩ := h
      cases u with
      | zero =>
        obtain ⟨_, _, rfl⟩ := warmUp_ok.mp hw
        obtain rfl : t₀ = t := by simpa using ht
        exact ⟨_, rfl, t₀.becomes_opened (.warmUp 0 hint)⟩
      | succ u => exact ih (Prod.ext rfl (Prod.ext hp hr)) ht

end Tally

namespace Workspace

variable {w w' : Workspace} {e : Entry} {i : Instruction} {u : Nat} {t : Tally}

/-- Whatever is done next, a call stays the call it is. -/
theorem Takes.becomes (h : w.Takes e w') (ht : w.tallies[u]? = some t) :
    ∃ t', w'.tallies[u]? = some t' ∧ t.Becomes t' := by
  cases h with
  | created =>
    obtain ⟨hlt, _⟩ := List.getElem?_eq_some_iff.mp ht
    exact ⟨t, by rw [List.getElem?_append_left hlt, ht], .refl t⟩
  | @opened i v t₀ ss p hi ht₀ _ _ _ _ =>
    by_cases huv : v = u
    · subst huv
      obtain ⟨hlt, _⟩ := List.getElem?_eq_some_iff.mp ht
      obtain rfl : t₀ = t := Option.some.inj (ht₀.symm.trans ht)
      exact ⟨_, by rw [List.getElem?_set_self hlt], t₀.becomes_opened i⟩
    · exact ⟨t, by rw [List.getElem?_set_ne huv, ht], .refl t⟩
  | warmed hw _ => exact Tally.warmUpAll_becomes hw ht
  | updated => exact ⟨t, ht, .refl t⟩
  | yielded => exact ⟨t, ht, .refl t⟩
  | bound => exact ⟨t, ht, .refl t⟩
  | emitted => exact ⟨t, ht, .refl t⟩

/-- From any workspace on, the calls there are and the configuration stay. -/
theorem record_becomes {is : List Instruction} {es : List Entry}
    (h : w.record is = .ok (es, w')) (ht : w.tallies[u]? = some t) :
    w'.pass.config = w.pass.config ∧ ∃ t', w'.tallies[u]? = some t' ∧ t.Becomes t' := by
  refine record_induction (P := fun _ w' => w'.pass.config = w.pass.config ∧
    ∃ t', w'.tallies[u]? = some t' ∧ t.Becomes t') ⟨rfl, t, ht, .refl t⟩ ?_ h
  intro es w₁ e w₂ h₁ htakes
  obtain ⟨hconfig, t₁, ht₁, hbecomes⟩ := h₁
  obtain ⟨t₂, ht₂, hnext⟩ := htakes.becomes ht₁
  exact ⟨htakes.config.trans hconfig, t₂, ht₂, hbecomes.trans hnext⟩

/-! ## One answer -/

/-- An answer comes of a call that is ready. -/
theorem Takes.yields (h : w.Takes e w') (hi : e.instruction.asks? = some u) :
    ∃ t m ss v p, w.tallies[u]? = some t ∧ t.ready = true ∧ w.Yields t e.instruction m ∧
      Pass.emit m w.pass = .ok (ss, v) p ∧ t.checkReadOnly ss = .ok () ∧
      t.checkSlots w.pass.config none v.slots = .ok () ∧ e.reply = .value v ∧
      e.emitted = ss ∧ w' = ⟨p, w.tallies⟩ := by
  cases h with
  | @yielded i v t m ss x p hcall ht hr hy hm hw _ hv =>
    rw [Instruction.call?_of_asks? hi, Option.some.injEq] at hcall
    subst hcall
    exact ⟨t, m, ss, x, p, ht, hr, hy, hm, hw, hv, rfl, rfl, rfl⟩
  | opened hopens => simp [Instruction.opens?_of_asks? hi] at hopens
  | updated _ _ _ hu => cases hu <;> simp [Instruction.asks?] at hi
  | created => simp [Instruction.asks?] at hi
  | bound => simp [Instruction.asks?] at hi
  | warmed => simp [Instruction.asks?] at hi
  | emitted => simp [Instruction.asks?] at hi

theorem written_of_checkReadOnly {ss : List Stmt} (h : t.checkReadOnly ss = .ok ()) :
    Stmt.writtenAll ss = [] := by
  unfold Tally.checkReadOnly at h
  split at h
  · simp at h
  · assumption

/-- A builtin function is asked without emitting anything. -/
theorem Yields.keeps {b : Builtin} {m : Emission Expr} (h : w.Yields t i m)
    (hb : t.aggregate = b.aggregate) {S : SlotId → Prop} {L : LocalId → Prop}
    (hown : ∀ s, t.accumulator.owns s = true → S s) (hi : i.InputsWithin S L) :
    m.Keeps (fun _ => False) (Expr.Within S L) := by
  cases h with
  | result _ =>
    rw [hb]
    exact b.result_keeps hown
  | resultAt _ =>
    rw [hb]
    exact b.resultAt_keeps hown hi.1 hi.2

/-- Whatever pass a builtin function is asked in, it gives what it has once given. -/
theorem Yields.answers {b : Builtin} {m : Emission Expr} {p : Pass} {ss : List Stmt} {v : Expr}
    (h : w.Yields t i m) (hb : t.aggregate = b.aggregate)
    (hm : Pass.emit m w.pass = .ok (ss, v) p) :
    (∀ n, m.outcome n = .ok v) ∧ (∀ q : Pass, Pass.emit m q = .ok ([], v) q) ∧ ss = [] ∧ p = w.pass := by
  have hquiet : m.Keeps (fun _ => False) (Expr.Within (fun _ => True) (fun _ => True)) :=
    h.keeps hb (fun _ _ => trivial) i.inputsWithin_all
  have hperform := (Pass.emit_ok hm).1
  rw [hquiet.perform_of_no_op, Prod.mk.injEq] at hperform
  have hagain : ∀ q : Pass, Pass.emit m q = .ok ([], v) q := Pass.emit_of_no_op hquiet hperform.2
  have hemit := hm.symm.trans (hagain w.pass)
  simp only [EStateM.Result.ok.injEq, Prod.mk.injEq] at hemit
  exact ⟨fun n => (hquiet.steady n _).trans hperform.2, hagain, hemit.1.1, hemit.2⟩

theorem Yields.becomes {w₂ : Workspace} {t₂ : Tally} {m : Emission Expr} (h : w.Yields t i m)
    (ht : t.Becomes t₂) (hc : w₂.pass.config = w.pass.config) : w₂.Yields t₂ i m := by
  have hguard : t₂.refuseWindowOnly = t.refuseWindowOnly := by
    obtain ⟨hsignature, _⟩ := Site.mk.inj ht.site
    simp only [Tally.refuseWindowOnly, ht.aggregate, hsignature]
  cases h with
  | result hw =>
    rw [← ht.aggregate, ← ht.site]
    exact .result (hguard.trans hw)
  | resultAt hf =>
    rw [← ht.aggregate, ← ht.site]
    exact .resultAt (by rw [hc, hf])

/-- A call that is ready and emits nothing answers and leaves the workspace as it is. -/
theorem Yields.step {m : Emission Expr} {v : Expr} (h : w.Yields t i m)
    (hi : i.asks? = some u) (ht : w.tallies[u]? = some t) (hr : t.ready = true)
    (hm : Pass.emit m w.pass = .ok ([], v) w.pass)
    (hv : t.checkSlots w.pass.config none v.slots = .ok ()) :
    w.step i = (w, .ok (.value v)) := by
  have hnone : t.checkSlots w.pass.config none (Stmt.touchedAll []) = .ok () := by
    unfold Tally.checkSlots
    split <;> rfl
  have hresult : t.performResult m w.pass = .ok v w.pass :=
    Tally.performResult_ok.mpr ⟨[], hm, rfl, hnone, hv⟩
  have hready (phase : Phase) : t.requireReady phase = .ok () := Tally.requireReady_ok.mpr hr
  cases h with
  | result hw =>
    obtain rfl := Option.some.inj hi
    exact consult_ok.mpr ⟨t, ht, PassM.map_ok.mpr
      ⟨v, Tally.result_ok.mpr ⟨hw, hready _, hresult⟩, rfl⟩, rfl⟩
  | resultAt hf =>
    obtain rfl := Option.some.inj hi
    exact consult_ok.mpr ⟨t, ht, PassM.map_ok.mpr
      ⟨v, Tally.resultAt_ok.mpr ⟨hready _, hf, hresult⟩, rfl⟩, rfl⟩

/-! ## Asking again -/

/-- Statements that write none of the slots an expression reads do not change its value. -/
theorem eval_of_not_written {S : SlotId → Prop} {v : Expr} (hv : v.Within S fun _ => False)
    (env : Env) (st : Store) {ss : List Stmt} (hss : ∀ s ∈ Stmt.writtenAll ss, ¬ S s) :
    v.eval env (Stmt.runAll env st ss).1 = v.eval env st := by
  have hagree : (Stmt.runAll env st ss).1.Agree S (fun _ => False) st := by
    refine ⟨fun s hs => ?_, fun x hx => hx.elim⟩
    exact Stmt.runAll_slots_of_not_mem env st s ss fun hw => hss s hw hs
  exact v.eval_agree env hagree hv.slots hv.locals

/-- The statements that come with a result write no slot.  With a builtin function there are none,
the same expression is given however often the call is asked, and it evaluates to the same until
a slot of the call is written; only without the slot check must it be asked of frames and
arguments that they read no slot of another call. -/
theorem asking_changes_nothing {r : Reply} (hi : i.asks? = some u)
    (h : w.step i = (w', .ok r)) :
    ∃ v ss, r = .value v ∧ w'.pass.draft.stmts = w.pass.draft.stmts ++ ss ∧
      (∀ env st, (Stmt.runAll env st ss).1.slots = st.slots) ∧
      ∀ t b, w.tallies[u]? = some t → t.aggregate = Builtin.aggregate b →
        w' = w ∧
        (∀ is es w₂, w.record is = .ok (es, w₂) → w₂.step i = (w₂, .ok (.value v))) ∧
        (i.InputsWithin (fun s => w.pass.config.checkSlots = true ∨ w.Owns u s)
            (fun _ => False) →
          ∀ env st between, (∀ s ∈ Stmt.writtenAll between, ¬ w.Owns u s) →
            v.eval env (Stmt.runAll env st between).1 = v.eval env st) := by
  obtain ⟨t, m, ss, v, p, ht, hr, hy, hm, hro, hv, hreply, hss, rfl⟩ :=
    (takes_of_step h).yields (e := ⟨i, _, r⟩) hi
  refine ⟨v, ss, hreply, (Pass.emit_ok hm).2.draft.stmts, ?_, ?_⟩
  · intro env st
    funext s
    apply Stmt.runAll_slots_of_not_mem
    simp [written_of_checkReadOnly hro]
  intro t' b ht' hb
  obtain rfl : t = t' := Option.some.inj (ht.symm.trans ht')
  obtain ⟨houtcome, hagain, _, rfl⟩ := hy.answers hb hm
  refine ⟨rfl, ?_, ?_⟩
  · intro is es w₂ hrecord
    obtain ⟨hconfig, t₂, ht₂, hbecomes⟩ := record_becomes hrecord ht
    refine (hy.becomes hbecomes hconfig).step hi ht₂ (hbecomes.ready hr) (hagain _) ?_
    rw [Tally.checkSlots_congr hbecomes.site, hconfig, hv]
  · intro hinputs env st between hbetween
    have hwithin := (hy.keeps hb (fun s hs => .inr ((owns_of_tally ht).mpr hs)) hinputs).value 0 v
      (houtcome 0)
    refine eval_of_not_written ⟨?_, hwithin.locals⟩ env st hbetween
    intro s hs
    rcases hwithin.slots s hs with hc | ho
    · rcases Tally.owned_of_checkSlots hc hv s hs with ho | ⟨_, hnone, _⟩
      · exact (owns_of_tally ht).mpr ho
      · simp at hnone
    · exact ho

/-- The last value of a frame of one row, with a count beside it. -/
def lastBesideCount : List Instruction :=
  [.create (.of "last_value" [.int] .int true false) .lastValue,
    .create (.of "count" [] .int false false) .count,
    .openPartition 0 (.constant 0 0 0 1), .reset 1]

/-- What an add of the count comes to, its slot being the third. -/
def countedOnce : List Stmt := [.assign ⟨2⟩ (.add (.slot ⟨2⟩) (.int 1))]

theorem countedOnce_written {s : SlotId} (hs : s ∈ Stmt.writtenAll countedOnce) : s = ⟨2⟩ := by
  simpa [countedOnce, Stmt.writtenAll, Stmt.written] using hs

/-- Reads of the partition are not moved by the count. -/
theorem last_value_beside_count : ∃ es w v w₂,
    (start (.relaxed "agg")).record lastBesideCount = .ok (es, w) ∧
    w.step (.resultAt 0 (.constant 0 0 0 1) (.columns 1)) = (w, .ok (.value v)) ∧
    w.record [.add 1 []] = .ok ([⟨.add 1 [], countedOnce, .done⟩], w₂) ∧
    w₂.step (.resultAt 0 (.constant 0 0 0 1) (.columns 1)) = (w₂, .ok (.value v)) ∧
    ∀ env st, v.eval env (Stmt.runAll env st countedOnce).1 = v.eval env st := by
  have h : ∃ es w w₁ r, (start (.relaxed "agg")).record lastBesideCount = .ok (es, w) ∧
      w.step (.resultAt 0 (.constant 0 0 0 1) (.columns 1)) = (w₁, .ok r) ∧
      (∃ t, w.tallies[0]? = some t ∧ t.aggregate = Builtin.lastValue.aggregate) ∧
      w.Owns 1 ⟨2⟩ ∧
      ∃ w₂, w.record [.add 1 []] = .ok ([⟨.add 1 [], countedOnce, .done⟩], w₂) :=
    ⟨_, _, _, _, rfl, rfl, ⟨_, rfl, rfl⟩, ⟨_, rfl, rfl⟩, _, rfl⟩
  obtain ⟨es, w, w₁, r, hrecord, hstep, ⟨t, ht, hb⟩, hcount, w₂, hadd⟩ := h
  obtain ⟨v, ss, rfl, _, _, hbuiltin⟩ := asking_changes_nothing rfl hstep
  obtain ⟨rfl, hagain, hvalue⟩ := hbuiltin t .lastValue ht hb
  refine ⟨es, w₁, v, w₂, hrecord, hstep, hadd, hagain _ _ _ hadd, ?_⟩
  intro env st
  refine hvalue ⟨Frame.constant_within _ _ _ _, RowArguments.columns_within _⟩ env st _ ?_
  intro s hs ho
  obtain rfl := countedOnce_written hs
  have hother := (record_apart hrecord).unique 0 1 _ ho hcount
  exact Nat.zero_ne_one hother

/-- Without the slot check the arguments may read the count's slot.  The last value is then asked
for twice with an add of the count in between, which writes no slot of its own, and comes to
different values. -/
theorem answer_follows_another_call :
    let ask := Instruction.resultAt 0 (.constant 0 0 0 1) (.total fun _ => [.slot ⟨2⟩])
    ask.InputsWithin (fun _ => True) (fun _ => False) ∧
    ∃ es w v w₂ st, (start (.relaxed "agg")).record lastBesideCount = .ok (es, w) ∧
      w.record [ask, .add 1 [], ask] =
        .ok ([⟨ask, [], .value v⟩, ⟨.add 1 [], countedOnce, .done⟩, ⟨ask, [], .value v⟩], w₂) ∧
      (∀ s ∈ Stmt.writtenAll countedOnce, ¬ w₂.Owns 0 s) ∧
      Stmt.runAll ⟨[], none⟩ .fresh w.pass.draft.stmts = (st, .ok ()) ∧
      v.eval ⟨[], none⟩ st = .ok (.int 0) ∧
      v.eval ⟨[], none⟩ (Stmt.runAll ⟨[], none⟩ st countedOnce).1 = .ok (.int 1) := by
  intro ask
  constructor
  · refine ⟨Frame.constant_within _ _ _ _, ?_⟩
    intro row args _ hargs v hv
    obtain rfl : [Expr.slot ⟨2⟩] = args := Except.ok.inj hargs
    rw [List.mem_singleton.mp hv]
    exact .slot trivial
  · refine ⟨_, _, _, _, _, rfl, rfl, ?_, rfl, rfl, rfl⟩
    intro s hs ho
    obtain rfl := countedOnce_written hs
    obtain ⟨a, ha, hs⟩ := ho
    cases ha
    cases hs

end Workspace
end WindowFold
