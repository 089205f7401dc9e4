import WindowFold.Pass.Workspace
import WindowFold.Proofs.Pass.Names

/-!
# Records of a pass

A record follows instructions for as long as they succeed and notes for each what it emitted and
what it answered.  `Takes` says everything that a successful instruction can do
(`takes_of_step`), and the block is the concatenation of what the entries emitted
(`record_stmts`).  Properties of all runs of a pass are inductions over a record with one case
for each form of `Takes`.
-/

namespace WindowFold

namespace Instruction

/-- The call whose phase it is. -/
def call? : Instruction → Option Nat
  | .reset u | .add u _ | .merge u _ | .result u | .warmUp u _ | .openPartition u _
  | .addRow u _ _ | .resultAt u _ _ => some u
  | .create _ _ | .warmUpAll _ | .bind _ _ | .emit _ => none

/-- The call that it resets, on whichever occasion. -/
def opens? : Instruction → Option Nat
  | .reset u | .warmUp u _ | .openPartition u _ => some u
  | _ => none

end Instruction

/-- An instruction that succeeded, what it emitted and what it answered. -/
structure Entry where
  instruction : Instruction
  emitted : List Stmt
  reply : Reply

def Entry.value? (e : Entry) : Option Expr :=
  match e.reply with
  | .value v => some v
  | _ => none

def emittedBy (es : List Entry) : List Stmt := es.flatMap Entry.emitted

/-- An item is the last one, or it was there before. -/
theorem snoc_eq_append_cons {α : Type} {es before after : List α} {e x : α}
    (h : es ++ [e] = before ++ x :: after) :
    (es = before ∧ e = x ∧ after = []) ∨
      ∃ after', after = after' ++ [e] ∧ es = before ++ x :: after' := by
  rcases List.eq_nil_or_concat after with rfl | ⟨after', y, rfl⟩
  · obtain ⟨hes, hx⟩ := List.append_inj' h rfl
    rw [List.cons.injEq] at hx
    exact .inl ⟨hes, hx.1, rfl⟩
  · rw [List.concat_eq_append, ← List.cons_append, ← List.append_assoc] at h
    obtain ⟨hes, hy⟩ := List.append_inj' h rfl
    rw [List.cons.injEq] at hy
    exact .inr ⟨after', by rw [List.concat_eq_append, hy.1], hes⟩

namespace Tally

/-- What a reset emits on its occasion. -/
def opening (t : Tally) : Instruction → Emission Unit
  | .warmUp _ hint => t.aggregate.openWindow t.site (.warmUp hint)
  | .openPartition _ f => t.aggregate.openWindow t.site (.partition f)
  | _ => t.aggregate.reset t.site

def openingGuard (t : Tally) (config : Config) : Instruction → Except EmitError Unit
  | .warmUp _ _ => t.requireCold
  | .openPartition _ f => checkFrame config f
  | _ => t.refuseWindowOnly

/-- The call after it has been reset. -/
def opened (t : Tally) : Instruction → Tally
  | .warmUp _ _ => { t with ready := true, warmedUp := true }
  | .openPartition _ _ => { t with ready := true, partitionSeen := true }
  | _ => { t with ready := true }

@[simp] theorem opened_ready (t : Tally) (i : Instruction) : (t.opened i).ready = true := by
  cases i <;> rfl

@[simp] theorem opened_accumulator (t : Tally) (i : Instruction) :
    (t.opened i).accumulator = t.accumulator := by
  cases i <;> rfl

@[simp] theorem opened_signature (t : Tally) (i : Instruction) :
    (t.opened i).signature = t.signature := by
  cases i <;> rfl

@[simp] theorem opened_aggregate (t : Tally) (i : Instruction) :
    (t.opened i).aggregate = t.aggregate := by
  cases i <;> rfl

end Tally

namespace Workspace

/-- Follow instructions, noting what each of them did. -/
def record (w : Workspace) : List Instruction → Except EmitError (List Entry × Workspace)
  | [] => .ok ([], w)
  | i :: rest =>
    match w.step i with
    | (_, .error e) => .error e
    | (w', .ok r) =>
      match w'.record rest with
      | .error e => .error e
      | .ok (es, w'') => .ok (⟨i, w'.pass.draft.since w.pass.draft.stmts.length, r⟩ :: es, w'')

/-- Follow all instructions, those that fail being passed over, and note what came of each. -/
def attempts (w : Workspace) : List Instruction → List (Except EmitError Reply) × Workspace
  | [] => ([], w)
  | i :: rest =>
    let (w', r) := w.step i
    let (rs, w'') := w'.attempts rest
    (r :: rs, w'')

/-! ## What an instruction can do -/

/-- An add or a merge of a call that is ready: the accumulator merged in, and what is emitted. -/
inductive Updates (w : Workspace) (t : Tally) :
    Instruction → Option Accumulator → Emission Unit → Prop
  | add {u args} (hw : t.refuseWindowOnly = .ok ()) (ha : t.requireArity args.length = .ok ()) :
      Updates w t (.add u args) none (t.aggregate.add t.site args)
  | addRow {u f rows args} (hf : Tally.checkFrame w.pass.config f = .ok ())
      (ha : (t.site.window f rows).argumentsAt f.currentRow = .ok args) :
      Updates w t (.addRow u f rows) none (t.aggregate.addRow t.site (t.site.window f rows) args)
  | merge {u v other} (hw : t.refuseWindowOnly = .ok ()) (hv : w.tallies[v]? = some other)
      (hm : t.requireMergeable other = .ok ()) :
      Updates w t (.merge u v) (some other.accumulator)
        (t.aggregate.merge t.site other.accumulator)

inductive Yields (w : Workspace) (t : Tally) : Instruction → Emission Expr → Prop
  | result {u} (hw : t.refuseWindowOnly = .ok ()) :
      Yields w t (.result u) (t.aggregate.result t.site)
  | resultAt {u f rows} (hf : Tally.checkFrame w.pass.config f = .ok ()) :
      Yields w t (.resultAt u f rows) (t.aggregate.resultAt t.site (t.site.window f rows))

/-- What an instruction that succeeds does to a workspace. -/
inductive Takes (w : Workspace) : Entry → Workspace → Prop
  | created {s agg t p} (h : Tally.create s agg w.pass = .ok t p) :
      Takes w ⟨.create s agg, [], .done⟩ ⟨p, w.tallies ++ [t]⟩
  | opened {i u t ss p} (hi : i.opens? = some u) (ht : w.tallies[u]? = some t)
      (hg : t.openingGuard w.pass.config i = .ok ())
      (hm : Pass.emit (t.opening i) w.pass = .ok (ss, ()) p)
      (hs : t.checkSlots w.pass.config none (Stmt.touchedAll ss) = .ok ())
      (hc : t.checkComplete w.pass.config ss = .ok ()) :
      Takes w ⟨i, ss, .done⟩ ⟨p, w.tallies.set u (t.opened i)⟩
  | updated {i u t o m ss p} (hi : i.call? = some u) (ht : w.tallies[u]? = some t)
      (hr : t.ready = true) (hu : w.Updates t i o m)
      (hm : Pass.emit m w.pass = .ok (ss, ()) p)
      (hs : t.checkSlots w.pass.config o (Stmt.touchedAll ss) = .ok ()) :
      Takes w ⟨i, ss, .done⟩ ⟨p, w.tallies⟩
  | yielded {i u t m ss v p} (hi : i.call? = some u) (ht : w.tallies[u]? = some t)
      (hr : t.ready = true) (hu : w.Yields t i m)
      (hm : Pass.emit m w.pass = .ok (ss, v) p)
      (hw : t.checkReadOnly ss = .ok ())
      (hs : t.checkSlots w.pass.config none (Stmt.touchedAll ss) = .ok ())
      (hv : t.checkSlots w.pass.config none v.slots = .ok ()) :
      Takes w ⟨i, ss, .value v⟩ ⟨p, w.tallies⟩
  | bound {name v x p} (h : Pass.bind name v w.pass = .ok x p) :
      Takes w ⟨.bind name v, [.declare x.id x.name v], .bound x⟩ ⟨p, w.tallies⟩
  | warmed {hint ts ss p} (h : Tally.warmUpAll hint w.pass w.tallies = (ts, p, .ok ()))
      (hs : w.pass.Emits ss p) :
      Takes w ⟨.warmUpAll hint, ss, .done⟩ ⟨p, ts⟩
  | emitted {ops ss p} (hm : Pass.emit (.ofOps ops) w.pass = .ok (ss, ()) p) :
      Takes w ⟨.emit ops, ss, .done⟩ ⟨p, w.tallies⟩

theorem act_ok {w w' : Workspace} {m : PassM Reply} {r : Reply} :
    w.act m = (w', .ok r) ↔ m w.pass = .ok r w'.pass ∧ w'.tallies = w.tallies := by
  unfold act
  obtain ⟨p', ts'⟩ := w'
  cases m w.pass with
  | ok a p =>
    simp only [Prod.mk.injEq, mk.injEq, Except.ok.injEq, EStateM.Result.ok.injEq]
    grind
  | error e p => simp

theorem update_ok {w w' : Workspace} {u : Nat} {phase : Tally → PassM Tally} {r : Reply} :
    w.update u phase = (w', .ok r) ↔ ∃ t t', w.tallies[u]? = some t ∧
      phase t w.pass = .ok t' w'.pass ∧ w'.tallies = w.tallies.set u t' ∧ r = .done := by
  obtain ⟨p', ts'⟩ := w'
  constructor
  · intro h
    unfold update at h
    split at h
    · simp at h
    · rename_i t ht
      split at h
      · rename_i t' p hp
        simp only [Prod.mk.injEq, mk.injEq, Except.ok.injEq] at h
        obtain ⟨⟨rfl, rfl⟩, rfl⟩ := h
        exact ⟨t, t', ht, hp, rfl, rfl⟩
      · simp at h
  · intro h
    obtain ⟨t, t', ht, hp, hts, rfl⟩ := h
    simp only at hp hts
    simp [update, ht, hp, hts]

theorem consult_ok {w w' : Workspace} {u : Nat} {phase : Tally → PassM Reply} {r : Reply} :
    w.consult u phase = (w', .ok r) ↔ ∃ t, w.tallies[u]? = some t ∧
      phase t w.pass = .ok r w'.pass ∧ w'.tallies = w.tallies := by
  unfold consult
  cases w.tallies[u]? with
  | none => simp
  | some t => simp [act_ok]

theorem warmUpAll_emits {hint : Expr} {p p' : Pass} {ts ts' : List Tally}
    (h : Tally.warmUpAll hint p ts = (ts', p', .ok ())) : ∃ ss, p.Emits ss p' := by
  induction ts generalizing p ts' with
  | nil =>
    simp only [Tally.warmUpAll, Prod.mk.injEq] at h
    obtain ⟨_, rfl, _⟩ := h
    exact ⟨[], .refl _, rfl, rfl⟩
  | cons t rest ih =>
    simp only [Tally.warmUpAll] at h
    cases hw : t.warmUp hint p with
    | error e q => simp [hw] at h
    | ok t₁ q =>
      simp only [hw, Prod.mk.injEq] at h
      obtain ⟨b, hb⟩ := ih (Prod.ext rfl (Prod.ext h.2.1 h.2.2))
      obtain ⟨_, hreset, _⟩ := Tally.warmUp_ok.mp hw
      obtain ⟨a, hm, _, _⟩ := Tally.performReset_ok.mp hreset
      have ha := (Pass.emit_ok hm).2
      exact ⟨a ++ b, ha.draft.trans hb.draft, hb.config.trans ha.config,
        hb.bindings.trans ha.bindings⟩

/-- Every form of success, with the guards it has passed. -/
theorem takes_of_step {w w' : Workspace} {i : Instruction} {r : Reply}
    (h : w.step i = (w', .ok r)) :
    w.Takes ⟨i, w'.pass.draft.since w.pass.draft.stmts.length, r⟩ w' := by
  obtain ⟨p', ts'⟩ := w'
  cases i with
  | create s agg =>
    simp only [step] at h
    cases hc : Tally.create s agg w.pass with
    | error e p => simp [hc] at h
    | ok t p =>
      simp only [hc, Prod.mk.injEq, mk.injEq, Except.ok.injEq] at h
      obtain ⟨⟨rfl, rfl⟩, rfl⟩ := h
      have hstmts : p.draft.stmts = w.pass.draft.stmts := (Tally.create_ok.mp hc).2.1
      simpa [Draft.since, hstmts] using Takes.created hc
  | reset u =>
    obtain ⟨t, t', ht, hp, rfl, rfl⟩ := update_ok.mp h
    obtain ⟨hg, hp, rfl⟩ := Tally.reset_ok.mp hp
    obtain ⟨ss, hm, hs, hc⟩ := Tally.performReset_ok.mp hp
    rw [(Pass.emit_ok hm).2.draft.since]
    exact Takes.opened rfl ht hg hm hs hc
  | warmUp u hint =>
    obtain ⟨t, t', ht, hp, rfl, rfl⟩ := update_ok.mp h
    obtain ⟨hg, hp, rfl⟩ := Tally.warmUp_ok.mp hp
    obtain ⟨ss, hm, hs, hc⟩ := Tally.performReset_ok.mp hp
    rw [(Pass.emit_ok hm).2.draft.since]
    exact Takes.opened rfl ht hg hm hs hc
  | openPartition u f =>
    obtain ⟨t, t', ht, hp, rfl, rfl⟩ := update_ok.mp h
    obtain ⟨hg, hp, rfl⟩ := Tally.openPartition_ok.mp hp
    obtain ⟨ss, hm, hs, hc⟩ := Tally.performReset_ok.mp hp
    rw [(Pass.emit_ok hm).2.draft.since]
    exact Takes.opened rfl ht hg hm hs hc
  | add u args =>
    obtain ⟨t, ht, hp, rfl⟩ := consult_ok.mp h
    obtain ⟨hq, rfl⟩ := PassM.then_pure_ok.mp hp
    obtain ⟨hw, hr, ha, hp⟩ := Tally.add_ok.mp hq
    obtain ⟨ss, hm, hs⟩ := Tally.performUpdate_ok.mp hp
    rw [(Pass.emit_ok hm).2.draft.since]
    exact Takes.updated rfl ht (Tally.requireReady_ok.mp hr) (.add hw ha) hm hs
  | addRow u f rows =>
    obtain ⟨t, ht, hp, rfl⟩ := consult_ok.mp h
    obtain ⟨hq, rfl⟩ := PassM.then_pure_ok.mp hp
    obtain ⟨hr, hf, args, ha, hp⟩ := Tally.addRow_ok.mp hq
    obtain ⟨ss, hm, hs⟩ := Tally.performUpdate_ok.mp hp
    rw [(Pass.emit_ok hm).2.draft.since]
    exact Takes.updated rfl ht (Tally.requireReady_ok.mp hr) (.addRow hf ha) hm hs
  | merge u v =>
    simp only [step] at h
    split at h
    · simp at h
    · rename_i other hv
      obtain ⟨t, ht, hp, rfl⟩ := consult_ok.mp h
      obtain ⟨hq, rfl⟩ := PassM.then_pure_ok.mp hp
      obtain ⟨hw, hr, ho, hp⟩ := Tally.merge_ok.mp hq
      obtain ⟨ss, hm, hs⟩ := Tally.performUpdate_ok.mp hp
      rw [(Pass.emit_ok hm).2.draft.since]
      exact Takes.updated rfl ht (Tally.requireReady_ok.mp hr) (.merge hw hv ho) hm hs
  | result u =>
    obtain ⟨t, ht, hp, rfl⟩ := consult_ok.mp h
    obtain ⟨v, hq, rfl⟩ := PassM.map_ok.mp hp
    obtain ⟨hw, hr, hp⟩ := Tally.result_ok.mp hq
    obtain ⟨ss, hm, hro, hs, hv⟩ := Tally.performResult_ok.mp hp
    rw [(Pass.emit_ok hm).2.draft.since]
    exact Takes.yielded rfl ht (Tally.requireReady_ok.mp hr) (.result hw) hm hro hs hv
  | resultAt u f rows =>
    obtain ⟨t, ht, hp, rfl⟩ := consult_ok.mp h
    obtain ⟨v, hq, rfl⟩ := PassM.map_ok.mp hp
    obtain ⟨hr, hf, hp⟩ := Tally.resultAt_ok.mp hq
    obtain ⟨ss, hm, hro, hs, hv⟩ := Tally.performResult_ok.mp hp
    rw [(Pass.emit_ok hm).2.draft.since]
    exact Takes.yielded rfl ht (Tally.requireReady_ok.mp hr) (.resultAt hf) hm hro hs hv
  | bind name v =>
    obtain ⟨hp, rfl⟩ := act_ok.mp h
    obtain ⟨x, hq, rfl⟩ := PassM.map_ok.mp hp
    rw [(Pass.bind_ok hq).1.since]
    exact Takes.bound hq
  | warmUpAll hint =>
    simp only [step] at h
    generalize hw : Tally.warmUpAll hint w.pass w.tallies = out at h
    obtain ⟨ts, p, res⟩ := out
    cases res with
    | error e => simp [Except.map] at h
    | ok a =>
      simp only [Except.map, Prod.mk.injEq, mk.injEq, Except.ok.injEq] at h
      obtain ⟨⟨rfl, rfl⟩, rfl⟩ := h
      obtain ⟨ss, hs⟩ := warmUpAll_emits hw
      rw [hs.draft.since]
      exact Takes.warmed hw hs
  | emit ops =>
    obtain ⟨hp, rfl⟩ := act_ok.mp h
    obtain ⟨⟨ss, a⟩, q, hm, hq⟩ := PassM.bind_ok.mp hp
    obtain ⟨rfl, rfl⟩ := PassM.pure_ok.mp hq
    rw [(Pass.emit_ok hm).2.draft.since]
    exact Takes.emitted hm

/-! ## Binding a result -/

section

variable {w : Workspace}

theorem step_bind_valid {name : String} (h : validName (w.pass.bindingName name) = true)
    (v : Expr) : w.step (.bind name v) =
      (⟨w.pass.declared (w.pass.nextLocal name) v, w.tallies⟩,
        .ok (.bound (w.pass.nextLocal name))) :=
  act_ok.mpr ⟨PassM.map_ok.mpr ⟨_, Pass.bind_valid h v, rfl⟩, rfl⟩

theorem step_bind_refused {name : String} (h : validName (w.pass.bindingName name) = false)
    (v : Expr) : w.step (.bind name v) =
      (⟨{ w.pass with bindings := w.pass.bindings + 1 }, w.tallies⟩,
        .error (.invalidName (w.pass.bindingName name))) := by
  simp only [step, act, Functor.map, EStateM.map, Pass.bind_refused h v]

/-- What comes of binding a result, whether or not the name is refused. -/
structure Binding (w : Workspace) (name : String) (v : Expr) (w' : Workspace) : Prop where
  tallies : w'.tallies = w.tallies
  config : w'.pass.config = w.pass.config
  slotCount : w'.pass.draft.slotCount = w.pass.draft.slotCount
  stmts : w'.pass.draft.stmts = w.pass.draft.stmts ++ w.pass.bindCode name v
  declared : w'.pass.draft.declared.length =
    w.pass.draft.declared.length + if validName (w.pass.bindingName name) then 1 else 0

theorem step_bind (w : Workspace) (name : String) (v : Expr) :
    Binding w name v (w.step (.bind name v)).1 := by
  cases hname : validName (w.pass.bindingName name) with
  | true =>
    rw [step_bind_valid hname]
    refine ⟨rfl, rfl, rfl, ?_, ?_⟩
    · rw [Pass.bindCode, if_pos hname]
      rfl
    · rw [if_pos hname]
      exact List.length_append
  | false =>
    have hfalse : ¬validName (w.pass.bindingName name) = true := Bool.eq_false_iff.mp hname
    rw [step_bind_refused hname]
    refine ⟨rfl, rfl, rfl, ?_, (if_neg hfalse).symm ▸ rfl⟩
    rw [Pass.bindCode, if_neg hfalse, List.append_nil]

/-- The local that a result has been bound to. -/
theorem bound_of_step {name : String} {v : Expr} {x : Local}
    (h : (w.step (.bind name v)).2 = .ok (.bound x)) :
    validName (w.pass.bindingName name) = true ∧ x = w.pass.nextLocal name := by
  cases hname : validName (w.pass.bindingName name) with
  | true =>
    rw [step_bind_valid hname] at h
    exact ⟨rfl, (Reply.bound.inj (Except.ok.inj h)).symm⟩
  | false =>
    rw [step_bind_refused hname] at h
    cases h

end

/-! ## Runs of instructions -/

theorem record_cons_ok {w w'' : Workspace} {i : Instruction} {is : List Instruction}
    {es : List Entry} : w.record (i :: is) = .ok (es, w'') ↔
      ∃ w' r es', w.step i = (w', .ok r) ∧ w'.record is = .ok (es', w'') ∧
        es = ⟨i, w'.pass.draft.since w.pass.draft.stmts.length, r⟩ :: es' := by
  constructor
  · intro h
    simp only [record] at h
    split at h
    · simp at h
    · rename_i w' r hs
      split at h
      · simp at h
      · rename_i es' w₂ hr
        simp only [Except.ok.injEq, Prod.mk.injEq] at h
        obtain ⟨rfl, rfl⟩ := h
        exact ⟨w', r, es', hs, hr, rfl⟩
  · intro h
    obtain ⟨w', r, es', hs, hr, rfl⟩ := h
    simp [record, hs, hr]

/-- Instructions that follow others start where those end. -/
theorem attempts_append (w : Workspace) (is is' : List Instruction) :
    w.attempts (is ++ is') = ((w.attempts is).1 ++ ((w.attempts is).2.attempts is').1,
      ((w.attempts is).2.attempts is').2) := by
  induction is generalizing w with
  | nil => rfl
  | cons i rest ih =>
    simp only [List.cons_append, attempts, ih]

theorem attempts_singleton {w w' : Workspace} {i : Instruction} {r : Except EmitError Reply}
    (h : w.step i = (w', r)) : w.attempts [i] = ([r], w') := by
  simp only [attempts, h]

theorem attempts_length (w : Workspace) (is : List Instruction) :
    (w.attempts is).1.length = is.length := by
  induction is generalizing w with
  | nil => rfl
  | cons i rest ih => exact congrArg (· + 1) (ih _)

/-- What holds at the start and is kept by every form of success holds after every record. -/
theorem record_induction {P : List Entry → Workspace → Prop} {w₀ w : Workspace}
    {is : List Instruction} {es : List Entry} (h₀ : P [] w₀)
    (hstep : ∀ es w e w', P es w → w.Takes e w' → P (es ++ [e]) w')
    (h : w₀.record is = .ok (es, w)) : P es w := by
  have key : ∀ (is : List Instruction) (es₀ es : List Entry) (w₁ : Workspace),
      P es₀ w₁ → w₁.record is = .ok (es, w) → P (es₀ ++ es) w := by
    intro is
    induction is with
    | nil =>
      intro es₀ es w₁ hP h
      simp only [record, Except.ok.injEq, Prod.mk.injEq] at h
      obtain ⟨rfl, rfl⟩ := h
      simpa using hP
    | cons i is ih =>
      intro es₀ es w₁ hP h
      obtain ⟨w', r, es', hs, hr, rfl⟩ := record_cons_ok.mp h
      have hnext := ih _ es' w' (hstep _ _ _ _ hP (takes_of_step hs)) hr
      simpa using hnext
  simpa using key is [] es w₀ h₀ h

theorem record_instructions {w₀ w : Workspace} {is : List Instruction} {es : List Entry}
    (h : w₀.record is = .ok (es, w)) : es.map Entry.instruction = is := by
  induction is generalizing w₀ es with
  | nil =>
    simp only [record, Except.ok.injEq, Prod.mk.injEq] at h
    rw [← h.1]
    rfl
  | cons i is ih =>
    obtain ⟨w', r, es', _, hr, rfl⟩ := record_cons_ok.mp h
    rw [List.map_cons, ih hr]

/-- Where only instructions of one kind are followed, the steps are to be shown for these. -/
theorem record_induction_of {P : Instruction → Prop} {Q : List Entry → Workspace → Prop}
    {w₀ w : Workspace} {is : List Instruction} {es : List Entry}
    (h : w₀.record is = .ok (es, w)) (his : ∀ i ∈ is, P i) (h₀ : Q [] w₀)
    (hstep : ∀ es w e w', Q es w → w.Takes e w' → P e.instruction → Q (es ++ [e]) w') :
    Q es w := by
  have hes : ∀ e ∈ es, P e.instruction := by
    intro e he
    apply his
    rw [← record_instructions h]
    exact List.mem_map_of_mem he
  refine record_induction (P := fun es w => (∀ e ∈ es, P e.instruction) → Q es w) (fun _ => h₀)
    ?_ h hes
  intro es w e w' ih htakes hes
  exact hstep es w e w' (ih fun x hx => hes x (List.mem_append_left _ hx)) htakes
    (hes e (by simp))

theorem Takes.stmts {w w' : Workspace} {e : Entry} (h : w.Takes e w') :
    w'.pass.draft.stmts = w.pass.draft.stmts ++ e.emitted := by
  cases h with
  | created h => simp [(Tally.create_ok.mp h).2.1]
  | opened _ _ _ hm _ _ => exact (Pass.emit_ok hm).2.draft.stmts
  | updated _ _ _ _ hm _ => exact (Pass.emit_ok hm).2.draft.stmts
  | yielded _ _ _ _ hm _ _ _ => exact (Pass.emit_ok hm).2.draft.stmts
  | bound h => exact (Pass.bind_ok h).1.stmts
  | warmed _ hs => exact hs.draft.stmts
  | emitted hm => exact (Pass.emit_ok hm).2.draft.stmts

theorem Takes.config {w w' : Workspace} {e : Entry} (h : w.Takes e w') :
    w'.pass.config = w.pass.config := by
  cases h with
  | created h => rw [(Tally.create_ok.mp h).2.2]
  | opened _ _ _ hm _ _ => exact (Pass.emit_ok hm).2.config
  | updated _ _ _ _ hm _ => exact (Pass.emit_ok hm).2.config
  | yielded _ _ _ _ hm _ _ _ => exact (Pass.emit_ok hm).2.config
  | bound h => exact (Pass.bind_ok h).2.1
  | warmed _ hs => exact hs.config
  | emitted hm => exact (Pass.emit_ok hm).2.config

theorem emittedBy_append (a b : List Entry) : emittedBy (a ++ b) = emittedBy a ++ emittedBy b := by
  simp [emittedBy]

/-- The block grows by what the entries emit, one after the other. -/
theorem record_extends {w₀ w : Workspace} {is : List Instruction} {es : List Entry}
    (h : w₀.record is = .ok (es, w)) :
    w.pass.draft.stmts = w₀.pass.draft.stmts ++ emittedBy es := by
  refine record_induction
    (P := fun es w => w.pass.draft.stmts = w₀.pass.draft.stmts ++ emittedBy es)
    (List.append_nil _).symm ?_ h
  intro es w e w' hw ht
  rw [ht.stmts, hw, emittedBy_append, List.append_assoc]
  simp [emittedBy]

theorem record_stmts {config : Config} {w : Workspace} {is : List Instruction} {es : List Entry}
    (h : (start config).record is = .ok (es, w)) : w.pass.draft.stmts = emittedBy es :=
  record_extends h

theorem record_config {config : Config} {w : Workspace} {is : List Instruction} {es : List Entry}
    (h : (start config).record is = .ok (es, w)) : w.pass.config = config := by
  refine record_induction (P := fun _ w => w.pass.config = config) rfl ?_ h
  intro es w e w' hw ht
  exact ht.config.trans hw

/-! ## Calls keep their slots -/

theorem warmUpAll_accumulators (hint : Expr) (p : Pass) (ts : List Tally) :
    (Tally.warmUpAll hint p ts).1.map Tally.accumulator = ts.map Tally.accumulator := by
  induction ts generalizing p with
  | nil => rfl
  | cons t rest ih =>
    cases h : t.warmUp hint p with
    | error e q => simp only [Tally.warmUpAll, h]
    | ok t' q =>
      obtain ⟨_, _, rfl⟩ := Tally.warmUp_ok.mp h
      simp only [Tally.warmUpAll, h, List.map_cons, ih]

theorem accumulators_set {w : Workspace} {u : Nat} {t t' : Tally} (ht : w.tallies[u]? = some t)
    (ha : t'.accumulator = t.accumulator) :
    (w.tallies.set u t').map Tally.accumulator = w.tallies.map Tally.accumulator := by
  rw [List.map_set, ha]
  apply List.ext_getElem?
  intro k
  rw [List.getElem?_set]
  by_cases hk : u = k
  · subst hk
    obtain ⟨hlt, hget⟩ := List.getElem?_eq_some_iff.mp ht
    simp [hlt, hget]
  · rw [if_neg hk]

/-- A new call comes behind those there are; nothing else ever changes the slots of a call. -/
theorem Takes.accumulators {w w' : Workspace} {e : Entry} (h : w.Takes e w') :
    w'.tallies.map Tally.accumulator = w.tallies.map Tally.accumulator ∨
      ∃ s agg t, Tally.create s agg w.pass = .ok t w'.pass ∧
        w'.tallies.map Tally.accumulator = w.tallies.map Tally.accumulator ++ [t.accumulator] := by
  cases h with
  | created h => exact .inr ⟨_, _, _, h, by simp⟩
  | opened _ ht _ _ _ _ => exact .inl (accumulators_set ht (Tally.opened_accumulator _ _))
  | updated => exact .inl rfl
  | yielded => exact .inl rfl
  | bound => exact .inl rfl
  | @warmed hint ts ss p h _ =>
    have haccumulators := warmUpAll_accumulators hint w.pass w.tallies
    rw [h] at haccumulators
    exact .inl haccumulators
  | emitted => exact .inl rfl

end Workspace
end WindowFold
