import WindowFold.Proofs.Builtin.Codes
import WindowFold.Proofs.Workspace.Lifecycle

/-!
# Builtin calls refuse cleanly

A phase of a builtin call that fails has been refused: its error is about what was asked for, and
it comes before anything has happened to the pass or to the call (`refused_cleanly`).  The checks
made on emitted code never have anything to say about a builtin function, as long as no frame,
argument or hint that it is given reads a slot.

`PassM.Refuses` follows an action guard by guard.  Behind the last guard stands a phase that is
known to go through.
-/

namespace WindowFold

/-- An error by which the call of that name refuses what it is asked for. -/
def EmitError.RefusalOf (name : String) : EmitError → Prop
  | .windowOnly n | .outOfOrder n _ _ | .argumentCount n _ _ | .mergeMismatch n _ _
  | .unsupported n _ => n = name
  | .invalidFrame _ => True
  | _ => False

/-- Nothing that the instruction brings along reads a slot, and the arguments of a window can be
told for every row. -/
def Instruction.SlotFree : Instruction → Prop
  | .add _ args => ∀ v ∈ args, v.slots = []
  | .warmUp _ hint => hint.slots = []
  | .openPartition _ f => f.SlotFree
  | .addRow _ f rows | .resultAt _ f rows => f.SlotFree ∧ ∃ args, rows = .total args ∧
      ∀ row, row.slots = [] → ∀ v ∈ args row, v.slots = []
  | _ => True

/-! ## Actions that refuse -/

namespace PassM

variable {α β : Type} {E : EmitError → Prop} {m : PassM α} {p q : Pass}

/-- If the action fails on the pass, it leaves the pass as it was. -/
def Refuses (E : EmitError → Prop) (m : PassM α) (p : Pass) : Prop :=
  ∀ e q, m p = .error e q → E e ∧ q = p

theorem Refuses.of_ok {a : α} (h : m p = .ok a q) : m.Refuses E p := by
  intro e q' he
  rw [h] at he
  cases he

theorem Refuses.of_error {e : EmitError} (h : m p = .error e p) (he : E e) : m.Refuses E p := by
  intro e' q' he'
  rw [h] at he'
  cases he'
  exact ⟨he, rfl⟩

theorem Refuses.then_pure {m : PassM Unit} (h : m.Refuses E p) (b : β) :
    (m >>= fun _ => pure b).Refuses E p := by
  intro e q he
  cases hm : m p with
  | ok a q' =>
    simp only [bind, EStateM.bind, hm] at he
    cases he
  | error e' q' =>
    rw [bind_error hm] at he
    cases he
    exact h e q hm

theorem Refuses.map (h : m.Refuses E p) (f : α → β) : (f <$> m).Refuses E p := by
  intro e q he
  cases hm : m p with
  | ok a q' =>
    simp only [Functor.map, EStateM.map, hm] at he
    cases he
  | error e' q' =>
    rw [map_error hm] at he
    cases he
    exact h e q hm

end PassM

theorem Pass.ensure_refuses {α β : Type} {E : EmitError → Prop} {r : Except EmitError α}
    {f : α → PassM β} {p : Pass} (hr : ∀ e, r = .error e → E e)
    (hf : ∀ a, r = .ok a → (f a).Refuses E p) : (Pass.ensure r >>= f).Refuses E p := by
  cases r with
  | ok a => exact hf a rfl
  | error e => exact .of_error (PassM.bind_error rfl f) (hr e rfl)

namespace Workspace

variable {w w' : Workspace} {u : Nat} {t : Tally} {E : EmitError → Prop} {e : EmitError}

theorem update_refuses {phase : Tally → PassM Tally} (ht : w.tallies[u]? = some t)
    (hp : (phase t).Refuses E w.pass) (h : w.update u phase = (w', .error e)) : E e ∧ w' = w := by
  cases hm : phase t w.pass with
  | ok t' p => simp [update, ht, hm] at h
  | error e' p =>
    rw [update_of_error ht hm] at h
    cases h
    obtain ⟨he, rfl⟩ := hp e p hm
    exact ⟨he, rfl⟩

theorem consult_refuses {phase : Tally → PassM Reply} (ht : w.tallies[u]? = some t)
    (hp : (phase t).Refuses E w.pass) (h : w.consult u phase = (w', .error e)) : E e ∧ w' = w := by
  cases hm : phase t w.pass with
  | ok t' p => simp [consult, act, ht, hm] at h
  | error e' p =>
    rw [consult_of_error ht hm] at h
    cases h
    obtain ⟨he, rfl⟩ := hp e p hm
    exact ⟨he, rfl⟩

end Workspace

/-! ## What the guards refuse -/

namespace Tally

variable {t other : Tally} {e : EmitError}

theorem refuseWindowOnly_refusal (h : t.refuseWindowOnly = .error e) :
    e.RefusalOf t.signature.name := by
  unfold refuseWindowOnly at h
  split at h
  · cases h
    rfl
  · simp at h

theorem requireReady_refusal {phase : Phase} (h : t.requireReady phase = .error e) :
    e.RefusalOf t.signature.name := by
  unfold requireReady at h
  split at h
  · simp at h
  · cases h
    rfl

theorem requireArity_refusal {n : Nat} (h : t.requireArity n = .error e) :
    e.RefusalOf t.signature.name := by
  unfold requireArity at h
  split at h
  · simp at h
  · cases h
    rfl

theorem requireCold_refusal (h : t.requireCold = .error e) : e.RefusalOf t.signature.name := by
  unfold requireCold at h
  split_ifs at h <;> cases h <;> rfl

theorem checkFrame_refusal {config : Config} {f : Frame} (h : checkFrame config f = .error e)
    (name : String) : e.RefusalOf name := by
  unfold checkFrame at h
  split at h
  · cases hf : f.check with
    | ok _ => simp [hf, Except.mapError] at h
    | error fault =>
      simp only [hf, Except.mapError] at h
      cases h
      trivial
  · simp at h

/-- Calls of one signature that have as many slots are not refused for their slots. -/
theorem requireMergeable_refusal
    (hsize : other.signature = t.signature → other.accumulator.size = t.accumulator.size)
    (h : t.requireMergeable other = .error e) : e.RefusalOf t.signature.name := by
  unfold requireMergeable at h
  split_ifs at h with hready hsignature hslots
  · cases h
    rfl
  · cases h
    rfl
  · exact (hslots (hsize (not_not.mp hsignature))).elim

end Tally

theorem Site.window_refusal {c : Site} {f : Frame} {args : Expr → List Expr} {row : Expr}
    {e : EmitError} (h : (c.window f (.total args)).argumentsAt row = .error e) :
    e.RefusalOf c.signature.name := by
  simp only [window, RowArguments.total, bind, Except.bind] at h
  split at h
  · simp at h
  · cases h
    rfl

/-- The arguments of a window, when they are told, are as many as the call has. -/
theorem Site.window_told {c : Site} {f : Frame} {args : Expr → List Expr} {row : Expr}
    {told : List Expr} (h : (c.window f (.total args)).argumentsAt row = .ok told) :
    told = args row ∧ told.length = c.signature.arity := by
  simp only [window, RowArguments.total, bind, Except.bind] at h
  split at h
  · rename_i hlen
    cases h
    exact ⟨rfl, hlen⟩
  · simp at h

/-! ## Emissions that refuse -/

namespace Emission

variable {α β : Type} {E : EmitError → Prop}

/-- If there is no value, the error is one of those. -/
def Fails (E : EmitError → Prop) (m : Emission α) : Prop :=
  ∀ n e, m.outcome n = .error e → E e

theorem Fails.pure (a : α) : (Pure.pure a : Emission α).Fails E := by
  intro n e he
  cases he

theorem Fails.fail {e : EmitError} (h : E e) : (Emission.fail e : Emission α).Fails E := by
  intro n e' he
  cases he
  exact h

theorem Fails.ofExcept {r : Except EmitError α} (h : ∀ e, r = .error e → E e) :
    (Emission.ofExcept r).Fails E := fun _ => h

theorem Fails.bind {m : Emission α} {f : α → Emission β} (hm : m.Fails E)
    (hf : ∀ a, (f a).Fails E) : (m >>= f).Fails E := by
  intro n e he
  cases h : m.outcome n with
  | error e' =>
    rw [outcome_bind_error h] at he
    obtain rfl := Except.error.inj he
    exact hm n e' h
  | ok a =>
    rw [outcome_bind_ok h] at he
    exact hf a _ e he

theorem outcome_bind_eq_ok {m : Emission α} {f : α → Emission β} {b : β} {n : Nat} :
    (m >>= f).outcome n = .ok b ↔
      ∃ a, m.outcome n = .ok a ∧ (f a).outcome (m.next n) = .ok b := by
  cases h : m.outcome n with
  | error e => simp [outcome_bind_error h]
  | ok a => simp [outcome_bind_ok h]

end Emission

/-- A result that emits nothing and reads slots of the call passes the checks. -/
theorem Tally.performResult_refuses {t : Tally} {p : Pass} {E : EmitError → Prop}
    {m : Emission Expr} {Q : Expr → Prop} (hquiet : m.Keeps (fun _ => False) Q) (hm : m.Fails E)
    (hown : ∀ n v, m.outcome n = .ok v → ∀ x ∈ v.slots, t.accumulator.owns x = true) :
    (t.performResult m).Refuses E p := by
  cases h : m.outcome p.draft.declared.length with
  | error e =>
    refine .of_error (e := e) (PassM.bind_error ?_ _) (hm _ e h)
    simp only [Pass.emit, hquiet.perform_of_no_op, h]
  | ok v =>
    exact .of_ok (performResult_ok.mpr ⟨[], Pass.emit_of_no_op hquiet h p, rfl,
      checkSlots_of_owned (by simp [Stmt.touchedAll]), checkSlots_of_owned (hown _ v h)⟩)

namespace Builtin

variable {b b' : Builtin} {s s' : Nat → SlotId} {t other : Tally} {p : Pass} {f : Frame}
  {args : Expr → List Expr}

theorem soleArgument_fails {c : Site} (vs : List Expr) :
    (c.soleArgument vs).Fails (EmitError.RefusalOf c.signature.name) := by
  unfold Site.soleArgument
  split
  · exact .pure _
  · exact .fail rfl

theorem argumentsAt_fails {c : Site} (f : Frame) (args : Expr → List Expr) (row : Expr) :
    (Emission.ofExcept ((c.window f (.total args)).argumentsAt row)).Fails
      (EmitError.RefusalOf c.signature.name) :=
  .ofExcept fun _ => Site.window_refusal

/-- A windowed result can only fail for want of arguments. -/
theorem resultAt_fails {c : Site} (h : b.Lays c s) (f : Frame) (args : Expr → List Expr) :
    (b.aggregate.resultAt c (c.window f (.total args))).Fails
      (EmitError.RefusalOf c.signature.name) := by
  have hvalue (row : Expr) : (Aggregate.valueAt c (c.window f (.total args)) row).Fails
      (EmitError.RefusalOf c.signature.name) :=
    .bind (argumentsAt_fails f args row) fun vs => .bind (soleArgument_fails vs) fun _ => .pure _
  have hshifted (name : String) (step : Expr → Expr → Expr) :
      ((Aggregate.shifted name step).resultAt c (c.window f (.total args))).Fails
        (EmitError.RefusalOf c.signature.name) := by
    refine .bind (argumentsAt_fails f args _) fun here => ?_
    refine .bind (argumentsAt_fails f args _) fun there => ?_
    cases there with
    | nil => exact .fail rfl
    | cons v rest => exact .pure _
  cases b with
  | count | sum | avg | min | max | arrayAgg =>
    intro n e he
    have hgives := (result_gives h rfl).outcome n
    cases hgives.symm.trans he
  | firstValue => exact hvalue f.frameStart
  | lastValue => exact hvalue f.frameEnd
  | lag => exact hshifted "lag" .sub
  | lead => exact hshifted "lead" .add
  | rowNumber => exact .pure _

/-- The arguments of a window at a row, if they are told. -/
theorem argumentsAt_ok {c : Site} {row : Expr} {told : List Expr} {n : Nat}
    (h : (Emission.ofExcept ((c.window f (.total args)).argumentsAt row)).outcome n = .ok told) :
    told = args row :=
  (Site.window_told (f := f) h).1

theorem valueAt_ok {c : Site} {row v : Expr} {n : Nat}
    (h : (Aggregate.valueAt c (c.window f (.total args)) row).outcome n = .ok v) :
    v = edgeExpr f args row := by
  obtain ⟨told, htold, h⟩ := Emission.outcome_bind_eq_ok.mp h
  obtain rfl := argumentsAt_ok htold
  obtain ⟨x, hx, h⟩ := Emission.outcome_bind_eq_ok.mp h
  obtain rfl := Except.ok.inj h
  have hsole : args row = [x] := by
    unfold Site.soleArgument at hx
    split at hx
    · rename_i y hy
      rw [hy, Except.ok.inj hx]
    · cases hx
  rw [edgeExpr, hsole]
  rfl

theorem shifted_ok {c : Site} {name : String} {step : Expr → Expr → Expr} {v : Expr}
    {n : Nat}
    (h : ((Aggregate.shifted name step).resultAt c (c.window f (.total args))).outcome n = .ok v) :
    v = shiftedExpr step f args := by
  obtain ⟨here, hhere, h⟩ := Emission.outcome_bind_eq_ok.mp h
  obtain rfl := argumentsAt_ok hhere
  obtain ⟨there, hthere, h⟩ := Emission.outcome_bind_eq_ok.mp h
  have htold : there = args (step f.currentRow ((args f.currentRow)[1]?.getD (.int 1))) :=
    argumentsAt_ok hthere
  cases there with
  | nil => cases h
  | cons x rest =>
    rw [← Except.ok.inj h]
    simp only [shiftedExpr, ← htold]
    rfl

/-- What a windowed result is whenever there is one, whatever the arguments elsewhere. -/
theorem resultAt_ok {c : Site} (h : b.Lays c s) {v : Expr} {n : Nat}
    (hv : (b.aggregate.resultAt c (c.window f (.total args))).outcome n = .ok v) :
    v = windowExpr s b f args := by
  cases b with
  | count | sum | avg | min | max | arrayAgg =>
    exact Except.ok.inj (hv.symm.trans ((result_gives h rfl).outcome n))
  | firstValue | lastValue => exact valueAt_ok hv
  | lag | lead => exact shifted_ok hv
  | rowNumber => exact (Except.ok.inj hv).symm

/-! ## Phases that are refused -/

namespace Call

theorem reset_refuses (h : b.Call s t) :
    t.reset.Refuses (EmitError.RefusalOf t.signature.name) p := by
  refine Pass.ensure_refuses (fun _ => Tally.refuseWindowOnly_refusal) fun _ hopen => ?_
  have hgives := reset_gives h.fits.lays (h.windowOnly_false hopen)
  rw [← h.aggregate] at hgives
  exact .then_pure (.of_ok (h.performReset hgives resetCode_touched resetCode_assigned)) _

theorem warmUp_refuses (h : b.Call s t) {hint : Expr} (hhint : hint.slots = []) :
    (t.warmUp hint).Refuses (EmitError.RefusalOf t.signature.name) p := by
  refine Pass.ensure_refuses (fun _ => Tally.requireCold_refusal) fun _ _ => ?_
  have hgives := open_gives h.fits.lays (.warmUp hint)
  rw [← h.aggregate] at hgives
  exact .then_pure (.of_ok (h.performReset hgives (openCode_touched hhint) (openCode_assigned _))) _

theorem openPartition_refuses (h : b.Call s t) (hf : f.SlotFree) :
    (t.openPartition f).Refuses (EmitError.RefusalOf t.signature.name) p := by
  refine Pass.ensure_refuses (r := Tally.checkFrame p.config f)
    (fun _ he => Tally.checkFrame_refusal he _) fun _ _ => ?_
  have hgives := open_gives h.fits.lays (.partition f)
  rw [← h.aggregate] at hgives
  have hcount : (Opening.partition f).rowCountHint.slots = [] := hf .rowCount
  exact .then_pure (.of_ok (h.performReset hgives (openCode_touched hcount) (openCode_assigned _))) _

theorem add_refuses (h : b.Call s t) {vs : List Expr} (hvs : ∀ v ∈ vs, v.slots = []) :
    (t.add vs).Refuses (EmitError.RefusalOf t.signature.name) p := by
  refine Pass.ensure_refuses (fun _ => Tally.refuseWindowOnly_refusal) fun _ hopen => ?_
  refine Pass.ensure_refuses (fun _ => Tally.requireReady_refusal) fun _ _ => ?_
  refine Pass.ensure_refuses (fun _ => Tally.requireArity_refusal) fun _ harity => ?_
  have hgives := add_gives h.fits (h.windowOnly_false hopen) (Tally.requireArity_ok.mp harity)
  rw [← h.aggregate] at hgives
  exact .of_ok (h.performUpdate hgives (addCode_touched hvs))

theorem addRow_refuses (h : b.Call s t) (hf : f.SlotFree)
    (hargs : ∀ row, row.slots = [] → ∀ v ∈ args row, v.slots = []) :
    (t.addRow f (.total args)).Refuses (EmitError.RefusalOf t.signature.name) p := by
  refine Pass.ensure_refuses (fun _ => Tally.requireReady_refusal) fun _ _ => ?_
  refine Pass.ensure_refuses (r := Tally.checkFrame p.config f)
    (fun _ he => Tally.checkFrame_refusal he _) fun _ _ => ?_
  refine Pass.ensure_refuses (fun _ => Site.window_refusal) fun told htold => ?_
  obtain ⟨rfl, hlen⟩ := Site.window_told htold
  have hgives := addRow_gives h.fits (t.site.window f (.total args)) hlen
  rw [← h.aggregate] at hgives
  exact .of_ok (h.performUpdate hgives (rowCode_touched (hargs _ (hf .currentRow))))

theorem result_refuses (h : b.Call s t) :
    t.result.Refuses (EmitError.RefusalOf t.signature.name) p := by
  refine Pass.ensure_refuses (fun _ => Tally.refuseWindowOnly_refusal) fun _ hopen => ?_
  refine Pass.ensure_refuses (fun _ => Tally.requireReady_refusal) fun _ _ => ?_
  have hgives := result_gives h.fits.lays (h.windowOnly_false hopen)
  rw [← h.aggregate] at hgives
  exact .of_ok (h.performResult hgives (resultExpr_slots (h.windowOnly_false hopen)))

/-- The result of a window fails, if at all, before the checks: nothing has been emitted. -/
theorem resultAt_refuses (h : b.Call s t) (hf : f.SlotFree)
    (hargs : ∀ row, row.slots = [] → ∀ v ∈ args row, v.slots = []) :
    (t.resultAt f (.total args)).Refuses (EmitError.RefusalOf t.signature.name) p := by
  refine Pass.ensure_refuses (fun _ => Tally.requireReady_refusal) fun _ _ => ?_
  refine Pass.ensure_refuses (r := Tally.checkFrame p.config f)
    (fun _ he => Tally.checkFrame_refusal he _) fun _ _ => ?_
  have hframe : f.Within (fun _ => True) fun _ => True := fun k => .all _
  rw [h.aggregate]
  refine Tally.performResult_refuses (b.resultAt_keeps (fun _ _ => trivial) hframe
    fun _ _ _ _ v _ => .all v) (resultAt_fails h.fits.lays f args) fun n v hv => ?_
  rw [resultAt_ok h.fits.lays hv]
  exact h.owns (windowExpr_slots hf hargs)

end Call

/-- Calls that have been resolved differ in their functions only if they do in their signatures;
functions that have nothing to fold say so before anything is emitted. -/
theorem Resolved.merge_refuses (h : b.Resolved s t) (h' : b'.Resolved s' other) :
    (t.merge other).Refuses (EmitError.RefusalOf t.signature.name) p := by
  have hsize (hsig : other.signature = t.signature) :
      other.accumulator.size = t.accumulator.size := by
    obtain ⟨rfl, _⟩ := h.same h' hsig
    rw [h'.size, h.size]
  refine Pass.ensure_refuses (fun _ => Tally.refuseWindowOnly_refusal) fun _ hopen => ?_
  refine Pass.ensure_refuses (fun _ => Tally.requireReady_refusal) fun _ hr => ?_
  refine Pass.ensure_refuses (fun _ => Tally.requireMergeable_refusal hsize) fun _ hm => ?_
  obtain ⟨hr', hsig, _⟩ := Tally.requireMergeable_ok.mp hm
  obtain ⟨rfl, _⟩ := h.same h' hsig
  cases hb : b.mergeable with
  | true =>
    have hmerge := h.merge h'.toCall hb (Tally.requireReady_ok.mp hr) hr' hsig (p := p)
    exact .of_ok (Tally.merge_ok.mp hmerge).2.2.2
  | false =>
    rw [h.aggregate]
    cases b with
    | arrayAgg | firstValue | lastValue | lag | lead | rowNumber =>
      exact .of_error (PassM.bind_error rfl _) rfl
    | count | sum | avg | min | max => simp [mergeable] at hb

end Builtin

namespace Workspace

open Builtin

variable {w w' : Workspace} {i : Instruction} {u : Nat} {t : Tally} {e : EmitError}

/-- Whatever state the calls are in and whatever has been emitted, a phase of a builtin call that
fails does so with a refusal that names the call, and leaves the whole workspace as it was: the
block, the numbers of slots and locals handed out, and the marks of all calls. -/
theorem refused_cleanly (hi : i.call? = some u) (ht : w.tallies[u]? = some t)
    (hb : t.OfBuiltin)
    (hother : ∀ v, i.merged? = some v → ∃ other, w.tallies[v]? = some other ∧ other.OfBuiltin)
    (hfree : i.SlotFree) (h : w.step i = (w', .error e)) :
    e.RefusalOf t.signature.name ∧ w' = w := by
  obtain ⟨b, s, hb⟩ := hb.resolved
  cases i with
  | reset v =>
    obtain rfl := Option.some.inj hi
    exact update_refuses ht hb.reset_refuses h
  | warmUp v hint =>
    obtain rfl := Option.some.inj hi
    exact update_refuses ht (hb.warmUp_refuses hfree) h
  | openPartition v f =>
    obtain rfl := Option.some.inj hi
    exact update_refuses ht (hb.openPartition_refuses hfree) h
  | add v args =>
    obtain rfl := Option.some.inj hi
    exact consult_refuses ht (.then_pure (hb.add_refuses hfree) _) h
  | addRow v f rows =>
    obtain rfl := Option.some.inj hi
    obtain ⟨hf, args, rfl, hargs⟩ := hfree
    exact consult_refuses ht (.then_pure (hb.addRow_refuses hf hargs) _) h
  | result v =>
    obtain rfl := Option.some.inj hi
    exact consult_refuses ht (.map hb.result_refuses _) h
  | resultAt v f rows =>
    obtain rfl := Option.some.inj hi
    obtain ⟨hf, args, rfl, hargs⟩ := hfree
    exact consult_refuses ht (.map (hb.resultAt_refuses hf hargs) _) h
  | merge v o =>
    obtain rfl := Option.some.inj hi
    obtain ⟨other, ho, hbo⟩ := hother o rfl
    obtain ⟨b', s', hb'⟩ := hbo.resolved
    simp only [step, ho] at h
    exact consult_refuses ht (.then_pure (hb.merge_refuses hb') _) h
  | create | warmUpAll | bind | emit => simp [Instruction.call?] at hi

/-- An argument for the current row and for no other. -/
def currentOnly : Expr → List Expr
  | .fact k => [.argument 0 (.fact k)]
  | _ => []

/-- A `lag` of the preceding row, over a window that is left to the engine. -/
def lagOpened : List Instruction :=
  [.create (.of "lag" [.int] .int true false) .lag, .openPartition 0 .symbolic]

/-- A `lag` that is told no argument for the row before is refused, and nothing has happened. -/
theorem lag_without_neighbour : ∃ es w w' name,
    (start (.strict "agg")).record lagOpened = .ok (es, w) ∧
    w.step (.resultAt 0 .symbolic (.total currentOnly)) = (w', .error (.argumentCount name 1 0)) ∧
    w' = w := by
  have hsession : ∃ t₀ p es w w' name, Tally.create (.of "lag" [.int] .int true false)
        Builtin.lag.aggregate (start (.strict "agg")).pass = .ok t₀ p ∧
      (start (.strict "agg")).record lagOpened = .ok (es, w) ∧
      w.tallies[0]? = some (t₀.opened (.openPartition 0 .symbolic)) ∧
      w.step (.resultAt 0 .symbolic (.total currentOnly)) =
        (w', .error (.argumentCount name 1 0)) :=
    ⟨_, _, _, _, _, _, rfl, rfl, rfl, rfl⟩
  obtain ⟨t₀, p, es, w, w', name, hcreate, hrecord, ht, hstep⟩ := hsession
  have htyping : Builtin.lag.aggregate.typing [.int] = .ok (.int, true) := rfl
  have hresolve := resolve_name htyping false
  refine ⟨es, w, w', name, hrecord, hstep, ?_⟩
  refine (refused_cleanly rfl ht ⟨_, _, _, _, _, t₀, _, p, hresolve, hcreate,
    t₀.becomes_opened _⟩ (by simp [Instruction.merged?]) ?_ hstep).2
  refine ⟨Frame.symbolic_slotFree, currentOnly, rfl, ?_⟩
  intro row hrow v hv
  cases row with
  | fact k =>
    obtain rfl := List.mem_singleton.mp hv
    rfl
  | _ => cases hv

end Workspace

end WindowFold
