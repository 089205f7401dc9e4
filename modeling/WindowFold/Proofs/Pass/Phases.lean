import Mathlib.Data.List.Perm.Subperm
import WindowFold.Pass.Tally
import WindowFold.Proofs.Emit.Growth

/-!
# Phases that succeed

What is known of a pass after a phase has succeeded.  Each `_ok` lemma takes one action apart
into the guards it passed, the emission it performed and the checks made on the statements that
came of it; no later proof unfolds the actions again.
-/

namespace WindowFold

/-! ## Actions on a pass -/

namespace PassM

variable {α β : Type}

/-- A sequence succeeds if both of its parts do. -/
theorem bind_ok {m : PassM α} {f : α → PassM β} {p p' : Pass} {b : β} :
    (m >>= f) p = .ok b p' ↔ ∃ a q, m p = .ok a q ∧ f a q = .ok b p' := by
  simp only [bind, EStateM.bind]
  cases m p with
  | ok a q =>
    constructor
    · intro h
      exact ⟨a, q, rfl, h⟩
    · rintro ⟨a', q', h, h'⟩
      cases h
      exact h'
  | error e q => simp

theorem pure_ok {a b : α} {p p' : Pass} : (pure a : PassM α) p = .ok b p' ↔ b = a ∧ p' = p := by
  simp only [pure, EStateM.pure, EStateM.Result.ok.injEq]
  exact ⟨fun h => ⟨h.1.symm, h.2.symm⟩, fun h => ⟨h.1.symm, h.2.symm⟩⟩

theorem then_pure_ok {m : PassM Unit} {a b : α} {p p' : Pass} :
    (m >>= fun _ => pure a) p = .ok b p' ↔ m p = .ok () p' ∧ b = a := by
  simp only [bind_ok, pure_ok]
  constructor
  · rintro ⟨_, q, hm, rfl, rfl⟩
    exact ⟨hm, rfl⟩
  · rintro ⟨hm, rfl⟩
    exact ⟨(), p', hm, rfl, rfl⟩

theorem map_ok {m : PassM α} {f : α → β} {p p' : Pass} {b : β} :
    (f <$> m) p = .ok b p' ↔ ∃ a, m p = .ok a p' ∧ b = f a := by
  simp only [Functor.map, EStateM.map]
  cases m p with
  | ok a q => simp [eq_comm, and_comm]
  | error e q => simp

end PassM

namespace Pass

variable {α : Type}

theorem ensure_ok {r : Except EmitError α} {p p' : Pass} {a : α} :
    Pass.ensure r p = .ok a p' ↔ r = .ok a ∧ p' = p := by
  cases r with
  | ok b => simp [ensure, eq_comm]
  | error e => simp [ensure]

theorem ensure_bind_ok {β : Type} {r : Except EmitError α} {f : α → PassM β} {p p' : Pass} {b : β} :
    (Pass.ensure r >>= f) p = .ok b p' ↔ ∃ a, r = .ok a ∧ f a p = .ok b p' := by
  simp only [PassM.bind_ok, ensure_ok]
  constructor
  · rintro ⟨a, q, ⟨hr, rfl⟩, hf⟩
    exact ⟨a, hr, hf⟩
  · rintro ⟨a, hr, hf⟩
    exact ⟨a, p, ⟨hr, rfl⟩, hf⟩

/-- A guard that is passed leaves the pass alone. -/
theorem guard_ok {r : Except EmitError Unit} {f : Unit → PassM α} {p p' : Pass} {b : α} :
    (Pass.ensure r >>= f) p = .ok b p' ↔ r = .ok () ∧ f () p = .ok b p' := by
  rw [ensure_bind_ok]
  exact ⟨fun ⟨_, h⟩ => h, fun h => ⟨(), h⟩⟩

theorem settings_bind {f : Config → PassM α} (p : Pass) :
    (Pass.settings >>= f) p = f p.config p := rfl

/-- `p'` is `p` with the statements `ss` emitted. -/
structure Emits (p : Pass) (ss : List Stmt) (p' : Pass) : Prop where
  draft : p.draft.Extends ss p'.draft
  config : p'.config = p.config
  bindings : p'.bindings = p.bindings

theorem emit_ok {m : Emission α} {p p' : Pass} {ss : List Stmt} {a : α}
    (h : Pass.emit m p = .ok (ss, a) p') :
    p.draft.perform m = (p'.draft, .ok a) ∧ p.Emits ss p' := by
  unfold emit at h
  obtain ⟨new, hnew⟩ := p.draft.perform_extends m
  cases hm : p.draft.perform m with
  | mk d r =>
    rw [hm] at h hnew
    cases r with
    | error e => simp at h
    | ok b =>
      simp only [EStateM.Result.ok.injEq, Prod.mk.injEq] at h
      obtain ⟨⟨rfl, rfl⟩, rfl⟩ := h
      refine ⟨rfl, ?_, rfl, rfl⟩
      rw [hnew.since]
      exact hnew

theorem bind_ok {name : String} {e : Expr} {p p' : Pass} {x : Local}
    (h : Pass.bind name e p = .ok x p') :
    p.draft.Extends [.declare x.id x.name e] p'.draft ∧ p'.config = p.config ∧
      x.name = p.bindingName name := by
  unfold Pass.bind at h
  split at h
  · rename_i y d hd
    simp only [EStateM.Result.ok.injEq] at h
    obtain ⟨rfl, rfl⟩ := h
    exact ⟨Draft.declare_extends hd, rfl, congrArg Local.name (Draft.declare_ok hd).1⟩
  · simp at h

end Pass

namespace Tally

variable {t t' other : Tally} {p p' : Pass}

/-! ## What the checks establish -/

/-- With the check on, every slot looked at belongs to the call or to the one merged in. -/
theorem owned_of_checkSlots {config : Config} {o : Option Accumulator} {slots : List SlotId}
    (hc : config.checkSlots = true) (h : t.checkSlots config o slots = .ok ()) :
    ∀ s ∈ slots, t.accumulator.owns s = true ∨ ∃ a, o = some a ∧ a.owns s = true := by
  intro s hs
  simp only [checkSlots, hc, if_true, checkOwned] at h
  split at h
  · simp at h
  · rename_i hnone
    have hown := List.find?_eq_none.mp hnone s hs
    cases o with
    | none => simpa using hown
    | some a =>
      have hor : (t.accumulator.owns s || a.owns s) = true := by
        simpa only [Bool.not_eq_true', Bool.not_eq_false, Option.any_some] using hown
      rcases (Bool.or_eq_true _ _).mp hor with h | h
      · exact .inl h
      · exact .inr ⟨a, rfl, h⟩

theorem nodup_eraseDups {α : Type} [DecidableEq α] (l : List α) : l.eraseDups.Nodup := by
  induction h : l.length using Nat.strongRecOn generalizing l with
  | ind n ih =>
    cases l with
    | nil => simp
    | cons a rest =>
      rw [List.eraseDups_cons, List.nodup_cons]
      have hlt : (rest.filter fun b => !b == a).length < n := by
        have hle := List.length_filter_le (fun b => !b == a) rest
        simp only [List.length_cons] at h
        omega
      exact ⟨by simp [List.mem_eraseDups], ih _ hlt _ rfl⟩

/-- With the check on, a reset assigns every slot of the call. -/
theorem assigned_of_checkComplete {config : Config} {ss : List Stmt}
    (hc : config.checkSlots = true) (h : t.checkComplete config ss = .ok ())
    (hown : ∀ s ∈ Stmt.assignedAll ss, t.accumulator.owns s = true) {s : SlotId}
    (hs : t.accumulator.owns s = true) : s ∈ Stmt.assignedAll ss := by
  let ids := t.accumulator.slots.map Slot.id
  have hlen : (Stmt.assignedAll ss).eraseDups.length = ids.length := by
    simp only [checkComplete, hc, Bool.true_and] at h
    split at h
    · simp at h
    · rename_i hne
      simpa [ids, Accumulator.size] using hne
  have mem_ids : ∀ s, t.accumulator.owns s = true ↔ s ∈ ids := by
    intro s
    simp [Accumulator.owns, ids]
  -- As many different slots are assigned as the call has, and all of them are its own.
  have hnodup : (Stmt.assignedAll ss).eraseDups.Nodup := nodup_eraseDups _
  have hsub : (Stmt.assignedAll ss).eraseDups ⊆ ids := by
    intro x hx
    exact (mem_ids x).mp (hown x (List.mem_eraseDups.mp hx))
  have hperm := (hnodup.subperm hsub).perm_of_length_le (Nat.le_of_eq hlen.symm)
  exact List.mem_eraseDups.mp (hperm.mem_iff.mpr ((mem_ids s).mp hs))

/-! ## What each phase does -/

/-- A new call takes the next slots and emits nothing. -/
theorem create_ok {s : Signature} {agg : Aggregate} : create s agg p = .ok t p' ↔
    t = { signature := s
          aggregate := agg
          accumulator :=
            { owner := s.name
              slots := List.zipWith Slot.mk
                ((List.range' p.draft.slotCount (agg.layout s).length).map SlotId.mk)
                (agg.layout s) }
          ready := false
          warmedUp := false
          partitionSeen := false } ∧
      p'.draft.stmts = p.draft.stmts ∧
      p' = { p with draft :=
        { p.draft with slotCount := p.draft.slotCount + (agg.layout s).length } } := by
  simp only [create, PassM.bind_ok, PassM.pure_ok, Pass.allocate, Draft.newSlots_eq,
    EStateM.Result.ok.injEq]
  constructor
  · rintro ⟨ids, q, ⟨rfl, rfl⟩, rfl, rfl⟩
    exact ⟨rfl, rfl, rfl⟩
  · rintro ⟨rfl, _, rfl⟩
    exact ⟨_, _, ⟨rfl, rfl⟩, rfl, rfl⟩

theorem performReset_ok {m : Emission Unit} : t.performReset m p = .ok () p' ↔
    ∃ ss, Pass.emit m p = .ok (ss, ()) p' ∧
      t.checkSlots p.config none (Stmt.touchedAll ss) = .ok () ∧
      t.checkComplete p.config ss = .ok () := by
  rw [performReset, PassM.bind_ok]
  simp only [Pass.settings_bind, Pass.guard_ok, Pass.ensure_ok]
  constructor
  · rintro ⟨⟨ss, _⟩, q, hm, hs, hc, rfl⟩
    rw [(Pass.emit_ok hm).2.config] at hs hc
    exact ⟨ss, hm, hs, hc⟩
  · rintro ⟨ss, hm, hs, hc⟩
    rw [← (Pass.emit_ok hm).2.config] at hs hc
    exact ⟨(ss, ()), p', hm, hs, hc, rfl⟩

theorem performUpdate_ok {o : Option Accumulator} {m : Emission Unit} :
    t.performUpdate o m p = .ok () p' ↔ ∃ ss, Pass.emit m p = .ok (ss, ()) p' ∧
      t.checkSlots p.config o (Stmt.touchedAll ss) = .ok () := by
  rw [performUpdate, PassM.bind_ok]
  simp only [Pass.settings_bind, Pass.ensure_ok]
  constructor
  · rintro ⟨⟨ss, _⟩, q, hm, hs, rfl⟩
    rw [(Pass.emit_ok hm).2.config] at hs
    exact ⟨ss, hm, hs⟩
  · rintro ⟨ss, hm, hs⟩
    rw [← (Pass.emit_ok hm).2.config] at hs
    exact ⟨(ss, ()), p', hm, hs, rfl⟩

theorem performResult_ok {m : Emission Expr} {e : Expr} :
    t.performResult m p = .ok e p' ↔ ∃ ss, Pass.emit m p = .ok (ss, e) p' ∧
      t.checkReadOnly ss = .ok () ∧
      t.checkSlots p.config none (Stmt.touchedAll ss) = .ok () ∧
      t.checkSlots p.config none e.slots = .ok () := by
  rw [performResult, PassM.bind_ok]
  simp only [Pass.settings_bind, Pass.guard_ok, PassM.pure_ok]
  constructor
  · rintro ⟨⟨ss, _⟩, q, hm, hr, hs, hv, rfl, rfl⟩
    rw [(Pass.emit_ok hm).2.config] at hs hv
    exact ⟨ss, hm, hr, hs, hv⟩
  · rintro ⟨ss, hm, hr, hs, hv⟩
    rw [← (Pass.emit_ok hm).2.config] at hs hv
    exact ⟨(ss, e), p', hm, hr, hs, hv, rfl, rfl⟩

theorem reset_ok : t.reset p = .ok t' p' ↔ t.refuseWindowOnly = .ok () ∧
    t.performReset (t.aggregate.reset t.site) p = .ok () p' ∧ t' = { t with ready := true } := by
  simp only [reset, Pass.guard_ok, PassM.then_pure_ok]

theorem warmUp_ok {hint : Expr} : t.warmUp hint p = .ok t' p' ↔ t.requireCold = .ok () ∧
    t.performReset (t.aggregate.openWindow t.site (.warmUp hint)) p = .ok () p' ∧
    t' = { t with ready := true, warmedUp := true } := by
  simp only [warmUp, Pass.guard_ok, PassM.then_pure_ok]

theorem openPartition_ok {f : Frame} : t.openPartition f p = .ok t' p' ↔
    checkFrame p.config f = .ok () ∧
    t.performReset (t.aggregate.openWindow t.site (.partition f)) p = .ok () p' ∧
    t' = { t with ready := true, partitionSeen := true } := by
  simp only [openPartition, Pass.settings_bind, Pass.guard_ok, PassM.then_pure_ok]

theorem add_ok {args : List Expr} : t.add args p = .ok () p' ↔
    t.refuseWindowOnly = .ok () ∧ t.requireReady .add = .ok () ∧
    t.requireArity args.length = .ok () ∧
    t.performUpdate none (t.aggregate.add t.site args) p = .ok () p' := by
  simp only [add, Pass.guard_ok]

theorem merge_ok : t.merge other p = .ok () p' ↔
    t.refuseWindowOnly = .ok () ∧ t.requireReady .merge = .ok () ∧
    t.requireMergeable other = .ok () ∧
    t.performUpdate (some other.accumulator) (t.aggregate.merge t.site other.accumulator) p
      = .ok () p' := by
  simp only [merge, Pass.guard_ok]

theorem result_ok {e : Expr} : t.result p = .ok e p' ↔
    t.refuseWindowOnly = .ok () ∧ t.requireReady .result = .ok () ∧
    t.performResult (t.aggregate.result t.site) p = .ok e p' := by
  simp only [result, Pass.guard_ok]

theorem addRow_ok {f : Frame} {rows : RowArguments} : t.addRow f rows p = .ok () p' ↔
    t.requireReady .add = .ok () ∧ checkFrame p.config f = .ok () ∧
    ∃ args, (t.site.window f rows).argumentsAt f.currentRow = .ok args ∧
      t.performUpdate none (t.aggregate.addRow t.site (t.site.window f rows) args) p
        = .ok () p' := by
  simp only [addRow, Pass.settings_bind, Pass.guard_ok]
  rw [Pass.ensure_bind_ok]

theorem resultAt_ok {f : Frame} {rows : RowArguments} {e : Expr} :
    t.resultAt f rows p = .ok e p' ↔
    t.requireReady .result = .ok () ∧ checkFrame p.config f = .ok () ∧
    t.performResult (t.aggregate.resultAt t.site (t.site.window f rows)) p = .ok e p' := by
  simp only [resultAt, Pass.settings_bind, Pass.guard_ok]

theorem refuseWindowOnly_ok : t.refuseWindowOnly = .ok () ↔ t.aggregate.windowOnly = false := by
  unfold refuseWindowOnly
  cases t.aggregate.windowOnly <;> simp

theorem requireArity_ok {n : Nat} : t.requireArity n = .ok () ↔ n = t.signature.arity := by
  simp [requireArity]

theorem requireReady_ok {phase : Phase} : t.requireReady phase = .ok () ↔ t.ready = true := by
  unfold requireReady
  cases t.ready <;> simp

theorem requireMergeable_ok : t.requireMergeable other = .ok () ↔
    other.ready = true ∧ other.signature = t.signature ∧
      other.accumulator.size = t.accumulator.size := by
  unfold requireMergeable
  cases other.ready with
  | false => simp
  | true =>
    by_cases hs : other.signature = t.signature
    · by_cases hn : other.accumulator.size = t.accumulator.size <;> simp [hs, hn]
    · simp [hs]

end Tally
end WindowFold
