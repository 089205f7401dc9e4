import WindowFold.Proofs.Builtin.Phases
import WindowFold.Proofs.Machine.Ways
import WindowFold.Proofs.Workspace.Lifecycle

/-!
# What makes a reset complete

The check on a reset counts the slots that the statements surely assign.  It is passed if and only
if every way through the statements assigns every slot of the call (`assigned_exact`).  The count
says so only because the slots of a call all differ, which they do whatever has been tried on the
call since it was created (`Lived.slots_nodup`).
-/

namespace WindowFold

namespace Tally

variable {t : Tally} {config : Config} {ss : List Stmt}

/-- Counting the assigned slots of a call is as good as looking for each of them. -/
theorem checkComplete_iff (hc : config.checkSlots = true)
    (hd : (t.accumulator.slots.map Slot.id).Nodup)
    (hown : ∀ x ∈ Stmt.assignedAll ss, t.accumulator.owns x = true) :
    t.checkComplete config ss = .ok () ↔
      ∀ x, t.accumulator.owns x = true → x ∈ Stmt.assignedAll ss := by
  refine ⟨fun h x => assigned_of_checkComplete hc h hown, fun h => ?_⟩
  exact checkComplete_of_assigned hd fun x => ⟨hown x, h x⟩

theorem after_accumulator (t : Tally) (a : Attempt) :
    (t.after a).accumulator = t.accumulator := by
  unfold after
  split
  · split
    · exact t.opened_accumulator _
    · rfl
  · rfl

/-- A reset whose statements touch no slots of others comes out as the count of them does. -/
theorem performReset_owned {m : Emission Unit} {p q : Pass}
    (hm : Pass.emit m p = .ok (ss, ()) q)
    (hown : ∀ x ∈ Stmt.touchedAll ss, t.accumulator.owns x = true) :
    t.performReset m p =
      match t.checkComplete p.config ss with
      | .ok _ => .ok () q
      | .error e => .error e q := by
  have hs : t.checkSlots q.config none (Stmt.touchedAll ss) = .ok () := checkSlots_of_owned hown
  rw [← (Pass.emit_ok hm).2.config]
  simp only [performReset, bind, EStateM.bind, hm, Pass.settings, hs, Pass.ensure]
  cases t.checkComplete q.config ss with
  | ok _ => rfl
  | error _ => rfl

end Tally

namespace Workspace

variable {u : Nat} {t : Tally} {w : Workspace} {i : Instruction} {p : Pass} {ss : List Stmt}

theorem Lived.slots_nodup {as : List Attempt} (h : Lived u as t) :
    (t.accumulator.slots.map Slot.id).Nodup := by
  induction h with
  | created h =>
    obtain ⟨rfl, _⟩ := Tally.create_ok.mp h
    rw [zipWith_slot_ids _ _ (by simp)]
    exact (List.nodup_range' 1).map fun _ _ => congrArg SlotId.index
  | tried _ hi ht ht' ih =>
    rw [step_after hi ht, Option.some.injEq] at ht'
    rw [← ht', Tally.after_accumulator]
    exact ih

theorem step_opens (hi : i.opens? = some u) (ht : w.tallies[u]? = some t)
    (hg : t.openingGuard w.pass.config i = .ok ()) :
    w.step i =
      match t.performReset (t.opening i) w.pass with
      | .ok _ p => (⟨p, w.tallies.set u (t.opened i)⟩, .ok .done)
      | .error e p => (⟨p, w.tallies⟩, .error e) := by
  have hphase : ∃ phase : Tally → PassM Tally, w.step i = w.update u phase ∧
      phase t w.pass =
        match t.performReset (t.opening i) w.pass with
        | .ok _ p => .ok (t.opened i) p
        | .error e p => .error e p := by
    cases i with
    | reset v =>
      obtain rfl := Option.some.inj hi
      exact ⟨_, rfl, Tally.performReset_guarded hg _ _ _⟩
    | warmUp v hint =>
      obtain rfl := Option.some.inj hi
      exact ⟨_, rfl, Tally.performReset_guarded hg _ _ _⟩
    | openPartition v f =>
      obtain rfl := Option.some.inj hi
      exact ⟨_, rfl, Tally.performReset_guarded hg _ _ _⟩
    | _ => simp [Instruction.opens?] at hi
  obtain ⟨phase, hstep, hphase⟩ := hphase
  simp only [hstep, update, ht, hphase]
  cases t.performReset (t.opening i) w.pass with
  | ok _ p => rfl
  | error e p => rfl

/-- A reset of a call, on whichever occasion, with the slot check on.  It is admitted, and what it
emits is about slots of the call. -/
structure Resetting (w : Workspace) (i : Instruction) (t : Tally) (ss : List Stmt) : Prop where
  call : ∃ u as, i.opens? = some u ∧ w.tallies[u]? = some t ∧ Lived u as t
  checked : w.pass.config.checkSlots = true
  admitted : t.openingGuard w.pass.config i = .ok ()
  emits : ∃ p, Pass.emit (t.opening i) w.pass = .ok (ss, ()) p
  own : ∀ s ∈ ss, ∀ x ∈ s.touched, t.accumulator.owns x = true

theorem Resetting.complete_iff (h : w.Resetting i t ss) :
    t.checkComplete w.pass.config ss = .ok () ↔
      ∀ way ∈ Stmt.waysAll ss, ∀ x, t.accumulator.owns x = true → Stmt.Assigns way x := by
  obtain ⟨u, as, _, _, hlived⟩ := h.call
  have hown : ∀ x ∈ Stmt.assignedAll ss, t.accumulator.owns x = true := by
    intro x hx
    obtain ⟨s, hs, hxs⟩ := Stmt.mem_touchedAll.mp
      (Stmt.writtenAll_subset_touchedAll ss (Stmt.assignedAll_subset_writtenAll ss hx))
    exact h.own s hs x hxs
  rw [Tally.checkComplete_iff h.checked hlived.slots_nodup hown]
  simp only [Stmt.mem_assignedAll_iff]
  exact ⟨fun hall way hway x hx => hall x hx way hway, fun hall x hx way hway => hall way hway x hx⟩

theorem Resetting.step (h : w.Resetting i t ss) :
    (w.step i).2 = (t.checkComplete w.pass.config ss).map fun _ => .done := by
  obtain ⟨u, as, hi, ht, _⟩ := h.call
  obtain ⟨p, hm⟩ := h.emits
  rw [step_opens hi ht h.admitted, Tally.performReset_owned hm fun x hx => ?_]
  · cases t.checkComplete w.pass.config ss with
    | ok _ => rfl
    | error _ => rfl
  · obtain ⟨s, hs, hxs⟩ := Stmt.mem_touchedAll.mp hx
    exact h.own s hs x hxs

/-- The slots surely assigned by the statements of a block are those that every way through it
assigns, so a run that comes to its end has set all of them.  A reset whose statements keep to the
slots of its call passes the check for completeness if and only if every way through them assigns
every slot of the call, and comes out as the check does. -/
theorem assigned_exact :
    (∀ (ss : List Stmt) x,
      x ∈ ss.flatMap Stmt.assigned ↔ ∀ way ∈ Stmt.waysAll ss, Stmt.Assigns way x) ∧
    (∀ env st st' ss x, Stmt.runAll env st ss = (st', .ok ()) → x ∈ ss.flatMap Stmt.assigned →
      st'.Holds x) ∧
    ∀ (w : Workspace) i t ss, w.Resetting i t ss →
      (t.checkComplete w.pass.config ss = .ok () ↔
        ∀ way ∈ Stmt.waysAll ss, ∀ x, t.accumulator.owns x = true → Stmt.Assigns way x) ∧
      (w.step i).2 = (t.checkComplete w.pass.config ss).map fun _ => .done := by
  have hexact : ∀ (ss : List Stmt) x,
      x ∈ ss.flatMap Stmt.assigned ↔ ∀ way ∈ Stmt.waysAll ss, Stmt.Assigns way x := by
    intro ss x
    rw [← Stmt.assignedAll_eq, Stmt.mem_assignedAll_iff]
  refine ⟨hexact, ?_, fun w i t ss h => ⟨h.complete_iff, h.step⟩⟩
  intro env st st' ss x hrun hx
  exact Stmt.runAll_holds_of_ways hrun ((hexact ss x).mp hx)

/-- Two slots that are reset in a branch, its second side leaving one of them out unless told not
to. -/
def branchingReset (full : Bool) : Aggregate where
  name := "pair"
  typing := fun _ => .ok (.int, false)
  layout := fun _ => [.int, .int]
  reset := fun c => do
    let x ← c.slot 0
    let y ← c.slot 1
    .op (.branch (.fact .hasRows) [.assign x (.int 1), .assign y (.int 0)]
      (.assign y (.int 1) :: if full then [.assign x (.int 0)] else []))
  add := fun _ _ => pure ()
  result := fun c => c.read 0

theorem branching_resetting (full : Bool) : ∃ (w : Workspace) (t : Tally) (ss : List Stmt),
    w.Resetting (.reset 0) t ss ∧ (Stmt.waysAll ss).length = 2 ∧
    t.checkComplete w.pass.config ss = if full then .ok () else .error (.slotCount "pair" 2 1) := by
  have hcreated : ∃ t p, Tally.create ⟨"pair", [], .int, false, false⟩ (branchingReset full)
        (start (.strict "agg")).pass = .ok t p ∧ p.config.checkSlots = true ∧
      t.refuseWindowOnly = .ok () ∧
      ∃ ss q, Pass.emit (t.aggregate.reset t.site) p = .ok (ss, ()) q ∧
        (∀ x ∈ Stmt.touchedAll ss, t.accumulator.owns x = true) ∧
        (Stmt.waysAll ss).length = 2 ∧
        t.checkComplete p.config ss =
          if full then .ok () else .error (.slotCount "pair" 2 1) := by
    cases full with
    | true => exact ⟨_, _, rfl, rfl, rfl, _, _, rfl, by decide, rfl, rfl⟩
    | false => exact ⟨_, _, rfl, rfl, rfl, _, _, rfl, by decide, rfl, rfl⟩
  obtain ⟨t, p, hcreate, hchecked, hopen, ss, q, hm, hown, hways, hcomplete⟩ := hcreated
  have hall := attempts_lived (.strict "agg")
    [.create ⟨"pair", [], .int, false, false⟩ (branchingReset full)]
  simp only [attempts, Workspace.step, hcreate] at hall
  obtain ⟨as, hlived⟩ := hall 0 t rfl
  refine ⟨⟨p, [t]⟩, t, ss, ⟨⟨0, as, rfl, rfl, hlived⟩, hchecked, hopen, ⟨q, hm⟩, ?_⟩, hways,
    hcomplete⟩
  exact fun s hs x hx => hown x (Stmt.mem_touchedAll.mpr ⟨s, hs, hx⟩)

/-- A branch that assigns both slots on either side passes, though in another order.  If one of its
two ways leaves a slot out, the reset is refused. -/
theorem branching_reset_checked :
    (∃ (w : Workspace) (t : Tally) (ss : List Stmt), w.Resetting (.reset 0) t ss ∧
      (Stmt.waysAll ss).length = 2 ∧
      (∀ way ∈ Stmt.waysAll ss, ∀ x, t.accumulator.owns x = true → Stmt.Assigns way x) ∧
      (w.step (.reset 0)).2 = .ok .done) ∧
    ∃ (w : Workspace) (t : Tally) (ss : List Stmt), w.Resetting (.reset 0) t ss ∧
      (Stmt.waysAll ss).length = 2 ∧
      (¬ ∀ way ∈ Stmt.waysAll ss, ∀ x, t.accumulator.owns x = true → Stmt.Assigns way x) ∧
      (w.step (.reset 0)).2 = .error (.slotCount "pair" 2 1) := by
  obtain ⟨_, _, hresets⟩ := assigned_exact
  constructor
  · obtain ⟨w, t, ss, h, hways, hcomplete⟩ := branching_resetting true
    obtain ⟨hiff, hstep⟩ := hresets w _ t ss h
    rw [if_pos rfl] at hcomplete
    rw [hcomplete] at hstep
    exact ⟨w, t, ss, h, hways, hiff.mp hcomplete, hstep⟩
  · obtain ⟨w, t, ss, h, hways, hcomplete⟩ := branching_resetting false
    obtain ⟨hiff, hstep⟩ := hresets w _ t ss h
    rw [if_neg Bool.false_ne_true] at hcomplete
    rw [hcomplete] at hstep
    refine ⟨w, t, ss, h, hways, fun hall => ?_, hstep⟩
    rw [hiff.mpr hall] at hcomplete
    cases hcomplete

end Workspace
end WindowFold
