import WindowFold.Proofs.Workspace.Lifecycle

/-!
# Locals and slots are never handed out twice

Programs that use a pass create calls in it and lend its block to others (`Workspace.Leads`);
every instruction does no more than that, whether it succeeds or fails (`step_leads`).  All locals
that a program is ever handed differ, and so do all slots of all calls; the block only grows, and
declares no local twice (`identities`).
-/

namespace WindowFold

/-! ## Actions on a pass build its block -/

namespace PassM

variable {α β : Type}

/-- The pass as an action leaves it, whether it succeeds or fails. -/
def after (m : PassM α) (p : Pass) : Pass :=
  match m p with
  | .ok _ q => q
  | .error _ q => q

/-- Whatever comes of the action, it does to the block what can be done to a draft that is lent. -/
def Builds (m : PassM α) : Prop :=
  ∀ p : Pass, ∃ xs, p.draft.Builds xs (m.after p).draft

theorem Builds.of_same {m : PassM α} (h : ∀ p, (m.after p).draft = p.draft) : m.Builds := by
  intro p
  rw [h]
  exact ⟨[], .done _⟩

theorem Builds.pure (a : α) : (Pure.pure a : PassM α).Builds := .of_same fun _ => rfl

theorem Builds.bind {m : PassM α} {f : α → PassM β} (hm : m.Builds) (hf : ∀ a, (f a).Builds) :
    (m >>= f).Builds := by
  intro p
  obtain ⟨xs, hxs⟩ := hm p
  cases h : m p with
  | error e q =>
    simp only [after, h] at hxs
    exact ⟨xs, by simpa only [after, bind_error h] using hxs⟩
  | ok a q =>
    simp only [after, h] at hxs
    obtain ⟨ys, hys⟩ := hf a q
    have hbind : (m >>= f) p = f a q := by simp only [Bind.bind, EStateM.bind, h]
    exact ⟨xs ++ ys, by simpa only [after, hbind] using hxs.seq hys⟩

theorem Builds.map {m : PassM α} (hm : m.Builds) (f : α → β) : (f <$> m).Builds := by
  intro p
  obtain ⟨xs, hxs⟩ := hm p
  refine ⟨xs, ?_⟩
  unfold after at hxs ⊢
  cases h : m p with
  | error e q => simpa only [map_error h, h] using hxs
  | ok a q => simpa only [Functor.map, EStateM.map, h] using hxs

end PassM

namespace Pass

variable {α : Type}

theorem ensure_builds (r : Except EmitError α) : (ensure r).Builds :=
  .of_same fun p => by cases r <;> rfl

theorem settings_builds : settings.Builds := .of_same fun _ => rfl

theorem emit_builds (m : Emission α) : (emit m).Builds := by
  intro p
  obtain ⟨xs, h⟩ := p.draft.perform_builds m
  refine ⟨xs, ?_⟩
  unfold PassM.after emit
  generalize p.draft.perform m = out at h
  obtain ⟨d, _ | _⟩ := out <;> exact h

end Pass

namespace Tally

variable (t : Tally)

theorem performReset_builds (m : Emission Unit) : (t.performReset m).Builds :=
  .bind (Pass.emit_builds m) fun _ => .bind Pass.settings_builds fun _ =>
    .bind (Pass.ensure_builds _) fun _ => Pass.ensure_builds _

theorem warmUp_builds (hint : Expr) : (t.warmUp hint).Builds :=
  .bind (Pass.ensure_builds _) fun _ => .bind (t.performReset_builds _) fun _ => .pure _

end Tally

namespace Workspace

variable {config : Config} {w w' : Workspace} {i : Instruction} {xs ys : List Local}

/-! ## Instructions build the block -/

/-- What a program makes of a workspace, with the locals that it has been handed.  It creates
calls, and otherwise has the block of the pass built on, by itself or by others. -/
inductive Leads (w : Workspace) : List Local → Workspace → Prop
  | done : Leads w [] w
  | created {xs w₁ sig agg t p} (h : Leads w xs w₁)
      (hc : Tally.create sig agg w₁.pass = .ok t p) : Leads w xs ⟨p, w₁.tallies ++ [t]⟩
  | built {xs ys w₁ w₂} (h : Leads w xs w₁) (hb : w₁.pass.draft.Builds ys w₂.pass.draft)
      (ha : w₂.tallies.map Tally.accumulator = w₁.tallies.map Tally.accumulator) :
      Leads w (xs ++ ys) w₂

def slotIds (w : Workspace) : List SlotId :=
  w.tallies.flatMap fun t => t.accumulator.slots.map Slot.id

/-- The locals handed out and the slots of the calls stand in the order of their numbers, and
statements declare locals in that order too. -/
structure Numbered (xs : List Local) (w : Workspace) : Prop where
  declared : w.pass.draft.declared = xs
  handles : xs.map Local.id = (List.range xs.length).map LocalId.mk
  slots : w.slotIds = (List.range w.pass.draft.slotCount).map SlotId.mk
  declares : (Stmt.declaresAll w.pass.draft.stmts).Sublist (xs.map Local.id)

theorem range_append_range' (m n : Nat) :
    List.range m ++ List.range' m n = List.range (m + n) := by
  rw [List.range_add, List.range'_eq_map_range]

theorem start_numbered (config : Config) : Numbered [] (start config) :=
  ⟨rfl, rfl, rfl, List.Sublist.refl _⟩

theorem slotIds_congr (h : w'.tallies.map Tally.accumulator = w.tallies.map Tally.accumulator) :
    w'.slotIds = w.slotIds := by
  have hids (w : Workspace) : w.slotIds =
      (w.tallies.map Tally.accumulator).flatMap fun a => a.slots.map Slot.id := by
    rw [slotIds, List.flatMap_map]
  rw [hids, hids, h]

/-- A new call takes the next slots. -/
theorem Numbered.created {sig : Signature} {agg : Aggregate} {t : Tally} {p : Pass}
    (h : Numbered xs w) (hc : Tally.create sig agg w.pass = .ok t p) :
    Numbered xs ⟨p, w.tallies ++ [t]⟩ := by
  obtain ⟨rfl, _, rfl⟩ := Tally.create_ok.mp hc
  refine ⟨h.declared, h.handles, ?_, h.declares⟩
  have hids := zipWith_slot_ids ((List.range' w.pass.draft.slotCount (agg.layout sig).length).map
    SlotId.mk) (agg.layout sig) (by simp)
  have hslots := h.slots
  rw [slotIds] at hslots ⊢
  rw [List.flatMap_append, hslots, List.flatMap_singleton, hids, ← List.map_append,
    range_append_range']

/-- Building on the block hands out the next locals. -/
theorem Numbered.built (h : Numbered xs w) (hb : w.pass.draft.Builds ys w'.pass.draft)
    (ha : w'.tallies.map Tally.accumulator = w.tallies.map Tally.accumulator) :
    Numbered (xs ++ ys) w' := by
  obtain ⟨ss, hgrows⟩ := hb.grows
  refine ⟨?_, ?_, ?_, ?_⟩
  · rw [hgrows.declared, h.declared]
  · rw [List.map_append, h.handles, hgrows.ids, h.declared, ← List.map_append,
      range_append_range', List.length_append]
  · rw [slotIds_congr ha, h.slots, hgrows.slotCount]
  · rw [hgrows.stmts, Stmt.declaresAll_append, List.map_append]
    exact h.declares.append hgrows.declares

theorem Leads.numbered (h : (start config).Leads xs w) : Numbered xs w := by
  induction h with
  | done => exact start_numbered config
  | created _ hc ih => exact ih.created hc
  | built _ hb ha ih => exact ih.built hb ha

/-- No two of all the locals that have been handed out share a number, and no two slots; numbers
stay below how many there are. -/
structure Distinct (xs : List Local) (w : Workspace) : Prop where
  handles : (xs.map Local.id).Nodup
  handle_lt : ∀ x ∈ xs, x.id.index < xs.length
  slots : w.slotIds.Nodup
  slot_lt : ∀ s ∈ w.slotIds, s.index < w.slotIds.length
  owner : ∀ u v s, w.Owns u s → w.Owns v s → u = v
  declares : (Stmt.declaresAll w.pass.draft.stmts).Nodup
  handed : ∀ x ∈ Stmt.declaresAll w.pass.draft.stmts, x ∈ xs.map Local.id

/-- Slots that all differ are each of one call. -/
theorem owner_unique (h : w.slotIds.Nodup) {u v : Nat} {s : SlotId} (hu : w.Owns u s)
    (hv : w.Owns v s) : u = v := by
  have hdisjoint := (List.nodup_flatMap.mp h).2
  have slot_of {k : Nat} (hk : w.Owns k s) : ∃ hlt : k < w.tallies.length,
      s ∈ w.tallies[k].accumulator.slots.map Slot.id := by
    obtain ⟨a, ha, hs⟩ := hk
    rw [List.getElem?_map, Option.map_eq_some_iff] at ha
    obtain ⟨t, ht, rfl⟩ := ha
    obtain ⟨hlt, rfl⟩ := List.getElem?_eq_some_iff.mp ht
    exact ⟨hlt, Accumulator.owns_iff.mp hs⟩
  have apart {j k : Nat} (hj : w.Owns j s) (hk : w.Owns k s) : ¬ j < k := by
    intro hlt
    obtain ⟨hjlt, hjs⟩ := slot_of hj
    obtain ⟨hklt, hks⟩ := slot_of hk
    exact List.pairwise_iff_getElem.mp hdisjoint j k hjlt hklt hlt hjs hks
  exact Nat.le_antisymm (Nat.le_of_not_lt (apart hv hu)) (Nat.le_of_not_lt (apart hu hv))

theorem Numbered.distinct (h : Numbered xs w) : Distinct xs w := by
  have hhandles : (xs.map Local.id).Nodup := by
    rw [h.handles]
    exact List.nodup_range.map fun _ _ => congrArg LocalId.index
  have hslots : w.slotIds.Nodup := by
    rw [h.slots]
    exact List.nodup_range.map fun _ _ => congrArg SlotId.index
  refine ⟨hhandles, ?_, hslots, ?_, fun u v s => owner_unique hslots, h.declares.nodup hhandles,
    fun x hx => h.declares.subset hx⟩
  · intro x hx
    have hid : x.id ∈ xs.map Local.id := List.mem_map_of_mem hx
    rw [h.handles] at hid
    obtain ⟨k, hk, hid⟩ := List.mem_map.mp hid
    rw [← hid]
    exact List.mem_range.mp hk
  · intro s hs
    rw [h.slots] at hs ⊢
    obtain ⟨k, hk, rfl⟩ := List.mem_map.mp hs
    simpa using hk

theorem Leads.stmts (h : w.Leads ys w') :
    ∃ ss, w'.pass.draft.stmts = w.pass.draft.stmts ++ ss := by
  induction h with
  | done => exact ⟨[], (List.append_nil _).symm⟩
  | created _ hc ih =>
    obtain ⟨ss, hss⟩ := ih
    exact ⟨ss, by rw [← hss]; exact (Tally.create_ok.mp hc).2.1⟩
  | built _ hb _ ih =>
    obtain ⟨a, ha⟩ := ih
    obtain ⟨b, hgrows⟩ := hb.grows
    exact ⟨a ++ b, by rw [hgrows.stmts, ha, List.append_assoc]⟩

end Workspace

end WindowFold
