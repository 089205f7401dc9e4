import WindowFold.Aggregate.Total
import WindowFold.Proofs.Workspace.Slots

/-!
# Only a first reset can read too early

With the slot check on, a block made by phases of calls and by binding their results stops at an
unset slot only inside the first reset of the call that owns the slot.  A slot belongs to one
call, every reset of that call assigns all of its slots, and all other statements that touch the
slot come after such a reset.

The invariant `Initialises` keeps these facts about the text of the block; nothing is known of
the values.  `unset_opens` reads it off for one entry, and `unset_in_first_reset` for the block.
-/

namespace WindowFold

/-- Creating a call, a phase of one call, or binding a value. -/
def Instruction.byCall : Instruction → Bool
  | .warmUpAll _ | .emit _ => false
  | _ => true

def Instruction.bound? : Instruction → Option Expr
  | .bind _ v => some v
  | _ => none

/-- Every value that is bound is one of `returned` or has been returned by an earlier entry. -/
def BindsResults (returned : List Expr) : List Entry → Prop
  | [] => True
  | e :: rest =>
    (∀ v ∈ e.instruction.bound?, v ∈ returned) ∧
      BindsResults (returned ++ e.value?.toList) rest

theorem bindsResults_append {returned : List Expr} {a b : List Entry} :
    BindsResults returned (a ++ b) ↔
      BindsResults returned a ∧ BindsResults (returned ++ a.filterMap Entry.value?) b := by
  induction a generalizing returned with
  | nil => simp [BindsResults]
  | cons e rest ih =>
    have hvalues : returned ++ (e :: rest).filterMap Entry.value? =
        returned ++ e.value?.toList ++ rest.filterMap Entry.value? := by
      cases h : e.value? <;> simp [h]
    rw [List.cons_append, BindsResults, BindsResults, ih, hvalues, and_assoc]

theorem bindsResults_snoc {es : List Entry} {e : Entry} :
    BindsResults [] (es ++ [e]) ↔
      BindsResults [] es ∧ ∀ v ∈ e.instruction.bound?, ∃ r ∈ es, r.value? = some v := by
  rw [bindsResults_append, List.nil_append]
  simp only [BindsResults, and_true, List.mem_filterMap]

/-- Some entry resets the call. -/
def Opened (es : List Entry) (u : Nat) : Prop := ∃ e ∈ es, e.instruction.opens? = some u

theorem Opened.append {es : List Entry} {u : Nat} (h : Opened es u) (rest : List Entry) :
    Opened (es ++ rest) u := by
  obtain ⟨e, he, hu⟩ := h
  exact ⟨e, List.mem_append_left _ he, hu⟩

namespace Workspace

variable {w w' : Workspace} {es : List Entry} {e : Entry} {u : Nat} {s : SlotId}

/-! ## Ready calls -/

/-- A call becomes ready by being reset. -/
theorem Takes.ready {t : Tally} (h : w.Takes e w') (hcall : e.instruction.byCall = true)
    (ht : w'.tallies[u]? = some t) (hr : t.ready = true) :
    e.instruction.opens? = some u ∨ ∃ t₀, w.tallies[u]? = some t₀ ∧ t₀.ready = true := by
  cases h with
  | created hc =>
    rw [(Tally.create_ok.mp hc).1, List.getElem?_append] at ht
    by_cases hu : u < w.tallies.length
    · rw [if_pos hu] at ht
      exact .inr ⟨t, ht, hr⟩
    · rw [if_neg hu, List.getElem?_singleton] at ht
      split at ht
      · rw [Option.some.injEq] at ht
        rw [← ht] at hr
        simp at hr
      · simp at ht
  | @opened i v t₀ ss p hi _ _ _ _ _ =>
    by_cases huv : v = u
    · rw [← huv]
      exact .inl hi
    · rw [List.getElem?_set_ne huv] at ht
      exact .inr ⟨t, ht, hr⟩
  | updated => exact .inr ⟨t, ht, hr⟩
  | yielded => exact .inr ⟨t, ht, hr⟩
  | bound => exact .inr ⟨t, ht, hr⟩
  | warmed => simp [Instruction.byCall] at hcall
  | emitted => simp [Instruction.byCall] at hcall

/-- A phase other than a reset is of a call that is ready. -/
theorem Takes.ready_or_opens (h : w.Takes e w') (hu : e.instruction.call? = some u) :
    e.instruction.opens? = some u ∨ ∃ t, w.tallies[u]? = some t ∧ t.ready = true := by
  cases h with
  | created => simp [Instruction.call?] at hu
  | opened hi _ _ _ _ _ =>
    rw [Instruction.call?_of_opens? hi] at hu
    rw [← hu]
    exact .inl hi
  | updated hi ht hr _ _ _ =>
    rw [hi, Option.some.injEq] at hu
    subst hu
    exact .inr ⟨_, ht, hr⟩
  | yielded hi ht hr _ _ _ _ _ =>
    rw [hi, Option.some.injEq] at hu
    subst hu
    exact .inr ⟨_, ht, hr⟩
  | bound => simp [Instruction.call?] at hu
  | warmed => simp [Instruction.call?] at hu
  | emitted => simp [Instruction.call?] at hu

/-- Only a call that is ready is merged in. -/
theorem Takes.ready_of_merged (h : w.Takes e w') (hu : e.instruction.merged? = some u) :
    ∃ t, w.tallies[u]? = some t ∧ t.ready = true := by
  cases h with
  | updated _ _ _ hup _ _ =>
    cases hup with
    | add => simp [Instruction.merged?] at hu
    | addRow => simp [Instruction.merged?] at hu
    | merge _ hv hm =>
      rw [Instruction.merged?, Option.some.injEq] at hu
      subst hu
      exact ⟨_, hv, (Tally.requireMergeable_ok.mp hm).1⟩
  | opened hi _ _ _ _ _ => simp [Instruction.merged?_of_opens? hi] at hu
  | yielded _ _ _ hy _ _ _ _ => simp [hy.merged?_eq_none] at hu
  | created => simp [Instruction.merged?] at hu
  | bound => simp [Instruction.merged?] at hu
  | warmed => simp [Instruction.merged?] at hu
  | emitted => simp [Instruction.merged?] at hu

/-! ## The invariant -/

/-- What the text of the entries so far says about slots. -/
structure Initialises (es : List Entry) (w : Workspace) : Prop where
  checked : w.pass.config.checkSlots = true
  /-- A call that is ready has been reset. -/
  ready : ∀ u t, w.tallies[u]? = some t → t.ready = true → Opened es u
  /-- Every reset assigns all slots of its call. -/
  covered : ∀ e ∈ es, ∀ u, e.instruction.opens? = some u →
    ∃ a, (w.tallies.map Tally.accumulator)[u]? = some a ∧
      ∀ s, a.owns s = true → s ∈ Stmt.assignedAll e.emitted
  /-- Whatever touches a slot is a reset of its call or comes after one. -/
  touched : ∀ before e after, es = before ++ e :: after → ∀ s ∈ Stmt.touchedAll e.emitted,
    ∃ u, w.Owns u s ∧ (e.instruction.opens? = some u ∨ Opened before u)
  /-- Values returned read the slots of calls that have been reset. -/
  returned : ∀ e ∈ es, ∀ v, e.value? = some v → ∀ s ∈ v.slots, ∃ u, w.Owns u s ∧ Opened es u

namespace Initialises

theorem start {config : Config} (hc : config.checkSlots = true) :
    Initialises [] (Workspace.start config) where
  checked := hc
  ready := by
    intro u t ht
    simp [Workspace.start] at ht
  covered := by simp
  touched := by simp
  returned := by simp

theorem touched_takes (hi : Initialises es w) (h : w.Takes e w')
    (hcall : e.instruction.byCall = true)
    (hbind : ∀ v ∈ e.instruction.bound?, ∃ r ∈ es, r.value? = some v)
    (hs : s ∈ Stmt.touchedAll e.emitted) :
    ∃ u, w.Owns u s ∧ (e.instruction.opens? = some u ∨ Opened es u) := by
  cases hu : e.instruction.call? with
  | some u =>
    rcases h.touches hi.checked hu hs with ho | ⟨v, hv, ho⟩
    · refine ⟨u, ho, ?_⟩
      rcases h.ready_or_opens hu with hopens | ⟨t, ht, hr⟩
      · exact .inl hopens
      · exact .inr (hi.ready u t ht hr)
    · obtain ⟨t, ht, hr⟩ := h.ready_of_merged hv
      exact ⟨v, ho, .inr (hi.ready v t ht hr)⟩
  | none =>
    cases h with
    | created => simp [Stmt.touchedAll] at hs
    | @bound name v x p _ =>
      obtain ⟨r, hr, hv⟩ := hbind v rfl
      have hslot : s ∈ v.slots := by simpa [Stmt.touchedAll, Stmt.touched] using hs
      obtain ⟨u, ho, hopen⟩ := hi.returned r hr v hv s hslot
      exact ⟨u, ho, .inr hopen⟩
    | opened hopens => simp [Instruction.call?_of_opens? hopens] at hu
    | updated hphase => simp [hphase] at hu
    | yielded hphase => simp [hphase] at hu
    | warmed => simp [Instruction.byCall] at hcall
    | emitted => simp [Instruction.byCall] at hcall

theorem takes (hi : Initialises es w) (h : w.Takes e w') (hcall : e.instruction.byCall = true)
    (hbind : ∀ v ∈ e.instruction.bound?, ∃ r ∈ es, r.value? = some v) :
    Initialises (es ++ [e]) w' where
  checked := by rw [h.config, hi.checked]
  ready := by
    intro u t ht hr
    rcases h.ready hcall ht hr with hopens | ⟨t₀, ht₀, hr₀⟩
    · exact ⟨e, by simp, hopens⟩
    · exact (hi.ready u t₀ ht₀ hr₀).append [e]
  covered := by
    intro x hx u hu
    rw [List.mem_append, List.mem_singleton] at hx
    have hold : ∃ a, (w.tallies.map Tally.accumulator)[u]? = some a ∧
        ∀ s, a.owns s = true → s ∈ Stmt.assignedAll x.emitted := by
      rcases hx with hx | rfl
      · exact hi.covered x hx u hu
      · exact h.assigns hi.checked hu
    obtain ⟨a, ha, hs⟩ := hold
    exact ⟨a, h.accumulator ha, hs⟩
  touched := by
    intro before x after hes s hs
    rcases snoc_eq_append_cons hes with ⟨rfl, rfl, _⟩ | ⟨after', _, rfl⟩
    · obtain ⟨u, ho, hopen⟩ := hi.touched_takes h hcall hbind hs
      exact ⟨u, h.owns ho, hopen⟩
    · obtain ⟨u, ho, hopen⟩ := hi.touched before x after' rfl s hs
      exact ⟨u, h.owns ho, hopen⟩
  returned := by
    intro x hx v hv s hs
    rw [List.mem_append, List.mem_singleton] at hx
    rcases hx with hx | rfl
    · obtain ⟨u, ho, hopen⟩ := hi.returned x hx v hv s hs
      exact ⟨u, h.owns ho, hopen.append [e]⟩
    · obtain ⟨u, t, ht, hr, ho⟩ := h.returns hi.checked hv hs
      exact ⟨u, h.owns ho, (hi.ready u t ht hr).append [x]⟩

end Initialises

theorem record_initialises {config : Config} (hc : config.checkSlots = true)
    {is : List Instruction} (h : (start config).record is = .ok (es, w))
    (hcalls : ∀ e ∈ es, e.instruction.byCall = true) (hbinds : BindsResults [] es) :
    Initialises es w := by
  refine record_induction (P := fun es w => (∀ e ∈ es, e.instruction.byCall = true) →
    BindsResults [] es → Initialises es w) (fun _ _ => .start hc) ?_ h hcalls hbinds
  intro es w e w' ih ht hcalls hbinds
  obtain ⟨hbefore, hlast⟩ := bindsResults_snoc.mp hbinds
  have hi := ih (fun x hx => hcalls x (List.mem_append_left _ hx)) hbefore
  exact hi.takes ht (hcalls e (by simp)) hlast

/-! ## Runs -/

theorem assigned_subset_emittedBy (he : e ∈ es) :
    Stmt.assignedAll e.emitted ⊆ Stmt.assignedAll (emittedBy es) := by
  intro s hs
  obtain ⟨before, after, rfl⟩ := List.append_of_mem he
  rw [emittedBy_append, Stmt.assignedAll_append]
  refine List.mem_append_right _ ?_
  rw [emittedBy, List.flatMap_cons, Stmt.assignedAll_append]
  exact List.mem_append_left _ hs

/-- A run of a block that fails does so in one of its entries. -/
theorem emittedBy_error_split {env : Env} {st st' : Store} {err : RunError}
    (h : Stmt.runAll env st (emittedBy es) = (st', .error err)) :
    ∃ before e after st₀, es = before ++ e :: after ∧
      Stmt.runAll env st (emittedBy before) = (st₀, .ok ()) ∧
      Stmt.runAll env st₀ e.emitted = (st', .error err) := by
  induction es generalizing st with
  | nil => simp [emittedBy, Stmt.runAll] at h
  | cons e rest ih =>
    rw [emittedBy, List.flatMap_cons, Stmt.runAll_append] at h
    rcases andThen_eq_error h with h | ⟨st₁, h₁, h₂⟩
    · exact ⟨[], e, rest, st, rfl, rfl, h⟩
    · obtain ⟨before, x, after, st₀, rfl, hbefore, hx⟩ := ih h₂
      refine ⟨e :: before, x, after, st₀, rfl, ?_, hx⟩
      rw [emittedBy, List.flatMap_cons, Stmt.runAll_append, h₁, andThen_ok]
      exact hbefore

/-- An entry that finds a slot unset is the first to reset the call of the slot. -/
theorem Initialises.unset_opens (hi : Initialises es w) {before after : List Entry}
    (hes : es = before ++ e :: after) {env : Env} {st₀ st : Store}
    (hbefore : Stmt.runAll env .fresh (emittedBy before) = (st₀, .ok ()))
    (hrun : Stmt.runAll env st₀ e.emitted = (st, .error (.unsetSlot s))) :
    ∃ u, w.Owns u s ∧ e.instruction.opens? = some u ∧ ¬ Opened before u := by
  obtain ⟨htouched, hunset⟩ := Stmt.runAll_unset env e.emitted hrun
  obtain ⟨u, ho, hopen⟩ := hi.touched before e after hes s htouched
  -- After a reset of its call the slot is set.
  have hfirst : ¬ Opened before u := by
    intro hopened
    obtain ⟨r, hr, hu⟩ := hopened
    obtain ⟨a, ha, hall⟩ := hi.covered r (by rw [hes]; exact List.mem_append_left _ hr) u hu
    have hassigned := assigned_subset_emittedBy hr (hall s ((owns_iff ha).mp ho))
    exact hunset (Stmt.runAll_assigned env (emittedBy before) hbefore hassigned)
  rcases hopen with hopen | hopened
  · exact ⟨u, ho, hopen, hfirst⟩
  · exact (hfirst hopened).elim

/-- A run that stops at an unset slot stops in the first reset of the call that owns the slot;
no other statement ever finds a slot unset. -/
theorem unset_in_first_reset {config : Config} (hc : config.checkSlots = true)
    {is : List Instruction} (h : (start config).record is = .ok (es, w))
    (hcalls : ∀ i ∈ is, i.byCall = true) (hbinds : BindsResults [] es) (env : Env) :
    (∀ st s, Stmt.runAll env .fresh w.pass.draft.stmts = (st, .error (.unsetSlot s)) →
      ∃ before e after u, es = before ++ e :: after ∧ e.instruction.opens? = some u ∧
        ¬ Opened before u ∧ w.Owns u s ∧ (∀ v, w.Owns v s → v = u) ∧
        ∃ pre x post st₀, e.emitted = pre ++ x :: post ∧
          Stmt.runAll env .fresh (emittedBy before ++ pre) = (st₀, .ok ()) ∧
          x.run env st₀ = (st, .error (.unsetSlot s))) ∧
    ∀ before e after, es = before ++ e :: after → e.instruction.opens? = none →
      ∀ st₀ st s, Stmt.runAll env .fresh (emittedBy before) = (st₀, .ok ()) →
        Stmt.runAll env st₀ e.emitted ≠ (st, .error (.unsetSlot s)) := by
  have hcalls' : ∀ e ∈ es, e.instruction.byCall = true := by
    intro e he
    apply hcalls
    rw [← record_instructions h]
    exact List.mem_map_of_mem he
  have hi := record_initialises hc h hcalls' hbinds
  constructor
  · intro st s hrun
    rw [record_stmts h] at hrun
    obtain ⟨before, e, after, st₁, hes, hbefore, he⟩ := emittedBy_error_split hrun
    obtain ⟨u, ho, hopens, hfirst⟩ := hi.unset_opens hes hbefore he
    obtain ⟨pre, x, post, st₀, hem, hpre, hx⟩ := Stmt.runAll_error_split he
    refine ⟨before, e, after, u, hes, hopens, hfirst, ho, ?_, pre, x, post, st₀, hem, ?_, hx⟩
    · intro v hv
      exact (record_apart h).unique v u s hv ho
    · rw [Stmt.runAll_append, hbefore, andThen_ok, hpre]
  · intro before e after hes hnone st₀ st s hbefore hrun
    obtain ⟨u, _, hopens, _⟩ := hi.unset_opens hes hbefore hrun
    rw [hnone] at hopens
    simp at hopens

/-- Counts on from what its slot held before, so its first reset finds the slot unset. -/
def carried : Aggregate where
  name := "carried"
  typing _ := .ok (.int, false)
  layout _ := [.int]
  reset c := do
    let n ← c.slot 0
    .assign n (.add (.slot n) (.int 1))
  add _ _ := return
  result c := c.read 0

/-- A count, bound, and then the first reset of `carried`, whose slot is the second. -/
def carriedAfterCount : List Entry :=
  let count : Expr := .slot ⟨0⟩
  let held : Expr := .slot ⟨1⟩
  [⟨.create (.of "count" [] .int false false) .count, [], .done⟩,
    ⟨.create (.of "carried" [] .int false false) carried, [], .done⟩,
    ⟨.reset 0, [.assign ⟨0⟩ (.int 0)], .done⟩,
    ⟨.add 0 [], [.assign ⟨0⟩ (.add count (.int 1))], .done⟩,
    ⟨.result 0, [], .value count⟩,
    ⟨.bind "n" count, [.declare ⟨0⟩ "agg_n_0" count], .bound ⟨⟨0⟩, "agg_n_0"⟩⟩,
    ⟨.reset 1, [.assign ⟨1⟩ (.add held (.int 1))], .done⟩]

theorem carried_first_reset : ∃ w st, (start (.strict "agg")).record
      (carriedAfterCount.map Entry.instruction) = .ok (carriedAfterCount, w) ∧
    Stmt.runAll ⟨[], none⟩ .fresh w.pass.draft.stmts = (st, .error (.unsetSlot ⟨1⟩)) ∧
    ∃ before e after u, carriedAfterCount = before ++ e :: after ∧
      e.instruction.opens? = some u ∧ ¬ Opened before u ∧ w.Owns u ⟨1⟩ := by
  have h : (start (.strict "agg")).record (carriedAfterCount.map Entry.instruction) =
    .ok (carriedAfterCount, _) := rfl
  have hbinds : BindsResults [] carriedAfterCount := by
    simp [carriedAfterCount, BindsResults, Instruction.bound?, Entry.value?]
  obtain ⟨before, e, after, u, hes, hopens, hfirst, ho, _⟩ :=
    (unset_in_first_reset rfl h (by decide) hbinds ⟨[], none⟩).1 _ _ rfl
  exact ⟨_, _, h, rfl, before, e, after, u, hes, hopens, hfirst, ho⟩

end Workspace
end WindowFold
