import WindowFold.Proofs.Workspace.Initialised

/-!
# The life of a call

A call keeps three marks: whether it is ready, whether it has been warmed up, and whether a
partition has been opened.  What they are after any history of attempts on the call, some of them
successful and some not, can be read off the history (`Lived.remembers`), and they decide which
phases may come next (`lifecycle`).  Every call of a workspace that is reached from the start has
such a history (`attempts_lived`).

Nothing is asked of the implementation, nor of the passes that the attempts are made in: between
two of them anything may have happened to the pass and to the other calls of it.
-/

namespace WindowFold

namespace Instruction

/-- A phase that is closed to window functions. -/
def regular : Instruction → Bool
  | .reset _ | .add _ _ | .merge _ _ | .result _ => true
  | _ => false

/-- What the phase goes by in errors. -/
def phase : Instruction → Phase
  | .add _ _ | .addRow _ _ _ => .add
  | .merge _ _ => .merge
  | .result _ | .resultAt _ _ _ => .result
  | .warmUp _ _ => .warmUp
  | _ => .reset

end Instruction

/-- An instruction that was tried, and what came of it. -/
structure Attempt where
  instruction : Instruction
  outcome : Except EmitError Reply

namespace Attempt

/-- A reset that succeeded, on whichever occasion. -/
def Resets (a : Attempt) : Prop :=
  (∃ u, a.instruction.opens? = some u) ∧ ∃ r, a.outcome = .ok r

def WarmsUp (a : Attempt) : Prop :=
  (∃ u hint, a.instruction = .warmUp u hint) ∧ ∃ r, a.outcome = .ok r

def OpensPartition (a : Attempt) : Prop :=
  (∃ u f, a.instruction = .openPartition u f) ∧ ∃ r, a.outcome = .ok r

end Attempt

/-- The function has no complaint of its own about the order of phases when it is reset over a
window. -/
def Aggregate.KeepsOrder (agg : Aggregate) : Prop :=
  ∀ (c : Site) (o : Opening) (d : Draft) (name : String) (phase : Phase) (obstacle : Obstacle),
    (d.perform (agg.openWindow c o)).2 ≠ .error (.outOfOrder name phase obstacle)

/-! ## Actions that fail -/

namespace PassM

variable {α β : Type}

theorem bind_error {m : PassM α} {p q : Pass} {e : EmitError} (h : m p = .error e q)
    (f : α → PassM β) : (m >>= f) p = .error e q := by
  simp only [bind, EStateM.bind, h]

theorem map_error {m : PassM α} {p q : Pass} {e : EmitError} (h : m p = .error e q) (f : α → β) :
    (f <$> m) p = .error e q := by
  simp only [Functor.map, EStateM.map, h]

end PassM

/-- A guard that is not passed ends the action before anything has happened. -/
theorem Pass.guard_error {α : Type} {r : Except EmitError Unit} {e : EmitError}
    (h : r = .error e) (f : Unit → PassM α) (p : Pass) : (Pass.ensure r >>= f) p = .error e p :=
  PassM.bind_error (by rw [h, Pass.ensure]) f

namespace Tally

variable {t other : Tally} {p q : Pass} {e : EmitError}

theorem requireReady_error (h : t.ready = false) (phase : Phase) :
    t.requireReady phase = .error (.outOfOrder t.signature.name phase .notReset) := by
  simp [requireReady, h]

theorem refuseWindowOnly_error (h : t.aggregate.windowOnly = true) :
    t.refuseWindowOnly = .error (.windowOnly t.signature.name) := by
  simp [refuseWindowOnly, h]

theorem requireCold_ok :
    t.requireCold = .ok () ↔ t.warmedUp = false ∧ t.partitionSeen = false := by
  unfold requireCold
  cases t.warmedUp <;> cases t.partitionSeen <;> simp

theorem requireCold_error (h : t.warmedUp = true ∨ t.partitionSeen = true) :
    ∃ obstacle, t.requireCold = .error (.outOfOrder t.signature.name .warmUp obstacle) := by
  unfold requireCold
  by_cases hw : t.warmedUp = true
  · exact ⟨.warmedUp, by rw [if_pos hw]⟩
  · have hp := h.resolve_left hw
    exact ⟨.partitionSeen, by rw [if_neg hw, if_pos hp]⟩

/-- A reset that passes its guard comes out as what it performs. -/
theorem performReset_guarded {guard : Except EmitError Unit} (h : guard = .ok ())
    (m : Emission Unit) (t' : Tally) (p : Pass) :
    (do Pass.ensure guard; t.performReset m; return t') p =
      match t.performReset m p with
      | .ok _ q => .ok t' q
      | .error e q => .error e q := by
  simp only [h, bind, EStateM.bind, Pass.ensure]
  cases t.performReset m p with
  | ok _ q => rfl
  | error e q => rfl

/-- A reset that fails does so in what is emitted, or in the checks made on it. -/
theorem performReset_error {m : Emission Unit} (h : t.performReset m p = .error e q) :
    (p.draft.perform m).2 = .error e ∨ (∃ s, e = .foreignSlot t.signature.name s) ∨
      ∃ n k, e = .slotCount t.signature.name n k := by
  rw [performReset] at h
  cases hm : Pass.emit m p with
  | error e' q' =>
    rw [PassM.bind_error hm] at h
    obtain ⟨rfl, rfl⟩ := EStateM.Result.error.inj h
    simp only [Pass.emit] at hm
    split at hm
    · simp at hm
    · rename_i e'' he
      obtain ⟨rfl, _⟩ := EStateM.Result.error.inj hm
      exact .inl he
  | ok a q' =>
    simp only [bind, EStateM.bind, hm, Pass.settings] at h
    cases hs : t.checkSlots q'.config none (Stmt.touchedAll a.1) with
    | error e' =>
      simp only [hs, Pass.ensure] at h
      obtain ⟨rfl, _⟩ := EStateM.Result.error.inj h
      unfold checkSlots at hs
      split at hs
      · unfold checkOwned at hs
        split at hs
        · exact .inr (.inl ⟨_, (Except.error.inj hs).symm⟩)
        · simp at hs
      · simp at hs
    | ok _ =>
      simp only [hs, Pass.ensure] at h
      cases hc : t.checkComplete q'.config a.1 with
      | ok _ => simp [hc] at h
      | error e' =>
        simp only [hc] at h
        obtain ⟨rfl, _⟩ := EStateM.Result.error.inj h
        simp only [checkComplete] at hc
        split at hc
        · exact .inr (.inr ⟨_, _, (Except.error.inj hc).symm⟩)
        · simp at hc

/-- A call after an attempt.  Only a reset that succeeds leaves a mark. -/
def after (t : Tally) (a : Attempt) : Tally :=
  match a.outcome with
  | .ok _ => if a.instruction.opens?.isSome then t.opened a.instruction else t
  | .error _ => t

theorem after_error {a : Attempt} (h : a.outcome = .error e) : t.after a = t := by
  simp only [after, h]

theorem after_other {a : Attempt} (h : a.instruction.opens? = none) : t.after a = t := by
  unfold after
  split
  · simp [h]
  · rfl

theorem after_opens {a : Attempt} {u : Nat} (h : a.instruction.opens? = some u) {r : Reply}
    (hr : a.outcome = .ok r) : t.after a = t.opened a.instruction := by
  simp [after, hr, h]

theorem after_ready {a : Attempt} (h : t.ready = true) : (t.after a).ready = true := by
  unfold after
  split
  · split
    · exact t.opened_ready _
    · exact h
  · exact h

theorem after_ready_iff (t : Tally) (a : Attempt) :
    (t.after a).ready = true ↔ t.ready = true ∨ a.Resets := by
  obtain ⟨i, r⟩ := a
  cases r with
  | error e => simp [after, Attempt.Resets]
  | ok r => cases i <;> simp [after, opened, Attempt.Resets, Instruction.opens?]

theorem after_warmedUp_iff (t : Tally) (a : Attempt) :
    (t.after a).warmedUp = true ↔ t.warmedUp = true ∨ a.WarmsUp := by
  obtain ⟨i, r⟩ := a
  cases r with
  | error e => simp [after, Attempt.WarmsUp]
  | ok r => cases i <;> simp [after, opened, Attempt.WarmsUp, Instruction.opens?]

theorem after_partitionSeen_iff (t : Tally) (a : Attempt) :
    (t.after a).partitionSeen = true ↔ t.partitionSeen = true ∨ a.OpensPartition := by
  obtain ⟨i, r⟩ := a
  cases r with
  | error e => simp [after, Attempt.OpensPartition]
  | ok r => cases i <;> simp [after, opened, Attempt.OpensPartition, Instruction.opens?]

end Tally

namespace Workspace

variable {w w' : Workspace} {i : Instruction} {u : Nat} {t t' : Tally} {e : EmitError}

/-! ## What one attempt does to a call -/

theorem update_error {phase : Tally → PassM Tally} (h : w.update u phase = (w', .error e)) :
    w'.tallies = w.tallies := by
  unfold update at h
  split at h
  · rw [← (Prod.mk.inj h).1]
  · split at h
    · simp at h
    · rw [← (Prod.mk.inj h).1]

theorem consult_error {phase : Tally → PassM Reply} (h : w.consult u phase = (w', .error e)) :
    w'.tallies = w.tallies := by
  unfold consult at h
  split at h
  · rw [← (Prod.mk.inj h).1]
  · unfold act at h
    split at h
    · simp at h
    · rw [← (Prod.mk.inj h).1]

theorem update_of_error {phase : Tally → PassM Tally} {p : Pass} (ht : w.tallies[u]? = some t)
    (h : phase t w.pass = .error e p) : w.update u phase = (⟨p, w.tallies⟩, .error e) := by
  simp only [update, ht, h]

theorem consult_of_error {phase : Tally → PassM Reply} {p : Pass} (ht : w.tallies[u]? = some t)
    (h : phase t w.pass = .error e p) : w.consult u phase = (⟨p, w.tallies⟩, .error e) := by
  simp only [consult, ht, act, h]

theorem act_tallies (m : PassM Reply) : (w.act m).1.tallies = w.tallies := by
  unfold act
  split <;> rfl

/-- A phase that fails leaves all calls as they were. -/
theorem step_error (h : w.step i = (w', .error e)) (hi : i.call? = some u) :
    w'.tallies = w.tallies := by
  cases i with
  | reset v => exact update_error h
  | warmUp v hint => exact update_error h
  | openPartition v f => exact update_error h
  | add v args => exact consult_error h
  | addRow v f rows => exact consult_error h
  | result v => exact consult_error h
  | resultAt v f rows => exact consult_error h
  | merge v o =>
    simp only [step] at h
    split at h
    · rw [← (Prod.mk.inj h).1]
    · exact consult_error h
  | create => simp [Instruction.call?] at hi
  | warmUpAll => simp [Instruction.call?] at hi
  | bind => simp [Instruction.call?] at hi
  | emit => simp [Instruction.call?] at hi

theorem step_missing (hi : i.call? = some u) (ht : w.tallies[u]? = none) :
    (w.step i).1.tallies = w.tallies := by
  cases h : w.step i with
  | mk w' r =>
    cases r with
    | error e => exact step_error h hi
    | ok r =>
      obtain ⟨t, ht'⟩ := (takes_of_step h).exists_tally hi
      simp [ht] at ht'

/-- An attempt on a call changes that call's marks and no other call. -/
theorem step_calls (hi : i.call? = some u) (ht : w.tallies[u]? = some t) :
    (w.step i).1.tallies = w.tallies.set u (t.after ⟨i, (w.step i).2⟩) := by
  have hsame : w.tallies.set u t = w.tallies := by
    obtain ⟨hlt, rfl⟩ := List.getElem?_eq_some_iff.mp ht
    exact List.set_getElem_self hlt
  cases h : w.step i with
  | mk w' r =>
    cases r with
    | error e => rw [Tally.after_error rfl, hsame, step_error h hi]
    | ok r =>
      obtain ⟨ss, htakes⟩ : ∃ ss, w.Takes ⟨i, ss, r⟩ w' := ⟨_, takes_of_step h⟩
      cases htakes with
      | @opened _ v t₀ _ _ hopens ht₀ _ _ _ _ =>
        rw [Instruction.call?_of_opens? hopens, Option.some.injEq] at hi
        subst hi
        obtain rfl : t₀ = t := Option.some.inj (ht₀.symm.trans ht)
        rw [Tally.after_opens hopens rfl]
      | updated _ _ _ hu _ _ => rw [Tally.after_other hu.opens?_eq_none, hsame]
      | yielded _ _ _ hy _ _ _ _ => rw [Tally.after_other hy.opens?_eq_none, hsame]
      | created => simp [Instruction.call?] at hi
      | bound => simp [Instruction.call?] at hi
      | warmed => simp [Instruction.call?] at hi
      | emitted => simp [Instruction.call?] at hi

theorem step_after (hi : i.call? = some u) (ht : w.tallies[u]? = some t) :
    (w.step i).1.tallies[u]? = some (t.after ⟨i, (w.step i).2⟩) := by
  obtain ⟨hlt, _⟩ := List.getElem?_eq_some_iff.mp ht
  rw [step_calls hi ht, List.getElem?_set_self hlt]

theorem step_apart {v : Nat} (hi : i.call? = some v) (hne : v ≠ u) :
    (w.step i).1.tallies[u]? = w.tallies[u]? := by
  cases ht : w.tallies[v]? with
  | none => rw [step_missing hi ht]
  | some t => rw [step_calls hi ht, List.getElem?_set_ne hne]

/-! ## Histories -/

/-- What a call has come to after attempts on it.  The workspace may be another one each time, as
long as the call is in it the way the last attempt left it. -/
inductive Lived (u : Nat) : List Attempt → Tally → Prop
  | created {sig agg p p' t} (h : Tally.create sig agg p = .ok t p') : Lived u [] t
  | tried {as t t'} {w : Workspace} {i : Instruction} (h : Lived u as t) (hi : i.call? = some u)
      (ht : w.tallies[u]? = some t) (ht' : (w.step i).1.tallies[u]? = some t') :
      Lived u (as ++ [⟨i, (w.step i).2⟩]) t'

/-- The calls of a workspace have come to what they are by attempts on them. -/
def AllLived (w : Workspace) : Prop := ∀ u t, w.tallies[u]? = some t → ∃ as, Lived u as t

/-- Warming up all calls is a warm-up of each call that it gets to. -/
theorem warmUpAll_each {hint : Expr} {p : Pass} {ts : List Tally}
    (h : (Tally.warmUpAll hint p ts).1[u]? = some t') :
    ts[u]? = some t' ∨ ∃ t q q', ts[u]? = some t ∧ t.warmUp hint q = .ok t' q' := by
  induction ts generalizing p u with
  | nil => exact .inl h
  | cons t rest ih =>
    simp only [Tally.warmUpAll] at h
    cases hw : t.warmUp hint p with
    | error e q =>
      rw [hw] at h
      exact .inl h
    | ok t₁ q =>
      rw [hw] at h
      cases u with
      | zero =>
        obtain rfl : t₁ = t' := by simpa using h
        exact .inr ⟨t, p, q, rfl, hw⟩
      | succ u => exact ih h

/-- Whatever is tried in a workspace, what it leaves of a call comes of an attempt on the call or
was there before. -/
theorem step_lived (hw : w.AllLived) (i : Instruction) : (w.step i).1.AllLived := by
  intro u t ht
  cases hi : i.call? with
  | some v =>
    by_cases hvu : v = u
    · subst hvu
      cases hold : w.tallies[v]? with
      | some t₀ =>
        obtain ⟨as, hlived⟩ := hw v t₀ hold
        exact ⟨_, hlived.tried hi hold ht⟩
      | none =>
        rw [step_missing hi hold, hold] at ht
        simp at ht
    · rw [step_apart hi hvu] at ht
      exact hw u t ht
  | none =>
    cases i with
    | create sig agg =>
      simp only [step] at ht
      cases hc : Tally.create sig agg w.pass with
      | error e p =>
        rw [hc] at ht
        exact hw u t ht
      | ok t₀ p =>
        simp only [hc, List.getElem?_append, List.getElem?_singleton] at ht
        split_ifs at ht with hlt hzero
        · exact hw u t ht
        · obtain rfl := Option.some.inj ht
          exact ⟨[], .created hc⟩
    | warmUpAll hint =>
      rcases warmUpAll_each ht with ht | ⟨t₀, q, q', ht₀, hwarm⟩
      · exact hw u t ht
      · obtain ⟨as, hlived⟩ := hw u t₀ ht₀
        have hstep : (Workspace.mk q w.tallies).step (.warmUp u hint) =
            (⟨q', w.tallies.set u t⟩, .ok .done) :=
          update_ok.mpr ⟨t₀, t, ht₀, hwarm, rfl, rfl⟩
        obtain ⟨hlt, _⟩ := List.getElem?_eq_some_iff.mp ht₀
        refine ⟨_, hlived.tried (i := .warmUp u hint) rfl (w := ⟨q, w.tallies⟩) ht₀ ?_⟩
        rw [hstep, List.getElem?_set_self hlt]
    | bind name v =>
      rw [step, act_tallies] at ht
      exact hw u t ht
    | emit ops =>
      rw [step, act_tallies] at ht
      exact hw u t ht
    | reset | add | merge | result | warmUp | openPartition | addRow | resultAt =>
      simp [Instruction.call?] at hi

/-- In a workspace that is reached from the start every call has lived. -/
theorem attempts_lived (config : Config) (is : List Instruction) :
    ((start config).attempts is).2.AllLived := by
  have hkept : ∀ w : Workspace, w.AllLived → (w.attempts is).2.AllLived := by
    induction is with
    | nil => exact fun _ hw => hw
    | cons i rest ih => exact fun w hw => ih _ (step_lived hw i)
  exact hkept _ nofun

theorem exists_mem_concat {α : Type} {P : α → Prop} {as : List α} {x : α} :
    (∃ a ∈ as ++ [x], P a) ↔ (∃ a ∈ as, P a) ∨ P x := by
  simp only [List.mem_append, List.mem_singleton, or_and_right, exists_or, exists_eq_left]

/-- A warm-up succeeds only before any other and before any partition. -/
theorem cold_of_warmUp {hint : Expr} {r : Reply} (ht : w.tallies[u]? = some t)
    (h : (w.step (.warmUp u hint)).2 = .ok r) : t.warmedUp = false ∧ t.partitionSeen = false := by
  obtain ⟨t₀, _, ht₀, hp, _, _⟩ := update_ok.mp (show w.step (.warmUp u hint) = (_, .ok r) from
    Prod.ext rfl h)
  obtain rfl : t₀ = t := Option.some.inj (ht₀.symm.trans ht)
  exact Tally.requireCold_ok.mp (Tally.warmUp_ok.mp hp).1

/-- The marks of a call, read off its history. -/
structure Remembers (as : List Attempt) (t : Tally) : Prop where
  ready : t.ready = true ↔ ∃ a ∈ as, a.Resets
  warmedUp : t.warmedUp = true ↔ ∃ a ∈ as, a.WarmsUp
  partitionSeen : t.partitionSeen = true ↔ ∃ a ∈ as, a.OpensPartition
  /-- A warm-up that succeeded came after no other and after no partition. -/
  cold : ∀ before a after, as = before ++ a :: after → a.WarmsUp →
    ∀ b ∈ before, ¬ b.WarmsUp ∧ ¬ b.OpensPartition

theorem Remembers.attempt {as : List Attempt} (h : Remembers as t) (hi : i.call? = some u)
    (ht : w.tallies[u]? = some t) :
    Remembers (as ++ [⟨i, (w.step i).2⟩]) (t.after ⟨i, (w.step i).2⟩) where
  ready := by rw [Tally.after_ready_iff, h.ready, exists_mem_concat]
  warmedUp := by rw [Tally.after_warmedUp_iff, h.warmedUp, exists_mem_concat]
  partitionSeen := by rw [Tally.after_partitionSeen_iff, h.partitionSeen, exists_mem_concat]
  cold := by
    intro before a after hsplit hwarm b hb
    rcases snoc_eq_append_cons hsplit with ⟨rfl, rfl, _⟩ | ⟨after', _, hsplit⟩
    · obtain ⟨⟨v, hint, rfl⟩, r, hr⟩ := hwarm
      obtain rfl : v = u := Option.some.inj hi
      obtain ⟨hcold, hunseen⟩ := cold_of_warmUp ht hr
      constructor
      · intro hbw
        rw [h.warmedUp.mpr ⟨b, hb, hbw⟩] at hcold
        exact Bool.noConfusion hcold
      · intro hbp
        rw [h.partitionSeen.mpr ⟨b, hb, hbp⟩] at hunseen
        exact Bool.noConfusion hunseen
    · exact h.cold before a after' hsplit hwarm b hb

theorem Lived.remembers {as : List Attempt} (h : Lived u as t) : Remembers as t := by
  induction h with
  | created h =>
    obtain ⟨rfl, _⟩ := Tally.create_ok.mp h
    exact ⟨by simp, by simp, by simp, by simp⟩
  | tried _ hi ht ht' ih =>
    rw [step_after hi ht, Option.some.injEq] at ht'
    rw [← ht']
    exact ih.attempt hi ht

/-! ## Attempts that are refused -/

/-- A window function refuses the phases that are closed to it whatever its state. -/
theorem step_windowOnly (hi : i.call? = some u) (ht : w.tallies[u]? = some t)
    (hother : ∀ v, i.merged? = some v → v < w.tallies.length) (hregular : i.regular = true)
    (hw : t.aggregate.windowOnly = true) :
    (w.step i).2 = .error (.windowOnly t.signature.name) := by
  have hrefuse := Tally.refuseWindowOnly_error hw
  cases i with
  | reset v =>
    obtain rfl := Option.some.inj hi
    exact congrArg Prod.snd (update_of_error ht (Pass.guard_error hrefuse _ _))
  | add v args =>
    obtain rfl := Option.some.inj hi
    exact congrArg Prod.snd
      (consult_of_error ht (PassM.bind_error (Pass.guard_error hrefuse _ _) _))
  | result v =>
    obtain rfl := Option.some.inj hi
    exact congrArg Prod.snd (consult_of_error ht (PassM.map_error (Pass.guard_error hrefuse _ _) _))
  | merge v o =>
    obtain rfl := Option.some.inj hi
    have ho : w.tallies[o]? = some _ := List.getElem?_eq_getElem (hother o rfl)
    simp only [step, ho]
    exact congrArg Prod.snd
      (consult_of_error ht (PassM.bind_error (Pass.guard_error hrefuse _ _) _))
  | create => simp [Instruction.regular] at hregular
  | warmUp => simp [Instruction.regular] at hregular
  | warmUpAll => simp [Instruction.regular] at hregular
  | openPartition => simp [Instruction.regular] at hregular
  | addRow => simp [Instruction.regular] at hregular
  | resultAt => simp [Instruction.regular] at hregular
  | bind => simp [Instruction.regular] at hregular
  | emit => simp [Instruction.regular] at hregular

/-- Before its first reset a call refuses every other phase that is open to it. -/
theorem step_notReset (hi : i.call? = some u) (ht : w.tallies[u]? = some t)
    (hother : ∀ v, i.merged? = some v → v < w.tallies.length) (hopens : i.opens? = none)
    (hw : i.regular = true → t.aggregate.windowOnly = false) (hr : t.ready = false) :
    (w.step i).2 = .error (.outOfOrder t.signature.name i.phase .notReset) := by
  have hrefuse (h : i.regular = true) : t.refuseWindowOnly = .ok () :=
    Tally.refuseWindowOnly_ok.mpr (hw h)
  have hnot := t.requireReady_error hr
  cases i with
  | add v args =>
    obtain rfl := Option.some.inj hi
    refine congrArg Prod.snd (consult_of_error ht (PassM.bind_error (q := w.pass) ?_ _))
    rw [Tally.add, hrefuse rfl]
    exact Pass.guard_error (hnot .add) _ _
  | addRow v f rows =>
    obtain rfl := Option.some.inj hi
    exact congrArg Prod.snd
      (consult_of_error ht (PassM.bind_error (Pass.guard_error (hnot .add) _ _) _))
  | result v =>
    obtain rfl := Option.some.inj hi
    refine congrArg Prod.snd (consult_of_error ht (PassM.map_error (q := w.pass) ?_ _))
    rw [Tally.result, hrefuse rfl]
    exact Pass.guard_error (hnot .result) _ _
  | resultAt v f rows =>
    obtain rfl := Option.some.inj hi
    exact congrArg Prod.snd
      (consult_of_error ht (PassM.map_error (Pass.guard_error (hnot .result) _ _) _))
  | merge v o =>
    obtain rfl := Option.some.inj hi
    have ho : w.tallies[o]? = some _ := List.getElem?_eq_getElem (hother o rfl)
    simp only [step, ho]
    refine congrArg Prod.snd (consult_of_error ht (PassM.bind_error (q := w.pass) ?_ _))
    rw [Tally.merge, hrefuse rfl]
    exact Pass.guard_error (hnot .merge) _ _
  | create => simp [Instruction.call?] at hi
  | reset => simp [Instruction.opens?] at hopens
  | warmUp => simp [Instruction.opens?] at hopens
  | warmUpAll => simp [Instruction.call?] at hi
  | openPartition => simp [Instruction.opens?] at hopens
  | bind => simp [Instruction.call?] at hi
  | emit => simp [Instruction.call?] at hi

theorem step_warmUp_refused {hint : Expr} (ht : w.tallies[u]? = some t)
    (h : t.requireCold = .error e) : (w.step (.warmUp u hint)).2 = .error e :=
  congrArg Prod.snd (update_of_error ht (Pass.guard_error h _ _))

/-- A call that is cold is not told that its warm-up comes out of order, unless by the function. -/
theorem step_warmUp_cold {hint : Expr} (ht : w.tallies[u]? = some t)
    (hagg : t.aggregate.KeepsOrder) (h : t.requireCold = .ok ()) (name : String) (phase : Phase)
    (obstacle : Obstacle) :
    (w.step (.warmUp u hint)).2 ≠ .error (.outOfOrder name phase obstacle) := by
  intro herror
  have hstep : (w.update u fun t => t.warmUp hint).2 = _ := herror
  unfold update at hstep
  simp only [ht, Tally.warmUp, h] at hstep
  cases hp : t.performReset (t.aggregate.openWindow t.site (.warmUp hint)) w.pass with
  | ok a p => simp [bind, EStateM.bind, Pass.ensure, hp, pure, EStateM.pure] at hstep
  | error e' p =>
    simp only [bind, EStateM.bind, Pass.ensure, hp, Except.error.injEq] at hstep
    subst hstep
    rcases Tally.performReset_error hp with h | ⟨s, h⟩ | ⟨n, k, h⟩
    · exact hagg _ _ _ _ _ _ h
    · simp at h
    · simp at h

/-! ## The life of a call -/

/-- How the next attempt `i` on a call comes out: `r`, leaving the call as `t'`. -/
structure Continues (as : List Attempt) (t : Tally) (i : Instruction)
    (r : Except EmitError Reply) (t' : Tally) : Prop where
  /-- There is no way back from ready. -/
  forward : t.ready = true → t'.ready = true
  unchanged : ∀ e, r = .error e → t' = t
  ready : i.opens? = none → ∀ x, r = .ok x → t.ready = true
  windowOnly : i.regular = true → t.aggregate.windowOnly = true →
    r = .error (.windowOnly t.signature.name)
  notReset : i.opens? = none → (i.regular = true → t.aggregate.windowOnly = false) →
    t.ready = false → r = .error (.outOfOrder t.signature.name i.phase .notReset)
  /-- The warm-up is refused after another one or after a partition, and for no other reason is it
  said to be out of order. -/
  warmed : ∀ u hint, i = .warmUp u hint → (∃ a ∈ as, a.WarmsUp ∨ a.OpensPartition) →
    ∃ obstacle, r = .error (.outOfOrder t.signature.name .warmUp obstacle)
  cold : ∀ u hint, i = .warmUp u hint → t.aggregate.KeepsOrder → ∀ name phase obstacle,
    r = .error (.outOfOrder name phase obstacle) → ∃ a ∈ as, a.WarmsUp ∨ a.OpensPartition

/-- After any attempts, a call is ready if and only if one of them was a reset that succeeded; the
one warm-up that succeeded, if there is one, came after no other and after no partition; and the
next attempt comes out in accordance with that. -/
theorem lifecycle {as : List Attempt} (h : Lived u as t) :
    (t.ready = true ↔ ∃ a ∈ as, a.Resets) ∧
    (∀ before a after, as = before ++ a :: after → a.WarmsUp →
      ∀ b ∈ before, ¬ b.WarmsUp ∧ ¬ b.OpensPartition) ∧
    ∀ (w : Workspace) (i : Instruction), w.tallies[u]? = some t → i.call? = some u →
      (∀ v, i.merged? = some v → v < w.tallies.length) →
      ∃ t', (w.step i).1.tallies[u]? = some t' ∧ Continues as t i (w.step i).2 t' := by
  have hremembers := h.remembers
  refine ⟨hremembers.ready, hremembers.cold, ?_⟩
  intro w i ht hi hother
  refine ⟨_, step_after hi ht, ?_⟩
  have hmarks : (∃ a ∈ as, a.WarmsUp ∨ a.OpensPartition) ↔
      t.warmedUp = true ∨ t.partitionSeen = true := by
    rw [hremembers.warmedUp, hremembers.partitionSeen]
    simp only [and_or_left, exists_or]
  have hwindow := step_windowOnly hi ht hother
  constructor
  · exact Tally.after_ready
  · intro e he
    exact Tally.after_error he
  · intro hopens x hx
    by_contra hr
    rw [Bool.not_eq_true] at hr
    by_cases hw : i.regular = true ∧ t.aggregate.windowOnly = true
    · rw [hwindow hw.1 hw.2] at hx
      simp at hx
    · have hopen : i.regular = true → t.aggregate.windowOnly = false := by
        intro hregular
        rw [← Bool.not_eq_true]
        exact fun h => hw ⟨hregular, h⟩
      rw [step_notReset hi ht hother hopens hopen hr] at hx
      simp at hx
  · exact hwindow
  · exact step_notReset hi ht hother
  · rintro v hint rfl hpast
    obtain rfl := Option.some.inj hi
    obtain ⟨obstacle, hcold⟩ := Tally.requireCold_error (hmarks.mp hpast)
    exact ⟨obstacle, step_warmUp_refused ht hcold⟩
  · rintro v hint rfl hagg name phase obstacle hr
    obtain rfl := Option.some.inj hi
    rw [hmarks]
    by_contra hnone
    rw [not_or, Bool.not_eq_true, Bool.not_eq_true] at hnone
    exact step_warmUp_cold ht hagg (Tally.requireCold_ok.mpr hnone) name phase obstacle hr

/-- A count that is added to too early, warmed up, and then reset for a group is ready; another
warm-up is refused. -/
theorem count_warmed_once : ∃ as t, Lived 0 as t ∧
    as.map Attempt.instruction = [.add 0 [], .warmUp 0 Opening.unknownSize, .reset 0] ∧
    t.ready = true ∧ ∀ (w : Workspace) (hint : Expr), w.tallies[0]? = some t →
      ∃ obstacle, (w.step (.warmUp 0 hint)).2 =
        .error (.outOfOrder t.signature.name .warmUp obstacle) := by
  have hsession : ∃ t p, Tally.create (.of "count" [] .int false false) .count
        (start (.strict "agg")).pass = .ok t p ∧
      ∃ w₁ e, (Workspace.mk p [t]).step (.add 0 []) = (w₁, .error e) ∧ w₁.tallies = [t] ∧
      ∃ w₂ r t₂, w₁.step (.warmUp 0 Opening.unknownSize) = (w₂, .ok r) ∧ w₂.tallies = [t₂] ∧
      ∃ w₃ r', w₂.step (.reset 0) = (w₃, .ok r') ∧ w₃.tallies = [t₂] :=
    ⟨_, _, rfl, _, _, rfl, rfl, _, _, _, rfl, rfl, _, _, rfl, rfl⟩
  obtain ⟨t, p, hcreate, w₁, e, hadd, ht₁, w₂, r, t₂, hwarm, ht₂, w₃, r', hreset, ht₃⟩ := hsession
  have hadded : w₁.tallies[0]? = some t := by rw [ht₁]; rfl
  have hwarmed : w₂.tallies[0]? = some t₂ := by rw [ht₂]; rfl
  have hafter : w₃.tallies[0]? = some t₂ := by rw [ht₃]; rfl
  have h₁ := (Lived.created hcreate).tried (u := 0) (i := .add 0 []) rfl (w := ⟨p, [t]⟩) rfl
    (by rw [hadd, hadded])
  have h₂ := h₁.tried (i := .warmUp 0 Opening.unknownSize) rfl hadded (by rw [hwarm, hwarmed])
  have h₃ := h₂.tried (i := .reset 0) rfl hwarmed (by rw [hreset, hafter])
  rw [hadd, hwarm, hreset] at h₃
  obtain ⟨hready, _, hnext⟩ := lifecycle h₃
  refine ⟨_, t₂, h₃, rfl, hready.mpr ⟨⟨.reset 0, _⟩, by simp, ⟨0, rfl⟩, r', rfl⟩, ?_⟩
  intro w hint ht
  obtain ⟨_, _, hcontinues⟩ := hnext w (.warmUp 0 hint) ht rfl (by simp [Instruction.merged?])
  refine hcontinues.warmed 0 hint rfl ⟨⟨.warmUp 0 Opening.unknownSize, .ok r⟩, by simp, .inl ?_⟩
  exact ⟨⟨0, _, rfl⟩, r, rfl⟩

end Workspace
end WindowFold
