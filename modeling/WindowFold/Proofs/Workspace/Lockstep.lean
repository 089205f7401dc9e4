import WindowFold.Proofs.Workspace.Lifecycle

/-!
# Passes in lockstep

Two passes are taken through the same actions.  If a relation between passes is kept by what
actions are made of, which is emitting, taking slots and binding values (`Lockstep`), every
instruction keeps it, answers the same on both sides and leaves the same calls
(`Lockstep.step`).

The two may differ in the checks they make.  Where the first makes more of them, a failure on its
side says nothing of the other.
-/

namespace WindowFold

/-- The first configuration makes every check that the second makes, and locals are named alike. -/
structure Config.Covers (a b : Config) : Prop where
  frames : b.checkFrames = true → a.checkFrames = true
  slots : b.checkSlots = true → a.checkSlots = true
  stem : b.localStem = a.localStem

/-- A guard on the second side is no harder to pass than on the first, and with `S` it is the
same. -/
structure Eases (S : Prop) (r r' : Except EmitError Unit) : Prop where
  same : S → r' = r
  passes : r = .ok () → r' = .ok ()

/-! ## Actions -/

namespace PassM

variable {α β : Type} {R : Pass → Pass → Prop} {S : Prop}

/-- What comes of an action on two sides.  Without `S`, nothing is asked for once the first side
has failed. -/
inductive Agree (R : Pass → Pass → Prop) (S : Prop) :
    EStateM.Result EmitError Pass α → EStateM.Result EmitError Pass α → Prop
  | ok {a p q} (h : R p q) : Agree R S (.ok a p) (.ok a q)
  | error {e p q} (h : R p q) : Agree R S (.error e p) (.error e q)
  | excused {e p r} (h : ¬ S) : Agree R S (.error e p) r

/-- The two actions agree on passes that are related. -/
def Sim (R : Pass → Pass → Prop) (S : Prop) (m m' : PassM α) : Prop :=
  ∀ p q, R p q → Agree R S (m p) (m' q)

theorem Sim.pure (a : α) : Sim R S (Pure.pure a) (Pure.pure a) := fun _ _ h => .ok h

theorem Sim.bind {m m' : PassM α} {f f' : α → PassM β} (hm : Sim R S m m')
    (hf : ∀ a, Sim R S (f a) (f' a)) : Sim R S (m >>= f) (m' >>= f') := by
  intro p q h
  have hagree := hm p q h
  simp only [Bind.bind, EStateM.bind]
  generalize m p = r at hagree
  generalize m' q = r' at hagree
  cases hagree with
  | ok h' => exact hf _ _ _ h'
  | error h' => exact .error h'
  | excused hs => exact .excused hs

theorem Sim.map {m m' : PassM α} (hm : Sim R S m m') (f : α → β) :
    Sim R S (f <$> m) (f <$> m') := by
  intro p q h
  have hagree := hm p q h
  simp only [Functor.map, EStateM.map]
  generalize m p = r at hagree
  generalize m' q = r' at hagree
  cases hagree with
  | ok h' => exact .ok h'
  | error h' => exact .error h'
  | excused hs => exact .excused hs

end PassM

open PassM (Agree Sim)

theorem Pass.ensure_sim {α : Type} {R : Pass → Pass → Prop} {S : Prop} (r : Except EmitError α) :
    Sim R S (Pass.ensure r) (Pass.ensure r) := by
  intro p q h
  cases r with
  | ok a => exact .ok h
  | error e => exact .error h

theorem Pass.guard_sim {R : Pass → Pass → Prop} {S : Prop} {r r' : Except EmitError Unit}
    (hr : Eases S r r') : Sim R S (Pass.ensure r) (Pass.ensure r') := by
  intro p q h
  cases r with
  | ok a =>
    rw [hr.passes rfl]
    exact .ok h
  | error e =>
    by_cases hs : S
    · rw [hr.same hs]
      exact .error h
    · exact .excused hs

/-- The relation between passes is kept by all that actions do to them. -/
structure Lockstep (R : Pass → Pass → Prop) (S : Prop) : Prop where
  covers : ∀ p q, R p q → p.config.Covers q.config
  config : S → ∀ p q, R p q → q.config = p.config
  emit : ∀ {α : Type} (m : Emission α), Sim R S (Pass.emit m) (Pass.emit m)
  allocate : ∀ n, Sim R S (Pass.allocate n) (Pass.allocate n)
  bind : ∀ name e, Sim R S (Pass.bind name e) (Pass.bind name e)

/-! ## Checks -/

namespace Tally

variable {S : Prop} {a b : Config} (t : Tally)

theorem checkSlots_eases (h : a.Covers b) (hs : S → b = a) (o : Option Accumulator)
    (slots : List SlotId) : Eases S (t.checkSlots a o slots) (t.checkSlots b o slots) where
  same hS := by rw [hs hS]
  passes hok := by
    unfold checkSlots at hok ⊢
    by_cases hb : b.checkSlots = true
    · rw [if_pos (h.slots hb)] at hok
      rw [if_pos hb]
      exact hok
    · rw [if_neg hb]

theorem checkComplete_eases (h : a.Covers b) (hs : S → b = a) (ss : List Stmt) :
    Eases S (t.checkComplete a ss) (t.checkComplete b ss) where
  same hS := by rw [hs hS]
  passes hok := by
    unfold checkComplete at hok ⊢
    by_cases hb : b.checkSlots = true
    · rw [h.slots hb] at hok
      rw [hb]
      exact hok
    · simp [hb]

theorem checkFrame_eases (h : a.Covers b) (hs : S → b = a) (f : Frame) :
    Eases S (checkFrame a f) (checkFrame b f) where
  same hS := by rw [hs hS]
  passes hok := by
    unfold checkFrame at hok ⊢
    by_cases hb : b.checkFrames = true
    · rw [if_pos (h.frames hb)] at hok
      rw [if_pos hb]
      exact hok
    · rw [if_neg hb]

end Tally

/-! ## Phases -/

namespace Lockstep

variable {R : Pass → Pass → Prop} {S : Prop} {α : Type}

/-- Actions that go on from the configuration may be different ones, as the configurations are. -/
theorem settings (hl : Lockstep R S) {f f' : Config → PassM α}
    (hf : ∀ a b, a.Covers b → (S → b = a) → Sim R S (f a) (f' b)) :
    Sim R S (Pass.settings >>= f) (Pass.settings >>= f') := by
  intro p q h
  exact hf _ _ (hl.covers p q h) (fun hS => hl.config hS p q h) p q h

variable (hl : Lockstep R S) (t : Tally)

include hl

theorem checkReset {ss ss' : List Stmt} (htouched : Stmt.touchedAll ss' = Stmt.touchedAll ss)
    (hassigned : Stmt.assignedAll ss' = Stmt.assignedAll ss) :
    Sim R S
      (Pass.settings >>= fun c => do
        Pass.ensure (t.checkSlots c none (Stmt.touchedAll ss))
        Pass.ensure (t.checkComplete c ss))
      (Pass.settings >>= fun c => do
        Pass.ensure (t.checkSlots c none (Stmt.touchedAll ss'))
        Pass.ensure (t.checkComplete c ss')) := by
  refine hl.settings fun a b hab hS => ?_
  have hcomplete : t.checkComplete b ss' = t.checkComplete b ss := by
    simp only [Tally.checkComplete, hassigned]
  rw [htouched, hcomplete]
  exact .bind (Pass.guard_sim (t.checkSlots_eases hab hS _ _)) fun _ =>
    Pass.guard_sim (t.checkComplete_eases hab hS _)

theorem performReset (m : Emission Unit) : Sim R S (t.performReset m) (t.performReset m) :=
  .bind (hl.emit m) fun _ => hl.checkReset t rfl rfl

theorem performUpdate (o : Option Accumulator) (m : Emission Unit) :
    Sim R S (t.performUpdate o m) (t.performUpdate o m) :=
  .bind (hl.emit m) fun _ => hl.settings fun _ _ hab hS =>
    Pass.guard_sim (t.checkSlots_eases hab hS _ _)

theorem performResult (m : Emission Expr) : Sim R S (t.performResult m) (t.performResult m) :=
  .bind (hl.emit m) fun _ => hl.settings fun _ _ hab hS =>
    .bind (Pass.ensure_sim _) fun _ =>
    .bind (Pass.guard_sim (t.checkSlots_eases hab hS _ _)) fun _ =>
    .bind (Pass.guard_sim (t.checkSlots_eases hab hS _ _)) fun _ => .pure _

theorem create (sig : Signature) (agg : Aggregate) :
    Sim R S (Tally.create sig agg) (Tally.create sig agg) :=
  .bind (hl.allocate _) fun _ => .pure _

theorem reset : Sim R S t.reset t.reset :=
  .bind (Pass.ensure_sim _) fun _ => .bind (hl.performReset t _) fun _ => .pure _

theorem warmUp (hint : Expr) : Sim R S (t.warmUp hint) (t.warmUp hint) :=
  .bind (Pass.ensure_sim _) fun _ => .bind (hl.performReset t _) fun _ => .pure _

theorem openPartition (f : Frame) : Sim R S (t.openPartition f) (t.openPartition f) :=
  hl.settings fun _ _ hab hS =>
    .bind (Pass.guard_sim (Tally.checkFrame_eases hab hS f)) fun _ =>
    .bind (hl.performReset t _) fun _ => .pure _

theorem add (args : List Expr) : Sim R S (t.add args) (t.add args) :=
  .bind (Pass.ensure_sim _) fun _ => .bind (Pass.ensure_sim _) fun _ =>
    .bind (Pass.ensure_sim _) fun _ => hl.performUpdate t _ _

theorem merge (other : Tally) : Sim R S (t.merge other) (t.merge other) :=
  .bind (Pass.ensure_sim _) fun _ => .bind (Pass.ensure_sim _) fun _ =>
    .bind (Pass.ensure_sim _) fun _ => hl.performUpdate t _ _

theorem result : Sim R S t.result t.result :=
  .bind (Pass.ensure_sim _) fun _ => .bind (Pass.ensure_sim _) fun _ => hl.performResult t _

theorem addRow (f : Frame) (rows : RowArguments) : Sim R S (t.addRow f rows) (t.addRow f rows) :=
  .bind (Pass.ensure_sim _) fun _ => hl.settings fun _ _ hab hS =>
    .bind (Pass.guard_sim (Tally.checkFrame_eases hab hS f)) fun _ =>
    .bind (Pass.ensure_sim _) fun _ => hl.performUpdate t _ _

theorem resultAt (f : Frame) (rows : RowArguments) :
    Sim R S (t.resultAt f rows) (t.resultAt f rows) :=
  .bind (Pass.ensure_sim _) fun _ => hl.settings fun _ _ hab hS =>
    .bind (Pass.guard_sim (Tally.checkFrame_eases hab hS f)) fun _ => hl.performResult t _

end Lockstep

/-! ## Instructions -/

namespace Workspace

/-- The passes are related and the calls are the same. -/
structure Beside (R : Pass → Pass → Prop) (w v : Workspace) : Prop where
  pass : R w.pass v.pass
  tallies : v.tallies = w.tallies

/-- What comes of an instruction on two sides.  Without `S`, nothing is asked for once the first
side has failed. -/
def StepsAlike (R : Pass → Pass → Prop) (S : Prop)
    (x y : Workspace × Except EmitError Reply) : Prop :=
  (Beside R x.1 y.1 ∧ y.2 = x.2) ∨ (¬ S ∧ ∃ e, x.2 = .error e)

variable {R : Pass → Pass → Prop} {S : Prop} {w v : Workspace}

theorem act_alike (h : Beside R w v) {m m' : PassM Reply} (hm : Sim R S m m') :
    StepsAlike R S (w.act m) (v.act m') := by
  have hagree := hm _ _ h.pass
  unfold act
  generalize m w.pass = r at hagree
  generalize m' v.pass = r' at hagree
  cases hagree with
  | ok h' => exact .inl ⟨⟨h', h.tallies⟩, rfl⟩
  | error h' => exact .inl ⟨⟨h', h.tallies⟩, rfl⟩
  | excused hs => exact .inr ⟨hs, _, rfl⟩

theorem consult_alike (h : Beside R w v) (u : Nat) {phase : Tally → PassM Reply}
    (hp : ∀ t, Sim R S (phase t) (phase t)) :
    StepsAlike R S (w.consult u phase) (v.consult u phase) := by
  unfold consult
  rw [h.tallies]
  cases w.tallies[u]? with
  | none => exact .inl ⟨h, rfl⟩
  | some t => exact act_alike h (hp t)

theorem update_alike (h : Beside R w v) (u : Nat) {phase phase' : Tally → PassM Tally}
    (hp : ∀ t, w.tallies[u]? = some t → Sim R S (phase t) (phase' t)) :
    StepsAlike R S (w.update u phase) (v.update u phase') := by
  unfold update
  rw [h.tallies]
  cases ht : w.tallies[u]? with
  | none => exact .inl ⟨h, rfl⟩
  | some t =>
    have hagree := hp t ht _ _ h.pass
    simp only
    generalize phase t w.pass = r at hagree
    generalize phase' t v.pass = r' at hagree
    cases hagree with
    | ok h' => exact .inl ⟨⟨h', rfl⟩, rfl⟩
    | error h' => exact .inl ⟨⟨h', rfl⟩, rfl⟩
    | excused hs => exact .inr ⟨hs, _, rfl⟩

end Workspace

variable {R : Pass → Pass → Prop} {S : Prop}

/-- Warm-ups that agree call by call agree as a whole. -/
theorem Tally.warmUpAll_alike {hint hint' : Expr} (ts : List Tally)
    (hw : ∀ t ∈ ts, Sim R S (t.warmUp hint) (t.warmUp hint')) {p q : Pass} (h : R p q) :
    (R (warmUpAll hint p ts).2.1 (warmUpAll hint' q ts).2.1 ∧
      (warmUpAll hint' q ts).1 = (warmUpAll hint p ts).1 ∧
      (warmUpAll hint' q ts).2.2 = (warmUpAll hint p ts).2.2) ∨
    (¬ S ∧ ∃ e, (warmUpAll hint p ts).2.2 = .error e) := by
  induction ts generalizing p q with
  | nil => exact .inl ⟨h, rfl, rfl⟩
  | cons t rest ih =>
    have hagree := hw t List.mem_cons_self p q h
    have hrest : ∀ t ∈ rest, Sim R S (t.warmUp hint) (t.warmUp hint') :=
      fun t ht => hw t (List.mem_cons_of_mem _ ht)
    simp only [warmUpAll]
    generalize t.warmUp hint p = r at hagree
    generalize t.warmUp hint' q = r' at hagree
    cases hagree with
    | ok h' =>
      rcases ih hrest h' with ⟨hpass, hts, hr⟩ | hexcused
      · exact .inl ⟨hpass, congrArg (List.cons _) hts, hr⟩
      · exact .inr hexcused
    | error h' => exact .inl ⟨h', rfl, rfl⟩
    | excused hs => exact .inr ⟨hs, _, rfl⟩

theorem Workspace.warmUpAll_alike {w v : Workspace} (h : Beside R w v) {hint hint' : Expr}
    (hw : ∀ t ∈ w.tallies, Sim R S (t.warmUp hint) (t.warmUp hint')) :
    StepsAlike R S (w.step (.warmUpAll hint)) (v.step (.warmUpAll hint')) := by
  simp only [step]
  rw [h.tallies]
  rcases Tally.warmUpAll_alike w.tallies hw h.pass with ⟨hpass, hts, hr⟩ | ⟨hs, e, he⟩
  · exact .inl ⟨⟨hpass, hts⟩, congrArg (Except.map fun _ => Reply.done) hr⟩
  · exact .inr ⟨hs, e, by simp only [he]; rfl⟩

/-- An instruction takes two sides to where they are related again, with the same answer. -/
theorem Lockstep.step (hl : Lockstep R S) {w v : Workspace} (h : Workspace.Beside R w v)
    (i : Instruction) : Workspace.StepsAlike R S (w.step i) (v.step i) := by
  cases i with
  | create sig agg =>
    have hagree := hl.create sig agg _ _ h.pass
    simp only [Workspace.step]
    generalize Tally.create sig agg w.pass = r at hagree
    generalize Tally.create sig agg v.pass = r' at hagree
    cases hagree with
    | ok h' => exact .inl ⟨⟨h', by rw [h.tallies]⟩, rfl⟩
    | error h' => exact .inl ⟨⟨h', h.tallies⟩, rfl⟩
    | excused hs => exact .inr ⟨hs, _, rfl⟩
  | reset u => exact Workspace.update_alike h u fun t _ => hl.reset t
  | warmUp u hint => exact Workspace.update_alike h u fun t _ => hl.warmUp t hint
  | openPartition u f => exact Workspace.update_alike h u fun t _ => hl.openPartition t f
  | add u args =>
    exact Workspace.consult_alike h u fun t => .bind (hl.add t args) fun _ => .pure _
  | addRow u f rows =>
    exact Workspace.consult_alike h u fun t => .bind (hl.addRow t f rows) fun _ => .pure _
  | result u => exact Workspace.consult_alike h u fun t => .map (hl.result t) _
  | resultAt u f rows => exact Workspace.consult_alike h u fun t => .map (hl.resultAt t f rows) _
  | merge u o =>
    simp only [Workspace.step]
    rw [h.tallies]
    cases w.tallies[o]? with
    | none => exact .inl ⟨h, rfl⟩
    | some other =>
      exact Workspace.consult_alike h u fun t => .bind (hl.merge t other) fun _ => .pure _
  | bind name e => exact Workspace.act_alike h (.map (hl.bind name e) _)
  | emit ops => exact Workspace.act_alike h (.bind (hl.emit _) fun _ => .pure _)
  | warmUpAll hint => exact Workspace.warmUpAll_alike h fun t _ => hl.warmUp t hint

end WindowFold
