import WindowFold.Proofs.Builtin.Phases
import WindowFold.Proofs.Machine.Reserving
import WindowFold.Proofs.Workspace.Lockstep

/-!
# Row counts are hints

A builtin function is told a row count when it is warmed up or opened for a partition, and makes
no other use of it than to reserve room.  Two passes that are told different counts emit the same
but for the amounts of reservations (`Pass.Resembles`), and go on alike whatever follows
(`Resizes.step`).  So their blocks run alike, and the calls yield the same (`reserve_hints`).
-/

namespace WindowFold

/-! ## Passes alike up to amounts -/

/-- The passes have one configuration and the same numbers, and blocks that differ in the amounts
of reservations only. -/
structure Pass.Resembles (config : Config) (p q : Pass) : Prop where
  left : p.config = config
  right : q.config = config
  bindings : q.bindings = p.bindings
  child : q.draft.child = p.draft.child
  stmts : Stmt.unsizedAll q.draft.stmts = Stmt.unsizedAll p.draft.stmts

namespace Pass

variable {config : Config} {p q : Pass}

theorem Resembles.refl (p : Pass) : Resembles p.config p p := ⟨rfl, rfl, rfl, rfl, rfl⟩

/-- Both go on in the same way. -/
theorem Resembles.behind (h : Resembles config p q) (d : Draft) {n n' : Nat} (hn : n' = n) :
    Resembles config { p with draft := d.behind p.draft.stmts, bindings := n }
      { q with draft := d.behind q.draft.stmts, bindings := n' } where
  left := h.left
  right := h.right
  bindings := hn
  child := rfl
  stmts := by rw [Draft.behind, Draft.behind, Stmt.unsizedAll_append, h.stmts,
    Stmt.unsizedAll_append]

theorem Resembles.extend (h : Resembles config p q) {ss ss' : List Stmt}
    (hss : Stmt.unsizedAll ss' = Stmt.unsizedAll ss) :
    Resembles config (p.extend ss) (q.extend ss') where
  left := h.left
  right := h.right
  bindings := h.bindings
  child := h.child
  stmts := by
    simp only [Pass.extend, Draft.extend, Stmt.unsizedAll_append]
    rw [h.stmts, hss]

/-- An emission, by what it comes to in an empty branch. -/
theorem emit_eq {α : Type} (m : Emission α) (p : Pass) :
    Pass.emit m p =
      match p.draft.child.perform m with
      | (d, .ok a) => .ok (d.stmts, a) { p with draft := d.behind p.draft.stmts }
      | (d, .error e) => .error e { p with draft := d.behind p.draft.stmts } := by
  have hperform := p.draft.child.perform_behind p.draft.stmts m
  rw [Draft.child_behind] at hperform
  unfold emit
  rw [hperform]
  rcases p.draft.child.perform m with ⟨d, e | a⟩
  · rfl
  · simp only [Draft.since, Draft.behind, List.drop_left]

end Pass

open PassM (Sim)

/-- Passes that resemble each other are kept so. -/
theorem lockstep_resembles (config : Config) : Lockstep (Pass.Resembles config) True where
  covers p q h := by
    rw [h.left, h.right]
    exact ⟨id, id, rfl⟩
  config _ p q h := h.right.trans h.left.symm
  emit m := by
    intro p q h
    rw [Pass.emit_eq, Pass.emit_eq, h.child]
    rcases p.draft.child.perform m with ⟨d, e | a⟩
    · exact .error (h.behind d h.bindings)
    · exact .ok (h.behind d h.bindings)
  allocate n := by
    intro p q h
    have hcount : q.draft.slotCount = p.draft.slotCount := (Draft.mk.inj h.child).2.2
    have hdeclared : q.draft.declared = p.draft.declared := (Draft.mk.inj h.child).2.1
    simp only [Pass.allocate, Draft.newSlots_eq, hcount]
    refine .ok ⟨h.left, h.right, h.bindings, ?_, h.stmts⟩
    simp only [Draft.child, hdeclared]
  bind name e := by
    intro p q h
    have hname : q.bindingName name = p.bindingName name := by
      simp only [Pass.bindingName, h.left, h.right, h.bindings]
    have hp := p.draft.child.declare_behind p.draft.stmts (p.bindingName name) e
    have hq := q.draft.child.declare_behind q.draft.stmts (p.bindingName name) e
    rw [Draft.child_behind] at hp hq
    have hcount : q.bindings + 1 = p.bindings + 1 := congrArg (· + 1) h.bindings
    simp only [Pass.bind, hname, hp, hq, h.child]
    cases p.draft.child.declare (p.bindingName name) e with
    | ok out => exact .ok (h.behind out.2 hcount)
    | error err => exact .error ⟨h.left, h.right, hcount, h.child, h.stmts⟩

/-! ## Openings -/

namespace Tally

variable {t : Tally} {b : Builtin} {config : Config}

/-- All but `array_agg` are reset on every occasion in the same way. -/
theorem openWindow_of_ne (c : Site) (o o' : Opening) (hb : b ≠ .arrayAgg) :
    b.aggregate.openWindow c o = b.aggregate.openWindow c o' := by
  cases b with
  | arrayAgg => exact absurd rfl hb
  | count | sum | avg | min | max | firstValue | lastValue | lag | lead | rowNumber => rfl

/-- Resets that emit the same but for amounts, and touch the same slots, agree. -/
theorem performReset_sim {m m' : Emission Unit} {ss ss' : List Stmt} (hm : m.Gives ss ())
    (hm' : m'.Gives ss' ()) (hss : Stmt.unsizedAll ss' = Stmt.unsizedAll ss)
    (htouched : Stmt.touchedAll ss' = Stmt.touchedAll ss)
    (hassigned : Stmt.assignedAll ss' = Stmt.assignedAll ss) :
    Sim (Pass.Resembles config) True (t.performReset m) (t.performReset m') := by
  intro p q h
  have hchecks := (lockstep_resembles config).checkReset t htouched hassigned (p.extend ss)
    (q.extend ss') (h.extend hss)
  simp only [performReset, bind, EStateM.bind, Pass.emit_of_gives hm, Pass.emit_of_gives hm']
  exact hchecks

theorem performReset_opening {o o' : Opening} (hb : t.aggregate = b.aggregate)
    (ho : o.rowCountHint.slots = []) (ho' : o'.rowCountHint.slots = []) :
    Sim (Pass.Resembles config) True
      (t.performReset (t.aggregate.openWindow t.site o))
      (t.performReset (t.aggregate.openWindow t.site o')) := by
  rw [hb]
  by_cases harray : b = .arrayAgg
  · subst harray
    cases hslot : t.accumulator.slot 0 with
    | error e =>
      have hsame : Builtin.arrayAgg.aggregate.openWindow t.site o =
          Builtin.arrayAgg.aggregate.openWindow t.site o' := by
        have hfails : t.site.slot 0 = .fail e := congrArg Emission.ofExcept hslot
        simp only [Builtin.aggregate, Aggregate.arrayAgg, hfails, Emission.fail_bind]
      rw [hsame]
      exact (lockstep_resembles config).performReset t _
    | ok s =>
      have hgives (o : Opening) : (Builtin.arrayAgg.aggregate.openWindow t.site o).Gives
          [.assign s .emptyList, .reserve s o.rowCountHint] () := by
        have hread : t.site.slot 0 = pure s := by
          rw [Site.slot, Tally.site, hslot]
          rfl
        simp only [Builtin.aggregate, Aggregate.arrayAgg, hread, pure_bind]
        exact .bind (.assign _ _) (.reserve _ _)
      refine performReset_sim (hgives o) (hgives o') rfl ?_ rfl
      simp only [Stmt.touchedAll, Stmt.touched, ho, ho']
  · rw [openWindow_of_ne t.site o o' harray]
    exact (lockstep_resembles config).performReset t _

theorem warmUp_sim {hint hint' : Expr} (hb : t.aggregate = b.aggregate) (hh : hint.slots = [])
    (hh' : hint'.slots = []) :
    Sim (Pass.Resembles config) True (t.warmUp hint) (t.warmUp hint') :=
  .bind (Pass.ensure_sim _) fun _ => .bind (performReset_opening hb hh hh') fun _ => .pure _

theorem openPartition_eq {f : Frame} (hc : checkFrame config f = .ok ()) {p : Pass}
    (hp : p.config = config) :
    t.openPartition f p = (t.performReset (t.aggregate.openWindow t.site (.partition f)) >>=
      fun _ => pure { t with ready := true, partitionSeen := true }) p := by
  subst hp
  simp only [openPartition, bind, EStateM.bind, Pass.settings, Pass.ensure, hc]

theorem openPartition_sim {f f' : Frame} (hb : t.aggregate = b.aggregate)
    (hf : f.rowCount.slots = []) (hf' : f'.rowCount.slots = [])
    (hc : checkFrame config f = .ok ()) (hc' : checkFrame config f' = .ok ()) :
    Sim (Pass.Resembles config) True (t.openPartition f) (t.openPartition f') := by
  intro p q h
  rw [openPartition_eq hc h.left, openPartition_eq hc' h.right]
  have hreset : Sim (Pass.Resembles config) True
      (t.performReset (t.aggregate.openWindow t.site (.partition f)))
      (t.performReset (t.aggregate.openWindow t.site (.partition f'))) :=
    performReset_opening hb hf hf'
  exact hreset.bind (fun _ => .pure { t with ready := true, partitionSeen := true }) p q h

end Tally

/-! ## Sequences of instructions -/

namespace Workspace

/-- The call, if there is one, is of a function of the library. -/
def CallsBuiltin (w : Workspace) (u : Nat) : Prop :=
  ∀ t, w.tallies[u]? = some t → ∃ b : Builtin, t.aggregate = b.aggregate

/-- The instructions are the same but for the row count that functions of the library are told
when they are opened.  Neither count reads a slot or makes the frame contradict itself. -/
inductive Resizes (w : Workspace) : Instruction → Instruction → Prop
  | same (i : Instruction) : Resizes w i i
  | warmUp {u hint hint'} (hb : w.CallsBuiltin u) (hh : hint.slots = []) (hh' : hint'.slots = []) :
      Resizes w (.warmUp u hint) (.warmUp u hint')
  | warmUpAll {hint hint'} (hb : ∀ u, w.CallsBuiltin u) (hh : hint.slots = [])
      (hh' : hint'.slots = []) : Resizes w (.warmUpAll hint) (.warmUpAll hint')
  | openPartition {u} {f : Frame} {n n' : Expr} (hb : w.CallsBuiltin u) (hn : n.slots = [])
      (hn' : n'.slots = [])
      (hc : Tally.checkFrame w.pass.config { f with rowCount := n } = .ok ())
      (hc' : Tally.checkFrame w.pass.config { f with rowCount := n' } = .ok ()) :
      Resizes w (.openPartition u { f with rowCount := n })
        (.openPartition u { f with rowCount := n' })

/-- Instruction by instruction the two differ in row counts at most. -/
def ResizesAll (w : Workspace) : List Instruction → List Instruction → Prop
  | [], [] => True
  | i :: rest, i' :: rest' => w.Resizes i i' ∧ (w.step i).1.ResizesAll rest rest'
  | _, _ => False

/-- The workspaces have the same calls, and passes that resemble each other. -/
def Resembles (w v : Workspace) : Prop :=
  Beside (Pass.Resembles w.pass.config) w v

theorem Resembles.refl (w : Workspace) : w.Resembles w := ⟨.refl _, rfl⟩

theorem Resizes.step {w v : Workspace} {i i' : Instruction} (hi : w.Resizes i i')
    (h : w.Resembles v) :
    (w.step i).1.Resembles (v.step i').1 ∧ (v.step i').2 = (w.step i).2 := by
  have halike : StepsAlike (Pass.Resembles w.pass.config) True (w.step i)
      (v.step i') := by
    cases hi with
    | same => exact (lockstep_resembles _).step h i
    | warmUp hb hh hh' =>
      refine update_alike h _ fun t ht => ?_
      obtain ⟨b, hb⟩ := hb t ht
      exact Tally.warmUp_sim hb hh hh'
    | warmUpAll hb hh hh' =>
      refine warmUpAll_alike h fun t ht => ?_
      obtain ⟨u, hu⟩ := List.mem_iff_getElem?.mp ht
      obtain ⟨b, hb⟩ := hb u t hu
      exact Tally.warmUp_sim hb hh hh'
    | openPartition hb hn hn' hc hc' =>
      refine update_alike h _ fun t ht => ?_
      obtain ⟨b, hb⟩ := hb t ht
      exact Tally.openPartition_sim hb hn hn' hc hc'
  rcases halike with ⟨⟨hpass, hts⟩, hr⟩ | ⟨hs, _⟩
  · refine ⟨⟨?_, hts⟩, hr⟩
    rw [hpass.left]
    exact hpass
  · exact absurd trivial hs

theorem attempts_resized {w v : Workspace} {is is' : List Instruction} (h : w.Resembles v)
    (his : w.ResizesAll is is') :
    (w.attempts is).2.Resembles (v.attempts is').2 ∧ (v.attempts is').1 = (w.attempts is).1 := by
  induction is generalizing w v is' with
  | nil =>
    cases is' with
    | nil => exact ⟨h, rfl⟩
    | cons i' is' => exact his.elim
  | cons i is ih =>
    cases is' with
    | nil => exact his.elim
    | cons i' is' =>
      obtain ⟨hnext, hr⟩ := his.1.step h
      obtain ⟨hend, hrs⟩ := ih hnext his.2
      exact ⟨hend, List.cons_eq_cons.mpr ⟨hr, hrs⟩⟩

/-- Reservations are hints.  A block that comes through does so without them as well, and ends in
the same store; if it comes through only without them, one in a slot without a list has stopped
it; and what the amounts are does not matter.

So it does not matter either which row counts the functions of the library, `array_agg` among
them, are told when they are warmed up or opened for a partition: whatever is done with the calls,
the answers are the same expressions, and the block takes every store to the same end. -/
theorem reserve_hints :
    (∀ env st ss,
      (∀ st', Stmt.runAll env st ss = (st', .ok ()) →
        Stmt.runAll env st (Stmt.unreservedAll ss) = (st', .ok ())) ∧
      (∀ st₁ st' e, Stmt.runAll env st (Stmt.unreservedAll ss) = (st₁, .ok ()) →
        Stmt.runAll env st ss = (st', .error e) → StopsReserving env st ss st' e) ∧
      ∀ ss', Stmt.unsizedAll ss' = Stmt.unsizedAll ss →
        Stmt.runAll env st ss' = Stmt.runAll env st ss) ∧
    ∀ (w : Workspace) (is is' : List Instruction), w.ResizesAll is is' →
      (w.attempts is').1 = (w.attempts is).1 ∧
      (w.attempts is').2.tallies = (w.attempts is).2.tallies ∧
      ∀ env st, Stmt.runAll env st (w.attempts is').2.pass.draft.stmts =
        Stmt.runAll env st (w.attempts is).2.pass.draft.stmts := by
  constructor
  · intro env st ss
    exact ⟨fun _ => runAll_unreserved env ss, fun _ _ _ => runAll_stops env ss,
      fun _ h => runAll_of_unsized_eq h env st⟩
  · intro w is is' his
    obtain ⟨hend, hrs⟩ := attempts_resized (.refl w) his
    exact ⟨hrs, hend.tallies, runAll_of_unsized_eq hend.pass.stmts⟩

/-- A pass with one call of `array_agg`. -/
def listing : Workspace :=
  ((start (.strict "agg")).step
    (.create (.of "array_agg" [.int] .array false false) Builtin.arrayAgg.aggregate)).1

/-- The values of a partition of one row, which is announced to have `n`. -/
def listRow (n : Expr) : List Instruction :=
  [.openPartition 0 { Frame.constant 0 0 0 1 with rowCount := n },
    .addRow 0 (.constant 0 0 0 1) (.columns 1), .resultAt 0 (.constant 0 0 0 1) (.columns 1)]

theorem listing_resized {n n' : Expr} (hn : n.slots = []) (hn' : n'.slots = [])
    (hc : Tally.checkFrame (.strict "agg") { Frame.constant 0 0 0 1 with rowCount := n } = .ok ())
    (hc' : Tally.checkFrame (.strict "agg") { Frame.constant 0 0 0 1 with rowCount := n' } =
      .ok ()) : listing.ResizesAll (listRow n) (listRow n') := by
  refine ⟨.openPartition (fun t ht => ⟨.arrayAgg, ?_⟩) hn hn' hc hc', .same _, .same _, trivial⟩
  obtain rfl := Option.some.inj ht
  rfl

/-- An amount that cannot be worked out is passed over, a slot without a list is not.  The list of
one row is the same whether its partition is said to have a million rows or one by zero. -/
theorem list_unsized :
    let amount := Expr.div (.int 1) (.int 0)
    (∃ st, Stmt.runAll ⟨[], none⟩ .fresh [.assign ⟨0⟩ .emptyList, .reserve ⟨0⟩ amount] =
        (st, .ok ()) ∧
      Stmt.runAll ⟨[], none⟩ .fresh [.assign ⟨0⟩ .emptyList] = (st, .ok ())) ∧
    StopsReserving ⟨[], none⟩ .fresh [.reserve ⟨0⟩ amount] .fresh (.unsetSlot ⟨0⟩) ∧
    (listing.attempts (listRow amount)).1 = (listing.attempts (listRow (.int 1000000))).1 ∧
    ∀ env st, Stmt.runAll env st (listing.attempts (listRow amount)).2.pass.draft.stmts =
      Stmt.runAll env st (listing.attempts (listRow (.int 1000000))).2.pass.draft.stmts := by
  intro amount
  obtain ⟨hblocks, hcalls⟩ := reserve_hints
  have hrun : ∃ st, Stmt.runAll ⟨[], none⟩ .fresh
      [.assign ⟨0⟩ .emptyList, .reserve ⟨0⟩ amount] = (st, .ok ()) := ⟨_, rfl⟩
  obtain ⟨st, hrun⟩ := hrun
  have hresized : listing.ResizesAll (listRow (.int 1000000)) (listRow amount) :=
    listing_resized rfl rfl rfl rfl
  obtain ⟨hanswers, _, hsame⟩ := hcalls listing _ _ hresized
  refine ⟨⟨st, hrun, (hblocks _ _ _).1 st hrun⟩, ?_, hanswers, hsame⟩
  exact (hblocks _ _ _).2.1 .fresh .fresh _ rfl rfl

end Workspace
end WindowFold
