import WindowFold.Proofs.Emit.Handles

/-!
# A draft only grows

Whatever is emitted, and whether it succeeds, the statements and the declared locals of a
draft stay at the front and no slot is taken (`perform_extends`).  So the statements behind a
mark are exactly those emitted since, and they are the same whatever stands in front
(`perform_behind`).

An emission is performed part by part (`perform_bind`): what comes after a declaration is told of
the local that was handed out for it, whatever the draft has been used for before
(`perform_declare_bind`).
-/

namespace WindowFold

namespace Draft

/-- `d'` is `d` with the statements `ss` behind it. -/
structure Extends (d : Draft) (ss : List Stmt) (d' : Draft) : Prop where
  stmts : d'.stmts = d.stmts ++ ss
  declared : d.declared <+: d'.declared
  slotCount : d'.slotCount = d.slotCount

namespace Extends

theorem refl (d : Draft) : d.Extends [] d := ⟨by simp, List.prefix_refl _, rfl⟩

theorem trans {d₁ d₂ d₃ : Draft} {a b : List Stmt} (h₁ : d₁.Extends a d₂)
    (h₂ : d₂.Extends b d₃) : d₁.Extends (a ++ b) d₃ where
  stmts := by rw [h₂.stmts, h₁.stmts, List.append_assoc]
  declared := h₁.declared.trans h₂.declared
  slotCount := h₂.slotCount.trans h₁.slotCount

theorem since {d d' : Draft} {ss : List Stmt} (h : d.Extends ss d') :
    d'.since d.stmts.length = ss := by
  simp [Draft.since, h.stmts]

end Extends

theorem Grows.extends {d d' : Draft} {xs : List Local} {ss : List Stmt} (h : d.Grows xs ss d') :
    d.Extends ss d' where
  stmts := h.stmts
  declared := ⟨xs, h.declared.symm⟩
  slotCount := h.slotCount

theorem declare_extends {d d' : Draft} {name : String} {e : Expr} {x : Local}
    (h : d.declare name e = .ok (x, d')) : d.Extends [.declare x.id x.name e] d' := by
  obtain ⟨rfl, rfl⟩ := declare_ok h
  exact ⟨rfl, List.prefix_append _ _, rfl⟩

/-- Emitting puts statements at the end, also when an operation fails. -/
theorem perform_extends {α : Type} (d : Draft) (m : Emission α) :
    ∃ ss, d.Extends ss (d.perform m).1 := by
  obtain ⟨xs, h⟩ := d.perform_builds m
  obtain ⟨ss, hgrows⟩ := h.grows
  exact ⟨ss, hgrows.extends⟩

/-! ## More statements in front -/

def behind (d : Draft) (ss : List Stmt) : Draft := { d with stmts := ss ++ d.stmts }

theorem child_behind (d : Draft) : d.child.behind d.stmts = d := by
  simp only [behind, child, List.append_nil]

theorem declare_behind (d : Draft) (ss : List Stmt) (name : String) (e : Expr) :
    (d.behind ss).declare name e = (d.declare name e).map fun out => (out.1, out.2.behind ss) := by
  unfold declare
  split
  · simp [behind, Except.map]
  · rfl

theorem append_behind (d : Draft) (ss : List Stmt) (s : Stmt) :
    (d.behind ss).append s = (d.append s).behind ss := by
  simp [behind, append]

theorem ifThenElse_behind (d : Draft) (ss : List Stmt) (c : Expr)
    (yes no : Draft → Draft × Except EmitError Unit) :
    (d.behind ss).ifThenElse c yes no =
      ((d.ifThenElse c yes no).1.behind ss, (d.ifThenElse c yes no).2) := by
  have hchild : (d.behind ss).child = d.child := rfl
  unfold ifThenElse
  rw [hchild]
  generalize yes d.child = first
  obtain ⟨d₁, _ | _⟩ := first
  · rfl
  · simp only
    generalize no d₁.child = second
    obtain ⟨d₂, _ | _⟩ := second
    · rfl
    · exact Prod.ext (append_behind (d.leave d₂) ss _) rfl

/-- What is emitted does not depend on the statements that are there. -/
theorem emit_behind (d : Draft) (ss : List Stmt) (op : Op) :
    (d.behind ss).emit op = ((d.emit op).1.behind ss, (d.emit op).2) := by
  cases op with
  | declare name e =>
    rw [emit, emit, declare_behind]
    cases d.declare name e <;> rfl
  | setLocal x e => rw [emit, emit, append_behind]
  | assign s e => rw [emit, emit, append_behind]
  | push s e => rw [emit, emit, append_behind]
  | reserve s e => rw [emit, emit, append_behind]
  | branch c yes no => rw [emit_branch, emit_branch, ifThenElse_behind]
  | fail _ => rfl

theorem emitAll_behind (d : Draft) (ss : List Stmt) (ops : List Op) :
    (d.behind ss).emitAll ops = ((d.emitAll ops).1.behind ss, (d.emitAll ops).2) := by
  induction ops generalizing d with
  | nil => rfl
  | cons op rest ih =>
    rw [emitAll, emitAll, emit_behind]
    rcases d.emit op with ⟨d', _ | _⟩
    · rfl
    · exact ih d'

theorem perform_behind {α : Type} (d : Draft) (ss : List Stmt) (m : Emission α) :
    (d.behind ss).perform m = ((d.perform m).1.behind ss, (d.perform m).2) := by
  have hdeclared : (d.behind ss).declared = d.declared := rfl
  simp only [perform, hdeclared, emitAll_behind]
  rcases d.emitAll (m.ops d.declared.length) with ⟨d', _ | _⟩ <;> rfl

/-! ## One part after another -/

mutual

theorem emit_takes (d : Draft) : ∀ (op : Op) {d' : Draft}, d.emit op = (d', .ok ()) →
    d'.declared.length = d.declared.length + op.takes
  | .declare name e, d', h => by
    cases hx : d.declare name e with
    | error err => simp [emit, hx] at h
    | ok xd =>
      simp only [emit, hx, Prod.mk.injEq, and_true] at h
      rw [← h, (declare_ok hx).2]
      exact List.length_append
  | .setLocal _ _, _, h => by
    obtain rfl := (Prod.mk.inj h).1
    rfl
  | .assign _ _, _, h => by
    obtain rfl := (Prod.mk.inj h).1
    rfl
  | .push _ _, _, h => by
    obtain rfl := (Prod.mk.inj h).1
    rfl
  | .reserve _ _, _, h => by
    obtain rfl := (Prod.mk.inj h).1
    rfl
  | .branch c yes no, d', h => by
    rcases hyes : d.child.emitAll yes with ⟨d₁, _ | _⟩
    · simp [emit, hyes] at h
    · rcases hno : d₁.child.emitAll no with ⟨d₂, _ | _⟩
      · simp [emit, hyes, hno] at h
      · simp only [emit, hyes, hno, Prod.mk.injEq, and_true] at h
        subst h
        have hfirst : d₁.declared.length = d.declared.length + Op.takesAll yes :=
          emitAll_takes d.child yes hyes
        have hsecond : d₂.declared.length = d₁.declared.length + Op.takesAll no :=
          emitAll_takes d₁.child no hno
        rw [Op.takes, ← Nat.add_assoc, ← hfirst, ← hsecond]
        rfl
  | .fail _, _, h => by cases (Prod.mk.inj h).2

/-- Operations that go through are handed as many locals as they take. -/
theorem emitAll_takes (d : Draft) : ∀ (ops : List Op) {d' : Draft},
    d.emitAll ops = (d', .ok ()) → d'.declared.length = d.declared.length + Op.takesAll ops
  | [], _, h => by
    obtain rfl := (Prod.mk.inj h).1
    rfl
  | op :: rest, d', h => by
    rcases hop : d.emit op with ⟨d₁, _ | _⟩
    · simp [emitAll, hop] at h
    · simp only [emitAll, hop] at h
      rw [emitAll_takes d₁ rest h, emit_takes d op hop, Op.takesAll, Nat.add_assoc]

end

variable {α β : Type}

/-- What follows is performed where the first part has stopped, and is told of the local that comes
next there. -/
theorem perform_bind (d : Draft) (m : Emission α) (f : α → Emission β) :
    d.perform (m >>= f) =
      match d.perform m with
      | (d', .ok a) => d'.perform (f a)
      | (d', .error err) => (d', .error err) := by
  cases hm : m.outcome d.declared.length with
  | error err =>
    simp only [perform, Emission.ops_bind_error hm, Emission.outcome_bind_error hm, hm]
    rcases d.emitAll (m.ops d.declared.length) with ⟨d', _ | _⟩ <;> rfl
  | ok a =>
    simp only [perform, Emission.ops_bind_ok hm, Emission.outcome_bind_ok hm, hm, emitAll_append]
    rcases hfirst : d.emitAll (m.ops d.declared.length) with ⟨d', _ | _⟩
    · rfl
    · have hnext : d'.declared.length = m.next d.declared.length := emitAll_takes _ _ hfirst
      simp only [hnext]

/-- A phase goes on with the local that it has been handed. -/
theorem perform_declare_bind {d d' : Draft} {name : String} {e : Expr} {x : Local}
    (h : d.declare name e = .ok (x, d')) (f : LocalId → Emission β) :
    d.perform (Emission.declare name e >>= f) = d'.perform (f x.id) := by
  have hid : x.id = ⟨d.declared.length⟩ := congrArg Local.id (declare_ok h).1
  rw [perform_bind, perform, Emission.declare]
  simp only [emitAll, emit, h, hid]

/-- Two locals, the second of them computed from the first. -/
example : Draft.empty.perform (do
    let x ← Emission.declare "once" (.int 2)
    let y ← Emission.declare "twice" (.binary (.arith .mul) (.var x) (.int 2))
    Emission.assign ⟨0⟩ (.var y)) =
      (⟨[.declare ⟨0⟩ "once" (.int 2),
          .declare ⟨1⟩ "twice" (.binary (.arith .mul) (.var ⟨0⟩) (.int 2)),
          .assign ⟨0⟩ (.var ⟨1⟩)], [⟨⟨0⟩, "once"⟩, ⟨⟨1⟩, "twice"⟩], 0⟩, .ok ()) := by
  rw [perform_declare_bind rfl, perform_declare_bind rfl]
  rfl

/-! ## New slots -/

/-- New slots are numbered from the count of those handed out before. -/
theorem newSlots_eq (d : Draft) (n : Nat) :
    d.newSlots n = ((List.range' d.slotCount n).map SlotId.mk,
      { d with slotCount := d.slotCount + n }) := by
  induction n generalizing d with
  | zero => rfl
  | succ n ih =>
    simp only [newSlots, newSlot, ih, List.range'_succ, List.map_cons]
    simp only [Prod.mk.injEq, true_and, Draft.mk.injEq]
    omega

end Draft
end WindowFold
