import Mathlib.Data.List.Nodup
import WindowFold.Emit.Emission

/-!
# Handles are handed out once

Whoever is lent a draft may declare locals, append statements and open branches, in which others
do the same, and may go on after a failure of any of these (`Draft.Builds`).  Along the way he is
handed locals.  They are numbered in the order in which they are handed out, those of branches
that are dropped included, and no statement declares a local that was not handed out for it
(`Builds.grows`).

Emitting operations is one such use of a draft (`emitAll_builds`).
-/

namespace WindowFold

namespace Stmt

mutual

/-- The locals a statement declares, in both of its branches. -/
def declares : Stmt → List LocalId
  | .declare x _ _ => [x]
  | .branch _ yes no => declaresAll yes ++ declaresAll no
  | .setLocal _ _ => []
  | .assign _ _ => []
  | .push _ _ => []
  | .reserve _ _ => []

def declaresAll : List Stmt → List LocalId
  | [] => []
  | s :: rest => s.declares ++ declaresAll rest

end

theorem declaresAll_append (a b : List Stmt) :
    declaresAll (a ++ b) = declaresAll a ++ declaresAll b := by
  induction a with
  | nil => rfl
  | cons s rest ih => simp [declaresAll, ih]

end Stmt

namespace Draft

/-- A declaration that is not refused is handed the next local. -/
theorem declare_ok {d d' : Draft} {name : String} {e : Expr} {x : Local}
    (h : d.declare name e = .ok (x, d')) :
    x = ⟨⟨d.declared.length⟩, name⟩ ∧
      d' = { d with
        stmts := d.stmts ++ [.declare x.id name e]
        declared := d.declared ++ [x] } := by
  unfold declare at h
  split at h
  · simp only [Except.ok.injEq, Prod.mk.injEq] at h
    obtain ⟨rfl, rfl⟩ := h
    exact ⟨rfl, rfl⟩
  · cases h

/-! ## Uses of a draft -/

/-- What can be done to a draft that is lent, with the locals that are handed out meanwhile. -/
inductive Builds : Draft → List Local → Draft → Prop
  | done (d : Draft) : Builds d [] d
  | seq {d d₁ d₂ : Draft} {xs ys : List Local} (h : Builds d xs d₁) (h' : Builds d₁ ys d₂) :
      Builds d (xs ++ ys) d₂
  | declared {d d' : Draft} {name : String} {e : Expr} {x : Local}
      (h : d.declare name e = .ok (x, d')) : Builds d [x] d'
  | appended (d : Draft) {s : Stmt} (hs : s.declares = []) : Builds d [] (d.append s)
  | branched {d d₁ d₂ : Draft} {xs ys : List Local} (c : Expr) (hyes : Builds d.child xs d₁)
      (hno : Builds d₁.child ys d₂) :
      Builds d (xs ++ ys) ((d.leave d₂).append (.branch c d₁.stmts d₂.stmts))
  /-- The first side of a branch has failed. -/
  | droppedFirst {d d₁ : Draft} {xs : List Local} (hyes : Builds d.child xs d₁) :
      Builds d xs (d.leave d₁)
  | droppedSecond {d d₁ d₂ : Draft} {xs ys : List Local} (hyes : Builds d.child xs d₁)
      (hno : Builds d₁.child ys d₂) : Builds d (xs ++ ys) (d.leave d₂)

/-- A branch whose sides are emitted by anyone. -/
def ifThenElse (d : Draft) (c : Expr) (yes no : Draft → Draft × Except EmitError Unit) :
    Draft × Except EmitError Unit :=
  match yes d.child with
  | (d₁, .error err) => (d.leave d₁, .error err)
  | (d₁, .ok ()) =>
    match no d₁.child with
    | (d₂, .error err) => (d.leave d₂, .error err)
    | (d₂, .ok ()) => ((d.leave d₂).append (.branch c d₁.stmts d₂.stmts), .ok ())

theorem emit_branch (d : Draft) (c : Expr) (yes no : List Op) :
    d.emit (.branch c yes no) =
      d.ifThenElse c (fun d => d.emitAll yes) fun d => d.emitAll no := by
  rcases hyes : d.child.emitAll yes with ⟨d₁, _ | _⟩
  · simp only [emit, ifThenElse, hyes]
  · rcases hno : d₁.child.emitAll no with ⟨d₂, _ | _⟩ <;>
      simp only [emit, ifThenElse, hyes, hno]

theorem ifThenElse_builds (d : Draft) (c : Expr) {yes no : Draft → Draft × Except EmitError Unit}
    (hyes : ∀ d : Draft, ∃ xs, d.Builds xs (yes d).1)
    (hno : ∀ d : Draft, ∃ xs, d.Builds xs (no d).1) :
    ∃ xs, d.Builds xs (d.ifThenElse c yes no).1 := by
  obtain ⟨xs, h₁⟩ := hyes d.child
  unfold ifThenElse
  generalize yes d.child = first at h₁
  obtain ⟨d₁, _ | _⟩ := first
  · exact ⟨xs, .droppedFirst h₁⟩
  · obtain ⟨ys, h₂⟩ := hno d₁.child
    simp only
    generalize no d₁.child = second at h₂
    obtain ⟨d₂, _ | _⟩ := second
    · exact ⟨xs ++ ys, .droppedSecond h₁ h₂⟩
    · exact ⟨xs ++ ys, .branched c h₁ h₂⟩

mutual

theorem emit_builds (d : Draft) : ∀ op : Op, ∃ xs, d.Builds xs (d.emit op).1
  | .declare name e => by
    cases h : d.declare name e with
    | error err => exact ⟨[], by simpa only [emit, h] using Builds.done d⟩
    | ok xd => exact ⟨[xd.1], by simpa only [emit, h] using Builds.declared h⟩
  | .setLocal _ _ => ⟨[], .appended d rfl⟩
  | .assign _ _ => ⟨[], .appended d rfl⟩
  | .push _ _ => ⟨[], .appended d rfl⟩
  | .reserve _ _ => ⟨[], .appended d rfl⟩
  | .branch c yes no => by
    rw [emit_branch]
    exact ifThenElse_builds d c (fun d => emitAll_builds d yes) fun d => emitAll_builds d no
  | .fail _ => ⟨[], .done d⟩

/-- To emit operations is to use the draft, also when one of them fails. -/
theorem emitAll_builds (d : Draft) : ∀ ops : List Op, ∃ xs, d.Builds xs (d.emitAll ops).1
  | [] => ⟨[], .done d⟩
  | op :: rest => by
    obtain ⟨xs, hop⟩ := emit_builds d op
    cases h : d.emit op with
    | mk d' r =>
      rw [h] at hop
      cases r with
      | error err => exact ⟨xs, by simpa only [emitAll, h] using hop⟩
      | ok _ =>
        obtain ⟨ys, hrest⟩ := emitAll_builds d' rest
        exact ⟨xs ++ ys, by simpa only [emitAll, h] using hop.seq hrest⟩

end

theorem perform_fst {α : Type} (d : Draft) (m : Emission α) :
    (d.perform m).1 = (d.emitAll (m.ops d.declared.length)).1 := by
  simp only [perform]
  rcases d.emitAll (m.ops d.declared.length) with ⟨d', _ | _⟩ <;> rfl

theorem perform_builds {α : Type} (d : Draft) (m : Emission α) :
    ∃ xs, d.Builds xs (d.perform m).1 := by
  obtain ⟨xs, h⟩ := d.emitAll_builds (m.ops d.declared.length)
  refine ⟨xs, ?_⟩
  rw [perform_fst]
  exact h

/-! ## What every use keeps -/

/-- The draft with statements put at its end and locals handed out, their numbers going on. -/
structure Grows (d : Draft) (xs : List Local) (ss : List Stmt) (d' : Draft) : Prop where
  stmts : d'.stmts = d.stmts ++ ss
  declared : d'.declared = d.declared ++ xs
  ids : xs.map Local.id = (List.range' d.declared.length xs.length).map LocalId.mk
  declares : (Stmt.declaresAll ss).Sublist (xs.map Local.id)
  slotCount : d'.slotCount = d.slotCount

namespace Grows

variable {d d₁ d₂ : Draft} {xs ys : List Local} {a b : List Stmt}

theorem refl (d : Draft) : d.Grows [] [] d :=
  ⟨by simp, by simp, rfl, by simp [Stmt.declaresAll], rfl⟩

/-- Numbers go on where those before them have stopped. -/
theorem ids_append (h : xs.map Local.id = (List.range' d.declared.length xs.length).map LocalId.mk)
    (hd : d₁.declared = d.declared ++ xs)
    (h' : ys.map Local.id = (List.range' d₁.declared.length ys.length).map LocalId.mk) :
    (xs ++ ys).map Local.id =
      (List.range' d.declared.length (xs ++ ys).length).map LocalId.mk := by
  rw [List.map_append, h, h', hd, List.length_append, List.length_append, ← List.map_append,
    List.range'_append_1]

theorem trans (h : d.Grows xs a d₁) (h' : d₁.Grows ys b d₂) :
    d.Grows (xs ++ ys) (a ++ b) d₂ where
  stmts := by rw [h'.stmts, h.stmts, List.append_assoc]
  declared := by rw [h'.declared, h.declared, List.append_assoc]
  ids := ids_append h.ids h.declared h'.ids
  declares := by
    rw [Stmt.declaresAll_append, List.map_append]
    exact h.declares.append h'.declares
  slotCount := h'.slotCount.trans h.slotCount

/-- Back from a branch that is dropped, what it was handed stays handed out. -/
theorem leave (h : d.child.Grows xs a d₁) : d.Grows xs [] (d.leave d₁) where
  stmts := by simp [Draft.leave]
  declared := h.declared
  ids := h.ids
  declares := by simp [Stmt.declaresAll]
  slotCount := h.slotCount

/-- Two sides of a branch, the second going on from where the first has stopped. -/
theorem sides (h : d.child.Grows xs a d₁) (h' : d₁.child.Grows ys b d₂) :
    d.child.Grows (xs ++ ys) (a ++ b) { d₂ with stmts := d₁.stmts ++ d₂.stmts } := by
  have hsecond : d₁.Grows ys b { d₂ with stmts := d₁.stmts ++ d₂.stmts } :=
    ⟨congrArg (d₁.stmts ++ ·) h'.stmts, h'.declared, h'.ids, h'.declares, h'.slotCount⟩
  exact h.trans hsecond

theorem branch (c : Expr) (h : d.child.Grows xs a d₁) (h' : d₁.child.Grows ys b d₂) :
    d.Grows (xs ++ ys) [.branch c d₁.stmts d₂.stmts]
      ((d.leave d₂).append (.branch c d₁.stmts d₂.stmts)) where
  stmts := rfl
  declared := (sides h h').declared
  ids := (sides h h').ids
  declares := by
    have ha : d₁.stmts = a := h.stmts
    have hb : d₂.stmts = b := h'.stmts
    have hsides := (sides h h').declares
    rw [Stmt.declaresAll_append] at hsides
    simpa [Stmt.declaresAll, Stmt.declares, ha, hb] using hsides
  slotCount := (sides h h').slotCount

theorem since (h : d.Grows xs a d₁) : d₁.since d.stmts.length = a := by
  simp [Draft.since, h.stmts]

end Grows

/-- By induction on the use, with a case for every way in which a branch may end. -/
theorem Builds.grows {d d' : Draft} {xs : List Local} (h : d.Builds xs d') :
    ∃ ss, d.Grows xs ss d' := by
  induction h with
  | done d => exact ⟨[], .refl d⟩
  | seq _ _ ih ih' =>
    obtain ⟨a, ha⟩ := ih
    obtain ⟨b, hb⟩ := ih'
    exact ⟨a ++ b, ha.trans hb⟩
  | @declared d d' name e x h =>
    obtain ⟨rfl, rfl⟩ := declare_ok h
    exact ⟨_, rfl, rfl, rfl, List.Sublist.refl _, rfl⟩
  | @appended d s hs =>
    exact ⟨[s], rfl, (List.append_nil _).symm, rfl, by simp [Stmt.declaresAll, hs], rfl⟩
  | branched c _ _ ih ih' =>
    obtain ⟨a, ha⟩ := ih
    obtain ⟨b, hb⟩ := ih'
    exact ⟨_, ha.branch c hb⟩
  | droppedFirst _ ih =>
    obtain ⟨a, ha⟩ := ih
    exact ⟨[], ha.leave⟩
  | droppedSecond _ _ ih ih' =>
    obtain ⟨a, ha⟩ := ih
    obtain ⟨b, hb⟩ := ih'
    exact ⟨[], (ha.sides hb).leave⟩

end Draft
end WindowFold
