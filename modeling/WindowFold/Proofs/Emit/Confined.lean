import WindowFold.Pass.Workspace
import WindowFold.Proofs.Emit.Growth
import WindowFold.Proofs.Machine.Footprint

/-!
# Code built from confined expressions

What a phase emits reads no more than it was given.  `Expr.Within` confines an expression to some
slots and some locals, and is closed under the ways in which phases build expressions.
`Emission.Keeps` follows an emission through its parts: what is known of the value of a part is
there for the rest.

Operations that name no local come out as statements that name none (`emitAll_localFree`).
-/

namespace WindowFold

/-- The expression reads only slots in `S` and locals in `L`. -/
structure Expr.Within (S : SlotId → Prop) (L : LocalId → Prop) (e : Expr) : Prop where
  slots : ∀ s ∈ e.slots, S s
  locals : ∀ x ∈ e.locals, L x

section

variable {S : SlotId → Prop} {L : LocalId → Prop}

namespace Expr.Within

theorem literal (l : Literal) : (Expr.literal l).Within S L :=
  ⟨by simp [Expr.slots], by simp [Expr.locals]⟩

theorem slot {s : SlotId} (h : S s) : (Expr.slot s).Within S L :=
  ⟨by simpa [Expr.slots] using h, by simp [Expr.locals]⟩

theorem binary {l r : Expr} (op : BinaryOp) (hl : l.Within S L) (hr : r.Within S L) :
    (Expr.binary op l r).Within S L := by
  constructor
  · intro s hs
    rcases List.mem_append.mp hs with hs | hs
    · exact hl.slots s hs
    · exact hr.slots s hs
  · intro x hx
    rcases List.mem_append.mp hx with hx | hx
    · exact hl.locals x hx
    · exact hr.locals x hx

theorem choose {c t e : Expr} (hc : c.Within S L) (ht : t.Within S L) (he : e.Within S L) :
    (Expr.choose c t e).Within S L := by
  constructor
  · intro s hs
    rcases List.mem_append.mp hs with hs | hs
    · exact (binary (.logic .and) hc ht).slots s hs
    · exact he.slots s hs
  · intro x hx
    rcases List.mem_append.mp hx with hx | hx
    · exact (binary (.logic .and) hc ht).locals x hx
    · exact he.locals x hx

theorem all (e : Expr) : e.Within (fun _ => True) (fun _ => True) :=
  ⟨fun _ _ => trivial, fun _ _ => trivial⟩

theorem locals_eq_nil {e : Expr} (h : e.Within S fun _ => False) : e.locals = [] :=
  List.eq_nil_iff_forall_not_mem.mpr h.locals

end Expr.Within

/-- Every fact of the frame is confined. -/
def Frame.Within (S : SlotId → Prop) (L : LocalId → Prop) (f : Frame) : Prop :=
  ∀ k, (f.fact k).Within S L

/-- The arguments at a row are confined if the row is. -/
def RowArguments.Within (S : SlotId → Prop) (L : LocalId → Prop) (rows : RowArguments) : Prop :=
  ∀ row args, row.Within S L → rows row = .ok args → ∀ v ∈ args, v.Within S L

theorem Frame.constant_within (c s e n : Int) : (Frame.constant c s e n).Within S L := by
  intro k
  cases k <;> exact .literal _

theorem RowArguments.columns_within (n : Nat) : (RowArguments.columns n).Within S L := by
  intro row args hrow hargs v hv
  have hargs : args = (List.range n).map fun i => .argument i row := by
    simpa [columns, total, eq_comm] using hargs
  subst hargs
  obtain ⟨i, _, rfl⟩ := List.mem_map.mp hv
  exact ⟨hrow.slots, hrow.locals⟩

theorem Site.window_within {c : Site} {f : Frame} {rows : RowArguments} (h : rows.Within S L)
    {row : Expr} {args : List Expr} (hrow : row.Within S L)
    (hargs : (c.window f rows).argumentsAt row = .ok args) : ∀ v ∈ args, v.Within S L := by
  simp only [Site.window] at hargs
  cases hr : rows row with
  | error e => simp [hr, bind, Except.bind] at hargs
  | ok found =>
    simp only [hr, bind, Except.bind] at hargs
    split at hargs
    · rw [Except.ok.injEq] at hargs
      exact hargs ▸ h row found hrow hr
    · simp at hargs

/-- The expressions that an instruction brings along are confined.  The value of a binding comes
from an earlier instruction. -/
def Instruction.InputsWithin (S : SlotId → Prop) (L : LocalId → Prop) : Instruction → Prop
  | .add _ args => ∀ v ∈ args, v.Within S L
  | .warmUp _ hint | .warmUpAll hint => hint.Within S L
  | .openPartition _ f => f.Within S L
  | .addRow _ f rows | .resultAt _ f rows => f.Within S L ∧ rows.Within S L
  | .create _ _ | .reset _ | .merge _ _ | .result _ | .bind _ _ | .emit _ => True

end

theorem Instruction.inputsWithin_all (i : Instruction) :
    i.InputsWithin (fun _ => True) (fun _ => True) := by
  cases i with
  | add => exact fun v _ => .all v
  | warmUp | warmUpAll => exact .all _
  | openPartition => exact fun _ => .all _
  | addRow | resultAt => exact ⟨fun _ => .all _, fun _ _ _ _ v _ => .all v⟩
  | create | reset | merge | result | bind | emit => trivial

/-! ## Code without locals -/

mutual

/-- The operation declares, sets and reads no local. -/
def Op.LocalFree : Op → Prop
  | .declare _ _ | .setLocal _ _ => False
  | .assign _ e | .push _ e | .reserve _ e => e.locals = []
  | .branch c yes no => c.locals = [] ∧ Op.LocalFreeAll yes ∧ Op.LocalFreeAll no
  | .fail _ => True

def Op.LocalFreeAll : List Op → Prop
  | [] => True
  | op :: rest => op.LocalFree ∧ Op.LocalFreeAll rest

end

theorem Op.localFreeAll_iff {ops : List Op} : LocalFreeAll ops ↔ ∀ op ∈ ops, op.LocalFree := by
  induction ops with
  | nil => simp [LocalFreeAll]
  | cons op rest ih => simp [LocalFreeAll, ih]

theorem Stmt.localsAll_append (a b : List Stmt) :
    localsAll (a ++ b) = localsAll a ++ localsAll b := by
  induction a with
  | nil => rfl
  | cons s rest ih => simp [localsAll, ih]

namespace Draft

theorem append_localFree (d : Draft) {s : Stmt} (hs : s.locals = []) :
    Stmt.localsAll (d.append s).stmts = Stmt.localsAll d.stmts := by
  rw [append, Stmt.localsAll_append, Stmt.localsAll, hs, Stmt.localsAll, List.append_nil,
    List.append_nil]

mutual

theorem emit_localFree (d : Draft) :
    ∀ op : Op, op.LocalFree → Stmt.localsAll (d.emit op).1.stmts = Stmt.localsAll d.stmts
  | .declare _ _, h => h.elim
  | .setLocal _ _, h => h.elim
  | .assign s e, h => append_localFree d h
  | .push s e, h => append_localFree d h
  | .reserve s e, h => append_localFree d h
  | .branch c yes no, h => by
    obtain ⟨hc, hyes, hno⟩ := h
    have h₁ := emitAll_localFree d.child yes hyes
    cases hy : d.child.emitAll yes with
    | mk d₁ r₁ =>
      rw [hy] at h₁
      cases r₁ with
      | error err => simp only [emit, hy, leave]
      | ok _ =>
        have h₂ := emitAll_localFree d₁.child no hno
        cases hn : d₁.child.emitAll no with
        | mk d₂ r₂ =>
          rw [hn] at h₂
          cases r₂ with
          | error err => simp only [emit, hy, hn, leave]
          | ok _ =>
            simp only [emit, hy, hn]
            refine append_localFree (d.leave d₂) ?_
            rw [Stmt.locals, hc, h₁, h₂]
            rfl
  | .fail _, _ => rfl

/-- Local-free operations put no local's name into a draft. -/
theorem emitAll_localFree (d : Draft) :
    ∀ ops : List Op, Op.LocalFreeAll ops →
      Stmt.localsAll (d.emitAll ops).1.stmts = Stmt.localsAll d.stmts
  | [], _ => rfl
  | op :: rest, h => by
    have hop := emit_localFree d op h.1
    cases he : d.emit op with
    | mk d' r =>
      rw [he] at hop
      cases r with
      | error err => simpa only [emitAll, he] using hop
      | ok _ =>
        simp only [emitAll, he]
        exact (emitAll_localFree d' rest h.2).trans hop

end

end Draft

/-! ## Emissions part by part -/

namespace Emission

variable {α β : Type} {P : Op → Prop} {Q : α → Prop} {R : β → Prop}

/-- Every operation satisfies `P`, and the value `Q` if there is one.  Locals to come play no part
in the value. -/
structure Keeps (P : Op → Prop) (Q : α → Prop) (m : Emission α) : Prop where
  ops : ∀ n, ∀ op ∈ m.ops n, P op
  value : ∀ n a, m.outcome n = .ok a → Q a
  steady : ∀ n k, m.outcome n = m.outcome k

namespace Keeps

theorem ofExcept {r : Except EmitError α} (h : ∀ a, r = .ok a → Q a) :
    Keeps P Q (Emission.ofExcept r) :=
  ⟨fun _ => by simp [Emission.ofExcept], fun _ => h, fun _ _ => rfl⟩

theorem pure {a : α} (h : Q a) : Keeps P Q (Pure.pure a : Emission α) :=
  ofExcept (r := .ok a) fun _ hb => Except.ok.inj hb ▸ h

theorem fail (e : EmitError) : Keeps P Q (Emission.fail e) :=
  ofExcept (r := .error e) (by simp)

theorem op {o : Op} (h : P o) : Keeps P (fun _ => True) (Emission.op o) :=
  ⟨fun _ => by simpa [Emission.op] using h, fun _ _ _ => trivial, fun _ _ => rfl⟩

theorem bind {m : Emission α} {f : α → Emission β} (hm : Keeps P Q m)
    (hf : ∀ a, Q a → Keeps P R (f a)) : Keeps P R (m >>= f) := by
  refine ⟨?_, ?_, ?_⟩
  · intro n o ho
    cases h : m.outcome n with
    | error e =>
      rw [ops_bind_error h] at ho
      exact hm.ops n o ho
    | ok a =>
      rw [ops_bind_ok h] at ho
      rcases List.mem_append.mp ho with ho | ho
      · exact hm.ops n o ho
      · exact (hf a (hm.value n a h)).ops _ o ho
  · intro n b hb
    cases h : m.outcome n with
    | error e =>
      rw [outcome_bind_error h] at hb
      cases hb
    | ok a =>
      rw [outcome_bind_ok h] at hb
      exact (hf a (hm.value n a h)).value _ b hb
  · intro n k
    cases h : m.outcome n with
    | error e => rw [outcome_bind_error h, outcome_bind_error ((hm.steady k n).trans h)]
    | ok a =>
      rw [outcome_bind_ok h, outcome_bind_ok ((hm.steady k n).trans h)]
      exact (hf a (hm.value n a h)).steady _ _

end Keeps

/-- Without operations nothing is emitted. -/
theorem Keeps.perform_of_no_op {m : Emission α} (h : Keeps (fun _ => False) Q m) (d : Draft) :
    d.perform m = (d, m.outcome d.declared.length) := by
  have hnone : m.ops d.declared.length = [] := List.eq_nil_iff_forall_not_mem.mpr (h.ops _)
  simp only [Draft.perform, hnone]
  rfl

end Emission

theorem Pass.emit_of_no_op {α : Type} {m : Emission α} {Q : α → Prop}
    (h : m.Keeps (fun _ => False) Q) {a : α} {n : Nat} (ha : m.outcome n = .ok a)
    (p : Pass) :
    Pass.emit m p = .ok ([], a) p := by
  simp only [emit, h.perform_of_no_op, h.steady p.draft.declared.length n, ha, Draft.since,
    List.drop_length]

/-- An emission that keeps away from locals emits statements that name none. -/
theorem Emission.Keeps.localsAll_eq_nil {α : Type} {m : Emission α} {Q : α → Prop}
    (hm : m.Keeps Op.LocalFree Q) {d : Draft} {ss : List Stmt}
    (h : d.Extends ss (d.perform m).1) : Stmt.localsAll ss = [] := by
  have hlocals := d.emitAll_localFree _ (Op.localFreeAll_iff.mpr (hm.ops d.declared.length))
  rw [← Draft.perform_fst, h.stmts, Stmt.localsAll_append] at hlocals
  exact List.append_right_eq_self.mp hlocals

end WindowFold
