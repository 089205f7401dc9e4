import Mathlib.Data.List.Nodup
import WindowFold.Proofs.Builtin.Code
import WindowFold.Proofs.Workspace.Slots

/-!
# Phases of builtin calls go through

Each phase of a builtin call, when nothing of the frame or the arguments reads a slot, passes the
checks on what it emits under every configuration and puts its code at the end of the block.
What remains to be asked is what the phase asks of its caller: that the call has been reset, that
the frame is accepted, and that there are as many arguments as the call has.
-/

namespace WindowFold

/-- The pass with statements put at the end of its block. -/
def Pass.extend (p : Pass) (ss : List Stmt) : Pass := { p with draft := p.draft.extend ss }

theorem Pass.extend_nil (p : Pass) : p.extend [] = p := by
  rw [extend, Draft.extend_nil]

theorem Pass.extend_extend (p : Pass) (a b : List Stmt) :
    (p.extend a).extend b = p.extend (a ++ b) := by
  simp only [extend, Draft.extend_extend]

theorem Pass.emit_of_gives {α : Type} {m : Emission α} {ss : List Stmt} {a : α}
    (h : m.Gives ss a) (p : Pass) : Pass.emit m p = .ok (ss, a) (p.extend ss) := by
  simp only [emit, h.perform p.draft, Draft.extend_since, extend]

theorem Pass.emitted_of_gives {α : Type} {m : Emission α} {ss ss' : List Stmt} {a a' : α}
    {p p' : Pass} (h : m.Gives ss a) (hm : Pass.emit m p = .ok (ss', a') p') :
    ss' = ss ∧ a' = a := by
  have hemit := hm.symm.trans (emit_of_gives h p)
  simp only [EStateM.Result.ok.injEq, Prod.mk.injEq] at hemit
  exact hemit.1

namespace Tally

variable {t : Tally} {config : Config}

theorem checkSlots_of_owned {o : Option Accumulator} {slots : List SlotId}
    (h : ∀ x ∈ slots, t.accumulator.owns x = true) : t.checkSlots config o slots = .ok () := by
  unfold checkSlots
  split
  · have hnone : slots.find? (fun x => !(t.accumulator.owns x ||
        o.any fun a => a.owns x)) = none := by
      rw [List.find?_eq_none]
      intro x hx
      simp [h x hx]
    rw [checkOwned, hnone]
  · rfl

theorem checkSlots_of_either {other : Tally} {slots : List SlotId}
    (h : ∀ x ∈ slots, t.accumulator.owns x = true ∨ other.accumulator.owns x = true) :
    t.checkSlots config (some other.accumulator) slots = .ok () := by
  unfold checkSlots
  split
  · have hnone : slots.find? (fun x => !(t.accumulator.owns x ||
        (some other.accumulator).any fun a => a.owns x)) = none := by
      rw [List.find?_eq_none]
      intro x hx
      rcases h x hx with h | h <;> simp [h]
    rw [checkOwned, hnone]
  · rfl

/-- A reset that assigns the slots of the call and no others is complete, in whatever order and
however often it does so. -/
theorem checkComplete_of_assigned {ss : List Stmt}
    (hd : (t.accumulator.slots.map Slot.id).Nodup)
    (h : ∀ x, x ∈ Stmt.assignedAll ss ↔ t.accumulator.owns x = true) :
    t.checkComplete config ss = .ok () := by
  have hsame : ∀ x, x ∈ (Stmt.assignedAll ss).eraseDups ↔ x ∈ t.accumulator.slots.map Slot.id := by
    intro x
    rw [List.mem_eraseDups, h, Accumulator.owns_iff]
  have hperm := (List.perm_ext_iff_of_nodup (nodup_eraseDups _) hd).mpr hsame
  have hlength : (Stmt.assignedAll ss).eraseDups.length = t.accumulator.size := by
    rw [hperm.length_eq, List.length_map, Accumulator.size]
  simp [checkComplete, hlength]

end Tally

namespace Builtin

/-- A call of the function whose slots are `s 0`, `s 1`, … -/
structure Call (b : Builtin) (s : Nat → SlotId) (t : Tally) : Prop where
  aggregate : t.aggregate = b.aggregate
  fits : b.Fits t.site s

/-- Arguments for every row, `n` of them, that read no slot if the row does not. -/
structure ArgumentsFor (n : Nat) (args : Expr → List Expr) : Prop where
  length : ∀ row, (args row).length = n
  slotFree : ∀ row, row.slots = [] → ∀ v ∈ args row, v.slots = []

/-- The first values of a row. -/
def columnsAt (n : Nat) (row : Expr) : List Expr := (List.range n).map fun i => .argument i row

theorem columnsAt_arguments (n : Nat) : ArgumentsFor n (columnsAt n) where
  length := by simp [columnsAt]
  slotFree := by
    intro row hrow v hv
    obtain ⟨i, _, rfl⟩ := List.mem_map.mp hv
    exact hrow

variable {b : Builtin} {s : Nat → SlotId} {t : Tally} {p : Pass}

theorem create_succeeds (sig : Signature) (agg : Aggregate) (p : Pass) :
    ∃ t p', Tally.create sig agg p = .ok t p' := by
  refine ⟨_, _, Tally.create_ok.mpr ⟨rfl, ?_, rfl⟩⟩
  rfl

/-- The slots of a new call are the next ones. -/
theorem create_lays {sig : Signature} {p' : Pass}
    (h : Tally.create sig b.aggregate p = .ok t p') :
    b.Lays t.site (fun i => ⟨p.draft.slotCount + i⟩) := by
  obtain ⟨rfl, _, _⟩ := Tally.create_ok.mp h
  show (List.zipWith Slot.mk _ _).map Slot.id = _
  rw [zipWith_slot_ids _ _ (by simp), layout_length, List.range'_eq_map_range, List.map_map]
  rfl

theorem create_call {sig : Signature} {p' : Pass} (hsig : b.Admits sig.arity)
    (h : Tally.create sig b.aggregate p = .ok t p') :
    b.Call (fun i => ⟨p.draft.slotCount + i⟩) t := by
  have hlays := create_lays h
  obtain ⟨rfl, _, _⟩ := Tally.create_ok.mp h
  refine ⟨rfl, hsig, hlays, ?_⟩
  intro i j hij
  simpa using hij

/-- The code of a reset, on whichever occasion. -/
def Resets (b : Builtin) (s : Nat → SlotId) (ss : List Stmt) : Prop :=
  ss = b.resetCode s ∨ ∃ o, ss = b.openCode s o

theorem opening_gives {i : Instruction} {config : Config} (hb : t.aggregate = b.aggregate)
    (hl : b.Lays t.site s) (hg : t.openingGuard config i = .ok ()) (hi : i.opens? ≠ none) :
    ∃ ss, (t.opening i).Gives ss () ∧ b.Resets s ss := by
  cases i with
  | warmUp u hint =>
    simp only [Tally.opening, hb]
    exact ⟨_, open_gives hl _, .inr ⟨_, rfl⟩⟩
  | openPartition u f =>
    simp only [Tally.opening, hb]
    exact ⟨_, open_gives hl _, .inr ⟨_, rfl⟩⟩
  | reset u =>
    have hw : b.aggregate.windowOnly = false := by
      rw [← hb]
      exact Tally.refuseWindowOnly_ok.mp hg
    simp only [Tally.opening, hb]
    exact ⟨_, reset_gives hl hw, .inl rfl⟩
  | create | add | merge | result | warmUpAll | addRow | resultAt | bind | emit =>
    simp [Instruction.opens?] at hi

namespace Call

theorem nodup (h : b.Call s t) : (t.accumulator.slots.map Slot.id).Nodup := by
  have hids : t.accumulator.slots.map Slot.id = (List.range b.size).map s := h.fits.slots
  rw [hids]
  exact List.nodup_range.map h.fits.distinct

theorem size (h : b.Call s t) : t.accumulator.size = b.size := by
  have hlen := congrArg List.length h.fits.slots
  rwa [List.length_map, List.length_map, List.length_range] at hlen

theorem owns (h : b.Call s t) {slots : List SlotId} (hown : ∀ x ∈ slots, b.Own s x) :
    ∀ x ∈ slots, t.accumulator.owns x = true :=
  fun x hx => h.fits.lays.owns_iff.mpr (hown x hx)

theorem performReset (h : b.Call s t) {m : Emission Unit} {ss : List Stmt} (hm : m.Gives ss ())
    (hown : ∀ x ∈ Stmt.touchedAll ss, b.Own s x)
    (hassigned : Stmt.assignedAll ss = (List.range b.size).map s) :
    t.performReset m p = .ok () (p.extend ss) :=
  Tally.performReset_ok.mpr ⟨ss, Pass.emit_of_gives hm p, Tally.checkSlots_of_owned (h.owns hown),
    Tally.checkComplete_of_assigned h.nodup fun x => by
      rw [hassigned, ← h.fits.slots]
      exact Accumulator.owns_iff.symm⟩

theorem performUpdate (h : b.Call s t) {m : Emission Unit} {ss : List Stmt} (hm : m.Gives ss ())
    (hown : ∀ x ∈ Stmt.touchedAll ss, b.Own s x) :
    t.performUpdate none m p = .ok () (p.extend ss) :=
  Tally.performUpdate_ok.mpr
    ⟨ss, Pass.emit_of_gives hm p, Tally.checkSlots_of_owned (h.owns hown)⟩

theorem performResult (h : b.Call s t) {m : Emission Expr} {e : Expr} (hm : m.Gives [] e)
    (hown : ∀ x ∈ e.slots, b.Own s x) : t.performResult m p = .ok e p := by
  have hemit := Pass.emit_of_gives hm p
  rw [Pass.extend_nil] at hemit
  exact Tally.performResult_ok.mpr ⟨[], hemit, rfl,
    Tally.checkSlots_of_owned (by simp [Stmt.touchedAll]), Tally.checkSlots_of_owned (h.owns hown)⟩

theorem refuseWindowOnly (h : b.Call s t) (hw : b.aggregate.windowOnly = false) :
    t.refuseWindowOnly = .ok () :=
  Tally.refuseWindowOnly_ok.mpr (by rw [h.aggregate, hw])

theorem windowOnly_false (h : b.Call s t) (hopen : t.refuseWindowOnly = .ok ()) :
    b.aggregate.windowOnly = false := by
  rw [← h.aggregate]
  exact Tally.refuseWindowOnly_ok.mp hopen

theorem reset (h : b.Call s t) (hw : b.aggregate.windowOnly = false) :
    t.reset p = .ok { t with ready := true } (p.extend (b.resetCode s)) := by
  have hgives := reset_gives h.fits.lays hw
  rw [← h.aggregate] at hgives
  exact Tally.reset_ok.mpr ⟨h.refuseWindowOnly hw,
    h.performReset hgives resetCode_touched resetCode_assigned, rfl⟩

theorem add (h : b.Call s t) (hw : b.aggregate.windowOnly = false) (hr : t.ready = true)
    {args : List Expr} (hargs : args.length = t.signature.arity)
    (hfree : ∀ v ∈ args, v.slots = []) : t.add args p = .ok () (p.extend (b.addCode s args)) := by
  have hgives := add_gives h.fits hw hargs
  rw [← h.aggregate] at hgives
  exact Tally.add_ok.mpr ⟨h.refuseWindowOnly hw, Tally.requireReady_ok.mpr hr,
    Tally.requireArity_ok.mpr hargs,
    h.performUpdate hgives (addCode_touched hfree)⟩

/-- Two calls of the function are merged if both have been reset and are of one signature. -/
theorem merge {s' : Nat → SlotId} {t' : Tally} (h : b.Call s t) (h' : b.Call s' t')
    (hm : b.mergeable = true) (hr : t.ready = true) (hr' : t'.ready = true)
    (hsig : t'.signature = t.signature) : t.merge t' p = .ok () (p.extend (b.mergeCode s s')) := by
  have hgives := merge_gives h.fits.lays h'.fits.lays hm
  rw [← h.aggregate] at hgives
  exact Tally.merge_ok.mpr ⟨h.refuseWindowOnly (mergeable_windowOnly hm),
    Tally.requireReady_ok.mpr hr,
    Tally.requireMergeable_ok.mpr ⟨hr', hsig, h'.size.trans h.size.symm⟩,
    Tally.performUpdate_ok.mpr ⟨b.mergeCode s s', Pass.emit_of_gives hgives p,
      Tally.checkSlots_of_either fun x hx => (mergeCode_touched x hx).imp
        h.fits.lays.owns_iff.mpr h'.fits.lays.owns_iff.mpr⟩⟩

theorem result (h : b.Call s t) (hw : b.aggregate.windowOnly = false) (hr : t.ready = true) :
    t.result p = .ok (b.resultExpr s) p := by
  have hgives := result_gives h.fits.lays hw
  rw [← h.aggregate] at hgives
  exact Tally.result_ok.mpr ⟨h.refuseWindowOnly hw, Tally.requireReady_ok.mpr hr,
    h.performResult hgives (resultExpr_slots hw)⟩

theorem openPartition (h : b.Call s t) {f : Frame} (hf : Tally.checkFrame p.config f = .ok ())
    (hfree : f.SlotFree) : t.openPartition f p =
      .ok { t with ready := true, partitionSeen := true }
        (p.extend (b.openCode s (.partition f))) := by
  have hgives := open_gives h.fits.lays (.partition f)
  rw [← h.aggregate] at hgives
  have hhint : (Opening.partition f).rowCountHint.slots = [] := hfree .rowCount
  exact Tally.openPartition_ok.mpr
    ⟨hf, h.performReset hgives (openCode_touched hhint) (openCode_assigned _), rfl⟩

theorem addRow (h : b.Call s t) (hr : t.ready = true) {f : Frame}
    (hf : Tally.checkFrame p.config f = .ok ()) (hfree : f.SlotFree) {args : Expr → List Expr}
    (hargs : ArgumentsFor t.signature.arity args) :
    t.addRow f (.total args) p = .ok () (p.extend (b.rowCode s (args f.currentRow))) := by
  have hgives := addRow_gives h.fits (t.site.window f (.total args)) (hargs.length f.currentRow)
  rw [← h.aggregate] at hgives
  exact Tally.addRow_ok.mpr ⟨Tally.requireReady_ok.mpr hr, hf, args f.currentRow,
    window_arguments f (hargs.length _),
    h.performUpdate hgives (rowCode_touched (hargs.slotFree _ (hfree .currentRow)))⟩

theorem resultAt (h : b.Call s t) (hr : t.ready = true) {f : Frame}
    (hf : Tally.checkFrame p.config f = .ok ()) (hfree : f.SlotFree) {args : Expr → List Expr}
    (hargs : ArgumentsFor t.signature.arity args) :
    t.resultAt f (.total args) p = .ok (windowExpr s b f args) p := by
  have hgives := resultAt_gives h.fits f hargs.length
  rw [← h.aggregate] at hgives
  exact Tally.resultAt_ok.mpr ⟨Tally.requireReady_ok.mpr hr, hf,
    h.performResult hgives (windowExpr_slots hfree hargs.slotFree)⟩

end Call

end Builtin
end WindowFold
