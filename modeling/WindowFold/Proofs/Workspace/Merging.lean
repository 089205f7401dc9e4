import WindowFold.Proofs.Builtin.Confined
import WindowFold.Proofs.Machine.Footprint
import WindowFold.Proofs.Workspace.Lifecycle

/-!
# What a merge may change

With the slot check on, the statements of a merge touch the slots of the two calls and no others,
so a run of them leaves every third call as it was (`merge_confined`).  Which of the two a slot
belongs to the check does not ask: a function that assigns a slot of the call merged in is let
through (`merge_empties_other`).  The builtin functions assign their own slots only, and leave the
call that is merged in alone.
-/

namespace WindowFold

/-! ## The slots that operations write -/

mutual

/-- The slots an operation may write once it has become a statement. -/
def Op.written : Op → List SlotId
  | .declare _ _ | .setLocal _ _ | .fail _ => []
  | .assign s _ | .push s _ | .reserve s _ => [s]
  | .branch _ yes no => Op.writtenAll yes ++ Op.writtenAll no

def Op.writtenAll : List Op → List SlotId
  | [] => []
  | op :: rest => op.written ++ Op.writtenAll rest

end

theorem Op.mem_writtenAll {ops : List Op} {x : SlotId} :
    x ∈ writtenAll ops ↔ ∃ op ∈ ops, x ∈ op.written := by
  induction ops with
  | nil => simp [writtenAll]
  | cons op rest ih => simp [writtenAll, ih]

namespace Draft

theorem append_written (d : Draft) (s : Stmt) :
    Stmt.writtenAll (d.append s).stmts = Stmt.writtenAll d.stmts ++ s.written := by
  rw [append, Stmt.writtenAll_append, Stmt.writtenAll, Stmt.writtenAll, List.append_nil]

mutual

theorem emit_written (d : Draft) : ∀ op : Op, ∃ l ⊆ op.written,
    Stmt.writtenAll (d.emit op).1.stmts = Stmt.writtenAll d.stmts ++ l
  | .declare name e => by
    refine ⟨[], List.nil_subset _, ?_⟩
    simp only [emit]
    split
    · rename_i y d' hd
      rw [(declare_extends hd).stmts, Stmt.writtenAll_append]
      rfl
    · rw [List.append_nil]
  | .setLocal y e => ⟨[], List.nil_subset _, append_written d (.setLocal y e)⟩
  | .assign s e => ⟨[s], List.Subset.refl _, append_written d (.assign s e)⟩
  | .push s e => ⟨[s], List.Subset.refl _, append_written d (.push s e)⟩
  | .reserve s e => ⟨[s], List.Subset.refl _, append_written d (.reserve s e)⟩
  | .branch c yes no => by
    obtain ⟨l₁, hl₁, hyes⟩ := emitAll_written d.child yes
    cases hy : d.child.emitAll yes with
    | mk d₁ r₁ =>
      rw [hy] at hyes
      cases r₁ with
      | error err =>
        simp only [emit, hy, leave]
        exact ⟨[], List.nil_subset _, (List.append_nil _).symm⟩
      | ok _ =>
        obtain ⟨l₂, hl₂, hno⟩ := emitAll_written d₁.child no
        cases hn : d₁.child.emitAll no with
        | mk d₂ r₂ =>
          rw [hn] at hno
          cases r₂ with
          | error err =>
            simp only [emit, hy, hn, leave]
            exact ⟨[], List.nil_subset _, (List.append_nil _).symm⟩
          | ok _ =>
            -- The statements of the two sides are what was put into drafts with none.
            simp only [child, Stmt.writtenAll, List.nil_append] at hyes hno
            simp only [emit, hy, hn, append_written, Stmt.written, hyes, hno, leave]
            refine ⟨l₁ ++ l₂, ?_, rfl⟩
            rw [Op.written]
            exact List.append_subset.mpr ⟨List.Subset.trans hl₁ (List.subset_append_left _ _),
              List.Subset.trans hl₂ (List.subset_append_right _ _)⟩
  | .fail _ => ⟨[], List.nil_subset _, (List.append_nil _).symm⟩

/-- The statements that operations come to write no other slots than the operations. -/
theorem emitAll_written (d : Draft) : ∀ ops : List Op, ∃ l ⊆ Op.writtenAll ops,
    Stmt.writtenAll (d.emitAll ops).1.stmts = Stmt.writtenAll d.stmts ++ l
  | [] => ⟨[], List.nil_subset _, (List.append_nil _).symm⟩
  | op :: rest => by
    obtain ⟨l₁, hl₁, hop⟩ := emit_written d op
    rw [Op.writtenAll]
    cases he : d.emit op with
    | mk d' r =>
      rw [he] at hop
      cases r with
      | error err =>
        simp only [emitAll, he]
        exact ⟨l₁, List.Subset.trans hl₁ (List.subset_append_left _ _), hop⟩
      | ok _ =>
        obtain ⟨l₂, hl₂, hrest⟩ := emitAll_written d' rest
        simp only [emitAll, he]
        refine ⟨l₁ ++ l₂, ?_, by rw [hrest, hop, List.append_assoc]⟩
        exact List.append_subset.mpr ⟨List.Subset.trans hl₁ (List.subset_append_left _ _),
          List.Subset.trans hl₂ (List.subset_append_right _ _)⟩

end

end Draft

/-- The operation writes slots of the accumulator only. -/
def Op.WritesOwn (a : Accumulator) (op : Op) : Prop := ∀ x ∈ op.written, a.owns x = true

/-- An emission that writes its own slots emits statements that do. -/
theorem Emission.Keeps.written_owned {α : Type} {m : Emission α} {Q : α → Prop}
    {a : Accumulator} (hm : m.Keeps (Op.WritesOwn a) Q) {d : Draft} {ss : List Stmt}
    (h : d.Extends ss (d.perform m).1) : ∀ x ∈ Stmt.writtenAll ss, a.owns x = true := by
  intro x hx
  obtain ⟨l, hl, hwritten⟩ := d.emitAll_written (m.ops d.declared.length)
  rw [← Draft.perform_fst, h.stmts, Stmt.writtenAll_append, List.append_cancel_left_eq] at hwritten
  rw [hwritten] at hx
  obtain ⟨op, hop, hx⟩ := Op.mem_writtenAll.mp (hl hx)
  exact hm.ops _ op hop x hx

/-- A merge of a builtin function writes its own slots, whatever it is merged with. -/
theorem Builtin.merge_writes (b : Builtin) (c : Site) (other : Accumulator) :
    (b.aggregate.merge c other).Keeps (Op.WritesOwn c.accumulator) fun _ => True := by
  have assigns {s : SlotId} (hs : c.accumulator.owns s = true) (e : Expr) :
      (Op.assign s e).WritesOwn c.accumulator := by
    intro x hx
    rw [List.mem_singleton.mp hx]
    exact hs
  have read (i : Nat) : (Emission.ofExcept (other.read i)).Keeps (Op.WritesOwn c.accumulator)
      fun _ => True :=
    .ofExcept fun _ _ => trivial
  cases b with
  | count =>
    exact .bind (c.slot_keeps 0) fun n hn => .bind (read 0) fun _ _ => .op (assigns hn _)
  | sum =>
    refine .bind (read 0) fun _ _ => .bind (c.slot_keeps 0) fun total ht => .op ?_
    exact fun x hx => assigns ht .null x (by simpa [Op.when, Op.written, Op.writtenAll] using hx)
  | min | max =>
    refine .bind (read 0) fun _ _ => .bind (c.slot_keeps 0) fun best hb => .op ?_
    exact fun x hx => assigns hb .null x (by simpa [Op.when, Op.written, Op.writtenAll] using hx)
  | avg =>
    refine .bind (c.slot_keeps 0) fun total ht => .bind (c.slot_keeps 1) fun n hn => ?_
    exact .bind (read 0) fun _ _ => .bind (.op (assigns ht _)) fun _ _ =>
      .bind (read 1) fun _ _ => .op (assigns hn _)
  | arrayAgg | firstValue | lastValue | lag | lead | rowNumber => exact .fail _

namespace Workspace

variable {w w' : Workspace} {u v : Nat} {t : Tally} {r : Reply}

/-- A merge that succeeds leaves the calls as they are and emits what the function does. -/
theorem step_merge_ok : w.step (.merge u v) = (w', .ok r) ↔
    ∃ t other ss, w.tallies[u]? = some t ∧ w.tallies[v]? = some other ∧
      t.refuseWindowOnly = .ok () ∧ t.ready = true ∧ t.requireMergeable other = .ok () ∧
      Pass.emit (t.aggregate.merge t.site other.accumulator) w.pass = .ok (ss, ()) w'.pass ∧
      t.checkSlots w.pass.config (some other.accumulator) (Stmt.touchedAll ss) = .ok () ∧
      w'.tallies = w.tallies ∧ r = .done := by
  constructor
  · intro h
    simp only [step] at h
    split at h
    · simp at h
    · rename_i other hv
      obtain ⟨t, ht, hp, hts⟩ := consult_ok.mp h
      obtain ⟨hmerge, hr⟩ := PassM.then_pure_ok.mp hp
      obtain ⟨hw, hready, hother, hp⟩ := Tally.merge_ok.mp hmerge
      obtain ⟨ss, hm, hs⟩ := Tally.performUpdate_ok.mp hp
      exact ⟨t, other, ss, ht, hv, hw, Tally.requireReady_ok.mp hready, hother, hm, hs, hts, hr⟩
  · rintro ⟨t, other, ss, ht, hv, hw, hready, hother, hm, hs, hts, rfl⟩
    simp only [step, hv]
    exact consult_ok.mpr ⟨t, ht, PassM.then_pure_ok.mpr ⟨Tally.merge_ok.mpr
      ⟨hw, Tally.requireReady_ok.mpr hready, hother, Tally.performUpdate_ok.mpr ⟨ss, hm, hs⟩⟩, rfl⟩,
      hts⟩

/-- The merge of the two calls of a workspace, when every check passes. -/
theorem step_merge_pair {t t' : Tally} {ss : List Stmt} {p : Pass} (hts : w.tallies = [t, t'])
    (hw : t.aggregate.windowOnly = false) (hready : t.ready = true)
    (hother : t.requireMergeable t' = .ok ())
    (hm : Pass.emit (t.aggregate.merge t.site t'.accumulator) w.pass = .ok (ss, ()) p)
    (hs : t.checkSlots w.pass.config (some t'.accumulator) (Stmt.touchedAll ss) = .ok ()) :
    w.step (.merge 0 1) = (⟨p, w.tallies⟩, .ok .done) :=
  step_merge_ok.mpr ⟨t, t', ss, by rw [hts]; rfl, by rw [hts]; rfl,
    Tally.refuseWindowOnly_ok.mpr hw, hready, hother, hm, hs, rfl, rfl⟩

/-- With the slot check on, what a merge emits changes slots of the two calls only, from whatever
store it is run and also if it fails midway, and of the call that is merged in only those that its
text writes.  A builtin function writes none of them. -/
theorem merge_confined {config : Config} (hc : config.checkSlots = true) {is : List Instruction}
    {es : List Entry} (h : (start config).record is = .ok (es, w)) (hne : u ≠ v)
    (hstep : w.step (.merge u v) = (w', .ok r)) :
    ∃ ss, w'.pass.draft.stmts = w.pass.draft.stmts ++ ss ∧
      (∀ k, k ≠ u → k ≠ v → ∀ x, w.Owns k x →
        ∀ env st, (Stmt.runAll env st ss).1.slots x = st.slots x) ∧
      (∀ x, w.Owns v x → x ∉ Stmt.writtenAll ss →
        ∀ env st, (Stmt.runAll env st ss).1.slots x = st.slots x) ∧
      ∀ t (b : Builtin), w.tallies[u]? = some t → t.aggregate = b.aggregate →
        ∀ x, w.Owns v x → ∀ env st, (Stmt.runAll env st ss).1.slots x = st.slots x := by
  have hapart := record_apart h
  obtain ⟨t, other, ss, ht, hother, _, _, _, hm, hs, _, _⟩ := step_merge_ok.mp hstep
  have hchecked : w.pass.config.checkSlots = true := by rw [record_config h, hc]
  have hemits := (Pass.emit_ok hm).2.draft
  have unwritten {x : SlotId} (hx : x ∉ Stmt.writtenAll ss) (env : Env) (st : Store) :
      (Stmt.runAll env st ss).1.slots x = st.slots x :=
    Stmt.runAll_slots_of_not_mem env st x ss hx
  refine ⟨ss, hemits.stmts, ?_, fun x _ hx => unwritten hx, ?_⟩
  · intro k hku hkv x hx
    refine unwritten fun hwritten => ?_
    have htouched := Stmt.writtenAll_subset_touchedAll ss hwritten
    rcases Tally.owned_of_checkSlots hchecked hs x htouched with ho | ⟨a, ha, ho⟩
    · exact hku (hapart.unique k u x hx ((owns_of_tally ht).mpr ho))
    · obtain rfl := Option.some.inj ha
      exact hkv (hapart.unique k v x hx ((owns_of_tally hother).mpr ho))
  · intro t' b ht' hb x hx
    obtain rfl : t = t' := Option.some.inj (ht.symm.trans ht')
    have hkeeps := b.merge_writes t.site other.accumulator
    rw [← hb] at hkeeps
    refine unwritten fun hwritten => ?_
    have howned := hkeeps.written_owned (d := w.pass.draft)
      (by rw [(Pass.emit_ok hm).1]; exact hemits) x hwritten
    exact hne (hapart.unique u v x ((owns_of_tally ht).mpr howned) hx)

/-- Two counts merged: the second one keeps what it has counted. -/
theorem merged_count_kept : ∃ es w w' ss st,
    (start (.strict "agg")).record
      [.create (.of "count" [] .int false false) .count,
        .create (.of "count" [] .int false false) .count, .reset 0, .reset 1, .add 1 []] =
      .ok (es, w) ∧
    w.step (.merge 0 1) = (w', .ok .done) ∧
    w'.pass.draft.stmts = w.pass.draft.stmts ++ ss ∧
    Stmt.runAll ⟨[], none⟩ .fresh w.pass.draft.stmts = (st, .ok ()) ∧
    (Stmt.runAll ⟨[], none⟩ st ss).1.slots ⟨1⟩ = some (.int 1) := by
  have h : ∃ es w st t t' p ss, (start (.strict "agg")).record
        [.create (.of "count" [] .int false false) .count,
          .create (.of "count" [] .int false false) .count, .reset 0, .reset 1, .add 1 []] =
        .ok (es, w) ∧
      Stmt.runAll ⟨[], none⟩ .fresh w.pass.draft.stmts = (st, .ok ()) ∧
      st.slots ⟨1⟩ = some (.int 1) ∧ w.Owns 1 ⟨1⟩ ∧ w.tallies = [t, t'] ∧
      t.aggregate = Builtin.count.aggregate ∧ t.ready = true ∧
      t.requireMergeable t' = .ok () ∧
      Pass.emit (t.aggregate.merge t.site t'.accumulator) w.pass = .ok (ss, ()) p ∧
      t.checkSlots w.pass.config (some t'.accumulator) (Stmt.touchedAll ss) = .ok () :=
    ⟨_, _, _, _, _, _, _, rfl, rfl, rfl, ⟨_, rfl, rfl⟩, rfl, rfl, rfl,
      Tally.requireMergeable_ok.mpr ⟨rfl, rfl, rfl⟩, rfl, rfl⟩
  obtain ⟨es, w, st, t, t', p, ss, hrecord, hrun, hheld, hown, hts, hb, hr, hother, hm, hs⟩ := h
  have ht : w.tallies[0]? = some t := by rw [hts]; rfl
  have hstep := step_merge_pair hts (by rw [hb]; rfl) hr hother hm hs
  obtain ⟨ss, hss, _, _, hbuiltin⟩ := merge_confined rfl hrecord Nat.zero_ne_one hstep
  refine ⟨es, w, _, ss, st, hrecord, hstep, hss, hrun, ?_⟩
  rw [hbuiltin t .count ht hb _ hown, hheld]

/-- A total that takes another one over when it is merged with it, and leaves nothing in it.  The
slot of the other one it knows by itself. -/
def drained : Aggregate where
  name := "drained"
  typing _ := .ok (.int, false)
  layout _ := [.int]
  reset c := do
    let total ← c.slot 0
    .assign total (.int 0)
  add c args := do
    let total ← c.slot 0
    let v ← c.soleArgument args
    .assign total (.add (.slot total) v)
  merge c other := do
    let total ← c.slot 0
    let v ← .ofExcept (other.read 0)
    .assign total (.add (.slot total) v)
    .assign ⟨1⟩ (.int 0)
  result c := c.read 0

/-- The slot check lets a merge write a slot of the call that is merged in. -/
theorem merge_empties_other : ∃ es w w' ss st,
    (start (.strict "agg")).record
      [.create (.of "drained" [.int] .int false false) drained,
        .create (.of "drained" [.int] .int false false) drained,
        .reset 0, .reset 1, .add 1 [.int 7]] = .ok (es, w) ∧
    w.Owns 1 ⟨1⟩ ∧
    w.step (.merge 0 1) = (w', .ok .done) ∧
    w'.pass.draft.stmts = w.pass.draft.stmts ++ ss ∧
    Stmt.runAll ⟨[], none⟩ .fresh w.pass.draft.stmts = (st, .ok ()) ∧
    st.slots ⟨1⟩ = some (.int 7) ∧
    (Stmt.runAll ⟨[], none⟩ st ss).1.slots ⟨1⟩ = some (.int 0) := by
  have h : ∃ es w st t t' p ss, (start (.strict "agg")).record
        [.create (.of "drained" [.int] .int false false) drained,
          .create (.of "drained" [.int] .int false false) drained,
          .reset 0, .reset 1, .add 1 [.int 7]] = .ok (es, w) ∧
      w.Owns 1 ⟨1⟩ ∧ Stmt.runAll ⟨[], none⟩ .fresh w.pass.draft.stmts = (st, .ok ()) ∧
      st.slots ⟨1⟩ = some (.int 7) ∧ w.tallies = [t, t'] ∧
      t.aggregate.windowOnly = false ∧ t.ready = true ∧ t.requireMergeable t' = .ok () ∧
      Pass.emit (t.aggregate.merge t.site t'.accumulator) w.pass = .ok (ss, ()) p ∧
      t.checkSlots w.pass.config (some t'.accumulator) (Stmt.touchedAll ss) = .ok () ∧
      (Stmt.runAll ⟨[], none⟩ st ss).1.slots ⟨1⟩ = some (.int 0) :=
    ⟨_, _, _, _, _, _, _, rfl, ⟨_, rfl, rfl⟩, rfl, rfl, rfl, rfl, rfl,
      Tally.requireMergeable_ok.mpr ⟨rfl, rfl, rfl⟩, rfl, rfl, rfl⟩
  obtain ⟨es, w, st, t, t', p, ss, hrecord, hown, hrun, hheld, hts, hw, hr, hother, hm, hs,
    hemptied⟩ := h
  have hstep := step_merge_pair hts hw hr hother hm hs
  exact ⟨es, w, _, ss, st, hrecord, hown, hstep, (Pass.emit_ok hm).2.draft.stmts, hrun, hheld,
    hemptied⟩

end Workspace
end WindowFold
