import WindowFold.Proofs.Builtin.Phases

/-!
# Records of one builtin call

A builtin call driven from its creation to a result, through the regular phases (`regular`) or
over a window with arguments from the columns of the partition (`windowed`).  Both go through
under every configuration, and their records are known in full (`record_regular`,
`record_windowed`).
-/

namespace WindowFold

namespace Workspace

theorem record_cons_extend {w w' : Workspace} {i : Instruction} {is : List Instruction}
    {es : List Entry} {ss : List Stmt} {ts : List Tally} {r : Reply}
    (hstep : w.step i = (⟨w.pass.extend ss, ts⟩, .ok r))
    (h : (Workspace.mk (w.pass.extend ss) ts).record is = .ok (es, w')) :
    w.record (i :: is) = .ok (⟨i, ss, r⟩ :: es, w') := by
  refine record_cons_ok.mpr ⟨_, r, es, hstep, h, ?_⟩
  rw [Pass.extend, Draft.extend_since]

theorem record_append {w w₁ w₂ : Workspace} {is is' : List Instruction} {es es' : List Entry}
    (h : w.record is = .ok (es, w₁)) (h' : w₁.record is' = .ok (es', w₂)) :
    w.record (is ++ is') = .ok (es ++ es', w₂) := by
  induction is generalizing w es with
  | nil =>
    simp only [record, Except.ok.injEq, Prod.mk.injEq] at h
    obtain ⟨rfl, rfl⟩ := h
    exact h'
  | cons i is ih =>
    obtain ⟨w', r, es₀, hs, hr, rfl⟩ := record_cons_ok.mp h
    exact record_cons_ok.mpr ⟨w', r, es₀ ++ es', hs, ih hr, rfl⟩

/-- Instructions that each only put code at the end of the block. -/
theorem record_each {α : Type} {config : Config} (ts : List Tally) (i : α → Instruction)
    (code : α → List Stmt) (items : List α)
    (hstep : ∀ a ∈ items, ∀ p : Pass, p.config = config →
      (Workspace.mk p ts).step (i a) = (⟨p.extend (code a), ts⟩, .ok .done))
    {p : Pass} (hp : p.config = config) :
    (Workspace.mk p ts).record (items.map i) =
      .ok (items.map fun a => ⟨i a, code a, .done⟩, ⟨p.extend (items.flatMap code), ts⟩) := by
  induction items generalizing p with
  | nil =>
    rw [List.flatMap_nil, Pass.extend_nil]
    rfl
  | cons a rest ih =>
    have hrest : (Workspace.mk (p.extend (code a)) ts).record (rest.map i) = _ :=
      ih (fun x hx => hstep x (List.mem_cons_of_mem _ hx)) hp
    rw [Pass.extend_extend] at hrest
    exact record_cons_extend (hstep a List.mem_cons_self p hp) hrest

end Workspace

namespace Builtin

open Workspace

variable {b : Builtin} {sig : Signature} {config : Config}

/-! ## Steps of a call -/

section

variable {s : Nat → SlotId} {w : Workspace} {t : Tally} {u : Nat}

theorem Call.step_reset (h : b.Call s t) (hw : b.aggregate.windowOnly = false)
    (ht : w.tallies[u]? = some t) : w.step (.reset u) =
      (⟨w.pass.extend (b.resetCode s), w.tallies.set u { t with ready := true }⟩, .ok .done) := by
  show w.update u Tally.reset = _
  exact update_ok.mpr ⟨t, _, ht, h.reset hw, rfl, rfl⟩

theorem Call.step_openPartition (h : b.Call s t) (ht : w.tallies[u]? = some t) {f : Frame}
    (hf : Tally.checkFrame w.pass.config f = .ok ()) (hfree : f.SlotFree) :
    w.step (.openPartition u f) =
      (⟨w.pass.extend (b.openCode s (.partition f)),
        w.tallies.set u { t with ready := true, partitionSeen := true }⟩, .ok .done) := by
  show w.update u (fun t => t.openPartition f) = _
  exact update_ok.mpr ⟨t, _, ht, h.openPartition hf hfree, rfl, rfl⟩

theorem Call.step_add (h : b.Call s t) (hw : b.aggregate.windowOnly = false)
    (hr : t.ready = true) (ht : w.tallies[u]? = some t) {args : List Expr}
    (hargs : args.length = t.signature.arity) (hfree : ∀ v ∈ args, v.slots = []) :
    w.step (.add u args) = (⟨w.pass.extend (b.addCode s args), w.tallies⟩, .ok .done) :=
  consult_ok.mpr ⟨t, ht, PassM.then_pure_ok.mpr ⟨h.add hw hr hargs hfree, rfl⟩, rfl⟩

theorem Call.step_addRow (h : b.Call s t) (hr : t.ready = true) (ht : w.tallies[u]? = some t)
    {f : Frame} (hf : Tally.checkFrame w.pass.config f = .ok ()) (hfree : f.SlotFree)
    {args : Expr → List Expr} (hargs : ArgumentsFor t.signature.arity args) :
    w.step (.addRow u f (.total args)) =
      (⟨w.pass.extend (b.rowCode s (args f.currentRow)), w.tallies⟩, .ok .done) :=
  consult_ok.mpr ⟨t, ht, PassM.then_pure_ok.mpr ⟨h.addRow hr hf hfree hargs, rfl⟩, rfl⟩

theorem Call.step_merge {s' : Nat → SlotId} {t' : Tally} {v : Nat} (h : b.Call s t)
    (h' : b.Call s' t') (hm : b.mergeable = true) (hr : t.ready = true) (hr' : t'.ready = true)
    (hsig : t'.signature = t.signature) (ht : w.tallies[u]? = some t)
    (ht' : w.tallies[v]? = some t') :
    w.step (.merge u v) = (⟨w.pass.extend (b.mergeCode s s'), w.tallies⟩, .ok .done) := by
  simp only [step, ht']
  exact consult_ok.mpr ⟨t, ht, PassM.then_pure_ok.mpr ⟨h.merge h' hm hr hr' hsig, rfl⟩, rfl⟩

theorem Call.step_result (h : b.Call s t) (hw : b.aggregate.windowOnly = false)
    (hr : t.ready = true) (ht : w.tallies[u]? = some t) :
    w.step (.result u) = (w, .ok (.value (b.resultExpr s))) :=
  consult_ok.mpr ⟨t, ht, PassM.map_ok.mpr ⟨_, h.result hw hr, rfl⟩, rfl⟩

theorem Call.step_resultAt (h : b.Call s t) (hr : t.ready = true) (ht : w.tallies[u]? = some t)
    {f : Frame} (hf : Tally.checkFrame w.pass.config f = .ok ()) (hfree : f.SlotFree)
    {args : Expr → List Expr} (hargs : ArgumentsFor t.signature.arity args) :
    w.step (.resultAt u f (.total args)) = (w, .ok (.value (windowExpr s b f args))) :=
  consult_ok.mpr ⟨t, ht, PassM.map_ok.mpr ⟨_, h.resultAt hr hf hfree hargs, rfl⟩, rfl⟩

end

/-! ## From creation to result -/

/-- Create a call, reset it, add lists of arguments and ask for the result. -/
def regular (b : Builtin) (sig : Signature) (argss : List (List Expr)) : List Instruction :=
  [.create sig b.aggregate, .reset 0] ++ argss.map (.add 0) ++ [.result 0]

/-- Create a call, open a partition, add the current rows of frames and ask for the result. -/
def windowed (b : Builtin) (sig : Signature) (f₀ : Frame) (fs : List Frame) (g : Frame) :
    List Instruction :=
  [.create sig b.aggregate, .openPartition 0 f₀] ++
    fs.map (fun f => .addRow 0 f (.columns sig.arity)) ++ [.resultAt 0 g (.columns sig.arity)]

def regularEntries (b : Builtin) (sig : Signature) (argss : List (List Expr)) : List Entry :=
  [⟨.create sig b.aggregate, [], .done⟩, ⟨.reset 0, b.resetCode SlotId.mk, .done⟩] ++
    argss.map (fun args => ⟨.add 0 args, b.addCode SlotId.mk args, .done⟩) ++
    [⟨.result 0, [], .value (b.resultExpr SlotId.mk)⟩]

def windowedEntries (b : Builtin) (sig : Signature) (f₀ : Frame) (fs : List Frame) (g : Frame) :
    List Entry :=
  let columns := RowArguments.columns sig.arity
  let values := columnsAt sig.arity
  [⟨.create sig b.aggregate, [], .done⟩,
    ⟨.openPartition 0 f₀, b.openCode SlotId.mk (.partition f₀), .done⟩] ++
    fs.map (fun f =>
      ⟨.addRow 0 f columns, b.rowCode SlotId.mk (values f.currentRow), .done⟩) ++
    [⟨.resultAt 0 g columns, [], .value (windowExpr SlotId.mk b g values)⟩]

/-- The value that the last entry returned. -/
def answer? (es : List Entry) : Option Expr := es.getLast?.bind Entry.value?

theorem answer?_concat (es : List Entry) (e : Entry) : answer? (es ++ [e]) = e.value? := by
  rw [answer?, List.getLast?_concat, Option.bind_some]

theorem answer?_regularEntries (argss : List (List Expr)) :
    answer? (b.regularEntries sig argss) = some (b.resultExpr SlotId.mk) :=
  answer?_concat _ _

theorem answer?_windowedEntries (f₀ : Frame) (fs : List Frame) (g : Frame) :
    answer? (b.windowedEntries sig f₀ fs g) =
      some (windowExpr SlotId.mk b g (columnsAt sig.arity)) :=
  answer?_concat _ _

theorem emittedBy_regularEntries (argss : List (List Expr)) :
    emittedBy (b.regularEntries sig argss) =
      b.resetCode SlotId.mk ++ argss.flatMap (b.addCode SlotId.mk) := by
  simp [emittedBy, regularEntries, List.flatMap_map]

theorem emittedBy_windowedEntries (f₀ : Frame) (fs : List Frame) (g : Frame) :
    emittedBy (b.windowedEntries sig f₀ fs g) = b.openCode SlotId.mk (.partition f₀) ++
      fs.flatMap fun f => b.rowCode SlotId.mk (columnsAt sig.arity f.currentRow) := by
  simp [emittedBy, windowedEntries, List.flatMap_map]

/-- The first call of a pass has the first slots.  Nothing is emitted, and nothing has been bound. -/
theorem start_create (hsig : b.Admits sig.arity) (config : Config) : ∃ p t,
    (start config).step (.create sig b.aggregate) = (⟨p, [t]⟩, .ok .done) ∧
    b.Call SlotId.mk t ∧ t.signature = sig ∧ p.config = config ∧ p.draft.stmts = [] ∧
    p.draft.declared = [] ∧ p.bindings = 0 := by
  obtain ⟨t, p, hc⟩ := create_succeeds sig b.aggregate (start config).pass
  have hcall := create_call hsig hc
  have hslots : (fun i => SlotId.mk ((start config).pass.draft.slotCount + i)) = SlotId.mk := by
    funext i
    exact congrArg SlotId.mk (Nat.zero_add i)
  rw [hslots] at hcall
  obtain ⟨ht, hstmts, hp⟩ := Tally.create_ok.mp hc
  refine ⟨p, t, ?_, hcall, by rw [ht], by rw [hp]; rfl, hstmts, by rw [hp]; rfl, by rw [hp]; rfl⟩
  simp only [step, hc]
  rfl

/-- What follows the creation of a call is up to the call; nothing has been bound yet. -/
theorem record_of_create (hsig : b.Admits sig.arity) {is : List Instruction} {es : List Entry}
    (hrest : ∀ (p : Pass) (t : Tally), p.config = config → p.draft.declared = [] →
      p.bindings = 0 → b.Call SlotId.mk t → t.signature = sig →
      ∃ w, (Workspace.mk p [t]).record is = .ok (es, w)) :
    ∃ w, (start config).record (.create sig b.aggregate :: is) =
      .ok (⟨.create sig b.aggregate, [], .done⟩ :: es, w) := by
  obtain ⟨p, t, hstep, hcall, ht, hconfig, hstmts, hdeclared, hbindings⟩ := start_create hsig config
  obtain ⟨w, hw⟩ := hrest p t hconfig hdeclared hbindings hcall ht
  refine ⟨w, record_cons_ok.mpr ⟨_, _, es, hstep, hw, ?_⟩⟩
  simp [Draft.since, hstmts]

theorem record_answer {w : Workspace} {i : Instruction} {r : Reply} (h : w.step i = (w, .ok r)) :
    w.record [i] = .ok ([⟨i, [], r⟩], w) :=
  record_cons_ok.mpr ⟨w, r, [], h, rfl, by simp [Draft.since]⟩

theorem record_regular (hsig : b.Admits sig.arity) (hw : b.aggregate.windowOnly = false)
    {argss : List (List Expr)} (hargs : ∀ args ∈ argss, args.length = sig.arity)
    (hfree : ∀ args ∈ argss, ∀ v ∈ args, v.slots = []) :
    ∃ w, (start config).record (b.regular sig argss) = .ok (b.regularEntries sig argss, w) := by
  refine record_of_create hsig ?_
  intro p t hp _ _ hcall ht
  let opened : Tally := { t with ready := true }
  have hopened : b.Call SlotId.mk opened := ⟨hcall.aggregate, hcall.fits⟩
  have hadds := record_each [opened] (.add 0) (b.addCode SlotId.mk) argss
    (fun args hmem _ _ => hopened.step_add hw rfl rfl
      (by rw [hargs args hmem, ← ht]) (hfree args hmem))
    (p := p.extend (b.resetCode SlotId.mk)) hp
  exact ⟨_, record_cons_extend (hcall.step_reset hw rfl)
    (record_append hadds (record_answer (hopened.step_result hw rfl rfl)))⟩

/-- The check passes the frame, and no fact of it reads a slot. -/
structure Usable (config : Config) (f : Frame) : Prop where
  accepted : Tally.checkFrame config f = .ok ()
  slotFree : f.SlotFree

theorem record_windowed (hsig : b.Admits sig.arity) (f₀ : Frame) (fs : List Frame) (g : Frame)
    (hf₀ : Usable config f₀) (hfs : ∀ f ∈ fs, Usable config f) (hg : Usable config g) :
    ∃ w, (start config).record (b.windowed sig f₀ fs g) =
      .ok (b.windowedEntries sig f₀ fs g, w) := by
  refine record_of_create hsig ?_
  intro p t hp _ _ hcall ht
  let opened : Tally := { t with ready := true, partitionSeen := true }
  have hopened : b.Call SlotId.mk opened := ⟨hcall.aggregate, hcall.fits⟩
  have hcolumns : ArgumentsFor opened.signature.arity (columnsAt sig.arity) := by
    rw [← ht]
    exact columnsAt_arguments _
  have hadds := record_each [opened] (fun f => .addRow 0 f (.columns sig.arity))
    (fun f => b.rowCode SlotId.mk (columnsAt sig.arity f.currentRow)) fs
    (fun f hmem q hq => hopened.step_addRow rfl rfl (by rw [hq, (hfs f hmem).accepted])
      (hfs f hmem).slotFree hcolumns)
    (p := p.extend (b.openCode SlotId.mk (.partition f₀))) hp
  refine ⟨_, record_cons_extend
    (hcall.step_openPartition rfl (by rw [hp, hf₀.accepted]) hf₀.slotFree)
    (record_append hadds (record_answer
      (hopened.step_resultAt rfl rfl ?_ hg.slotFree hcolumns)))⟩
  show Tally.checkFrame p.config g = _
  rw [hp, hg.accepted]

theorem usable_symbolic (config : Config) : Usable config .symbolic := by
  refine ⟨?_, Frame.symbolic_slotFree⟩
  unfold Tally.checkFrame
  split <;> rfl

end Builtin
end WindowFold
