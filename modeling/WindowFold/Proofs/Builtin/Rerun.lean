import WindowFold.Proofs.Builtin.Windowed
import WindowFold.Proofs.Workspace.Answers
import WindowFold.Proofs.Workspace.Initialised
import WindowFold.Session.Step

/-!
# A block of builtin functions can be run again

With the slot check on, a block made by phases of builtin calls and by binding their results does
not depend on what earlier runs have left behind: from any store it ends as it does from a fresh
one, with the same error or none, and after success with the same values in the slots of all calls
that it resets and in all locals that it binds (`rerun_eq_fresh`).

Two runs from unrelated stores are followed in step.  They agree on the slots of calls reset so
far and on locals bound so far (`Rerunnable`).  A reset sets all slots of its call to constants,
so the two agree on these as well from then on; everything else reads only slots and locals on
which they agree already.
-/

namespace WindowFold

/-! ## Runs that end alike -/

/-- The same result, and after success stores that agree. -/
structure Outcome.Alike (S : SlotId → Prop) (L : LocalId → Prop) (o o' : Outcome) : Prop where
  result : o.2 = o'.2
  store : o.2 = .ok () → o.1.Agree S L o'.1

section

variable {S S' : SlotId → Prop} {L L' : LocalId → Prop} {a b : Store} {o o' : Outcome}

theorem Store.Agree.mono (h : a.Agree S L b) (hs : ∀ s, S' s → S s) (hl : ∀ x, L' x → L x) :
    a.Agree S' L' b :=
  ⟨fun s h' => h.slots s (hs s h'), fun x h' => h.locals x (hl x h')⟩

theorem Store.Agree.insertSlot (h : a.Agree S L b) (s : SlotId) (v : Value) :
    (a.setSlot s v).Agree (fun t => S t ∨ t = s) L (b.setSlot s v) := by
  refine ⟨fun t ht => ?_, h.locals⟩
  simp only [setSlot_slots]
  by_cases hts : t = s
  · rw [if_pos hts, if_pos hts]
  · rw [if_neg hts, if_neg hts]
    exact h.slots t (ht.resolve_right hts)

theorem Store.Agree.insertLocal (h : a.Agree S L b) (x : LocalId) (v : Value) :
    (a.setLocal x v).Agree S (fun y => L y ∨ y = x) (b.setLocal x v) := by
  refine ⟨h.slots, fun y hy => ?_⟩
  simp only [setLocal_locals]
  by_cases hyx : y = x
  · rw [if_pos hyx, if_pos hyx]
  · rw [if_neg hyx, if_neg hyx]
    exact h.locals y (hy.resolve_right hyx)

namespace Outcome

theorem Agree.alike (h : o.Agree S L o') : o.Alike S L o' := ⟨h.result, fun _ => h.store⟩

theorem Alike.mono (h : o.Alike S L o') (hs : ∀ s, S' s → S s) (hl : ∀ x, L' x → L x) :
    o.Alike S' L' o' :=
  ⟨h.result, fun hok => (h.store hok).mono hs hl⟩

theorem Alike.andThen (h : o.Alike S L o') {k k' : Store → Outcome}
    (hk : ∀ a b, a.Agree S L b → (k a).Alike S' L' (k' b)) :
    (WindowFold.andThen o k).Alike S' L' (WindowFold.andThen o' k') := by
  obtain ⟨a, r⟩ := o
  obtain ⟨b, r'⟩ := o'
  obtain rfl : r = r' := h.result
  cases r with
  | error e => exact ⟨rfl, fun hok => by simp at hok⟩
  | ok _ => exact hk a b (h.store rfl)

end Outcome

/-- An assignment of a constant makes the two stores agree on one slot more. -/
theorem alike_assign_constant (env : Env) (h : a.Agree S L b) (s : SlotId) (l : Literal)
    {rest : List Stmt}
    (hrest : ∀ a b, a.Agree (fun t => S t ∨ t = s) L b →
      (Stmt.runAll env a rest).Alike S' L' (Stmt.runAll env b rest)) :
    (Stmt.runAll env a (.assign s (.literal l) :: rest)).Alike S' L'
      (Stmt.runAll env b (.assign s (.literal l) :: rest)) :=
  hrest _ _ (h.insertSlot s l.value)

end

namespace Builtin

variable {S : SlotId → Prop} {L : LocalId → Prop} {a a' : Store} {s : Nat → SlotId}

/-- A reset reads nothing and leaves no slot of its call as it was. -/
theorem resetCode_alike (b : Builtin) (env : Env) (h : a.Agree S L a') :
    (Stmt.runAll env a (b.resetCode s)).Alike (fun x => S x ∨ b.Own s x) L
      (Stmt.runAll env a' (b.resetCode s)) := by
  have done {S' : SlotId → Prop} (hs : ∀ x, S x ∨ b.Own s x → S' x) (c c' : Store)
      (hc : c.Agree S' L c') :
      (Stmt.runAll env c []).Alike (fun x => S x ∨ b.Own s x) L (Stmt.runAll env c' []) :=
    ⟨rfl, fun _ => hc.mono hs fun _ hx => hx⟩
  cases b with
  | count | sum | min | max =>
    refine alike_assign_constant env h (s 0) _ (done ?_)
    rintro x (hx | ⟨i, hi, rfl⟩)
    · exact .inl hx
    · rw [Nat.lt_one_iff.mp hi]
      exact .inr rfl
  | arrayAgg =>
    have hset := h.insertSlot (s 0) (.array [])
    refine done ?_ _ _ hset
    rintro x (hx | ⟨i, hi, rfl⟩)
    · exact .inl hx
    · rw [Nat.lt_one_iff.mp hi]
      exact .inr rfl
  | avg | firstValue | lastValue =>
    refine alike_assign_constant env h (s 0) _ fun c c' hc => ?_
    refine alike_assign_constant env hc (s 1) _ (done ?_)
    rintro x (hx | ⟨i, hi, rfl⟩)
    · exact .inl (.inl hx)
    · rcases Nat.le_one_iff_eq_zero_or_eq_one.mp (Nat.lt_succ_iff.mp hi) with rfl | rfl
      · exact .inl (.inr rfl)
      · exact .inr rfl
  | lag | lead | rowNumber =>
    refine done ?_ a a' h
    rintro x (hx | ⟨i, hi, _⟩)
    · exact hx
    · simp [size] at hi

end Builtin

/-! ## The invariant -/

/-- The function of a new call is a builtin one. -/
def Instruction.OfBuiltin : Instruction → Prop
  | .create _ agg => ∃ b : Builtin, agg = b.aggregate
  | _ => True

/-- The local has been bound. -/
def Bound (es : List Entry) (x : LocalId) : Prop := ∃ e ∈ es, ∃ y, e.reply = .bound y ∧ y.id = x

theorem Bound.snoc {es : List Entry} {e : Entry} {x : LocalId} (h : Bound (es ++ [e]) x) :
    Bound es x ∨ ∃ y, e.reply = .bound y ∧ y.id = x := by
  obtain ⟨r, hr, hx⟩ := h
  rw [List.mem_append, List.mem_singleton] at hr
  rcases hr with hr | rfl
  · exact .inl ⟨r, hr, hx⟩
  · exact .inr hx

namespace Workspace

variable {w w' : Workspace} {es : List Entry} {e : Entry} {t : Tally} {i : Instruction}

/-- The slot is of a call that has been reset. -/
def Live (es : List Entry) (w : Workspace) (s : SlotId) : Prop := ∃ u, w.Owns u s ∧ Opened es u

theorem Takes.live_cases {s : SlotId} (h : w.Takes e w') (hi : Initialises es w)
    (hs : Live (es ++ [e]) w' s) :
    Live es w s ∨ ∃ u, e.instruction.opens? = some u ∧ w.Owns u s := by
  obtain ⟨u, ⟨a', ha', hs⟩, x, hx, hu⟩ := hs
  have hold : ∃ a, (w.tallies.map Tally.accumulator)[u]? = some a := by
    rw [List.mem_append, List.mem_singleton] at hx
    rcases hx with hx | rfl
    · obtain ⟨a, ha, _⟩ := hi.covered x hx u hu
      exact ⟨a, ha⟩
    · obtain ⟨a, ha, _⟩ := h.assigns hi.checked hu
      exact ⟨a, ha⟩
  obtain ⟨a, ha⟩ := hold
  have hsame : a = a' := Option.some.inj ((h.accumulator ha).symm.trans ha')
  subst hsame
  rw [List.mem_append, List.mem_singleton] at hx
  rcases hx with hx | rfl
  · exact .inl ⟨u, ⟨a, ha, hs⟩, x, hx, hu⟩
  · exact .inr ⟨u, hu, a, ha, hs⟩

/-- What a builtin call emits to take in values or another state names no local. -/
theorem Updates.localsAll_eq_nil {b : Builtin} {o : Option Accumulator} {m : Emission Unit}
    {p : Pass} {ss : List Stmt} (h : w.Updates t i o m) (hb : t.aggregate = b.aggregate)
    (hi : i.InputsWithin (fun _ => True) (fun _ => False))
    (hm : Pass.emit m w.pass = .ok (ss, ()) p) : Stmt.localsAll ss = [] := by
  have hkeeps : m.Keeps Op.LocalFree fun _ => True := by
    cases h with
    | add _ _ =>
      rw [hb]
      exact b.add_keeps fun v hv => (hi v hv).locals_eq_nil
    | addRow _ ha =>
      rw [hb]
      exact b.addRow_keeps _ fun v hv =>
        (Site.window_within hi.2 (hi.1 .currentRow) ha v hv).locals_eq_nil
    | merge _ _ _ =>
      rw [hb]
      exact b.merge_keeps _
  obtain ⟨hperform, hemits⟩ := Pass.emit_ok hm
  exact hkeeps.localsAll_eq_nil (d := w.pass.draft) (by rw [hperform]; exact hemits.draft)

/-- What the text of the entries so far says about two runs of it. -/
structure Rerunnable (es : List Entry) (w : Workspace) : Prop where
  initialises : Initialises es w
  builtins : ∀ t ∈ w.tallies, ∃ (b : Builtin) (s : Nat → SlotId),
    t.aggregate = b.aggregate ∧ b.Lays t.site s
  /-- Values returned read no local. -/
  returned : ∀ e ∈ es, ∀ v, e.value? = some v → v.locals = []
  /-- From whatever stores, two runs end alike. -/
  alike : ∀ env a b, (Stmt.runAll env a (emittedBy es)).Alike (Live es w) (Bound es)
    (Stmt.runAll env b (emittedBy es))

namespace Rerunnable

theorem start {config : Config} (hc : config.checkSlots = true) :
    Rerunnable [] (Workspace.start config) where
  initialises := .start hc
  builtins := by simp [Workspace.start]
  returned := by simp
  alike := by
    intro env a b
    refine ⟨rfl, fun _ => ⟨?_, ?_⟩⟩
    · rintro s ⟨u, _, x, hx, _⟩
      simp at hx
    · rintro x ⟨e, he, _⟩
      simp at he

theorem builtin_of_tally (hi : Rerunnable es w) {u : Nat} (ht : w.tallies[u]? = some t) :
    ∃ (b : Builtin) (s : Nat → SlotId), t.aggregate = b.aggregate ∧ b.Lays t.site s :=
  hi.builtins t (List.mem_of_getElem? ht)

/-- The statements of one entry, from stores that agree on what is live and bound. -/
theorem emitted_alike (hi : Rerunnable es w) (h : w.Takes e w')
    (hcall : e.instruction.byCall = true)
    (hinputs : e.instruction.InputsWithin (fun _ => True) (fun _ => False))
    (hbind : ∀ v ∈ e.instruction.bound?, ∃ r ∈ es, r.value? = some v) (env : Env) {a b : Store}
    (hab : a.Agree (Live es w) (Bound es) b) :
    (Stmt.runAll env a e.emitted).Alike (Live (es ++ [e]) w') (Bound (es ++ [e]))
      (Stmt.runAll env b e.emitted) := by
  have hlive : ∀ s, Live (es ++ [e]) w' s →
      Live es w s ∨ ∃ u, e.instruction.opens? = some u ∧ w.Owns u s :=
    fun s hs => h.live_cases hi.initialises hs
  have htouched : ∀ s ∈ Stmt.touchedAll e.emitted,
      Live es w s ∨ ∃ u, e.instruction.opens? = some u := by
    intro s hs
    obtain ⟨u, ho, hu | hu⟩ := hi.initialises.touched_takes h hcall hbind hs
    · exact .inr ⟨u, hu⟩
    · exact .inl ⟨u, ho, hu⟩
  -- Without a reset or a binding the statements read and write only what the stores agree on.
  have quiet (hopens : e.instruction.opens? = none) (hreply : ∀ y, e.reply ≠ .bound y)
      (hlocals : Stmt.localsAll e.emitted = []) :
      (Stmt.runAll env a e.emitted).Alike (Live (es ++ [e]) w') (Bound (es ++ [e]))
        (Stmt.runAll env b e.emitted) := by
    refine (Stmt.runAll_agree env hab e.emitted ?_ (by simp [hlocals])).alike.mono ?_ ?_
    · intro s hs
      exact (htouched s hs).resolve_right (by simp [hopens])
    · intro s hs
      exact (hlive s hs).resolve_right (by simp [hopens])
    · intro x hx
      exact hx.snoc.resolve_right fun ⟨y, hy, _⟩ => hreply y hy
  cases h with
  | created _ => exact quiet rfl (by simp) rfl
  | updated _ ht _ hu hm _ =>
    obtain ⟨f, _, hb, _⟩ := hi.builtin_of_tally ht
    exact quiet hu.opens?_eq_none (by simp) (hu.localsAll_eq_nil hb hinputs hm)
  | yielded _ ht _ hy hm _ _ _ =>
    obtain ⟨f, _, hb, _⟩ := hi.builtin_of_tally ht
    obtain ⟨_, _, hnone, _⟩ := hy.answers hb hm
    exact quiet hy.opens?_eq_none (by simp) (by rw [hnone]; rfl)
  | @opened i u t ss p hopens ht hg hm _ _ =>
    obtain ⟨f, s, hb, hl⟩ := hi.builtin_of_tally ht
    obtain ⟨code, hgives, hresets⟩ := Builtin.opening_gives hb hl hg (by simp [hopens])
    obtain ⟨rfl, _⟩ := Pass.emitted_of_gives hgives hm
    rw [hresets.runAll, hresets.runAll]
    refine (f.resetCode_alike env hab).mono ?_ ?_
    · intro x hx
      rcases hlive x hx with hx | ⟨v, hv, ho⟩
      · exact .inl hx
      · obtain rfl : u = v := Option.some.inj (hopens.symm.trans hv)
        exact .inr (hl.owns_iff.mp ((owns_of_tally ht).mp ho))
    · intro x hx
      exact hx.snoc.resolve_right (by simp)
  | @bound name v x p _ =>
    obtain ⟨r, hr, hv⟩ := hbind v rfl
    have heval : v.eval env a = v.eval env b := by
      refine v.eval_agree env hab (hi.initialises.returned r hr v hv) ?_
      simp [hi.returned r hr v hv]
    rw [runAll_singleton, runAll_singleton, Stmt.run, Stmt.run, heval]
    cases v.eval env b with
    | error err => exact ⟨rfl, fun hok => by simp at hok⟩
    | ok value =>
      refine ⟨rfl, fun _ => (hab.insertLocal x.id value).mono ?_ ?_⟩
      · intro s hs
        exact (hlive s hs).resolve_right (by simp [Instruction.opens?])
      · intro y hy
        rcases hy.snoc with hy | ⟨z, hz, rfl⟩
        · exact .inl hy
        · cases hz
          exact .inr rfl
  | warmed => simp [Instruction.byCall] at hcall
  | emitted => simp [Instruction.byCall] at hcall

theorem builtins_takes (hi : Rerunnable es w) (h : w.Takes e w')
    (hcall : e.instruction.byCall = true) (hbuiltin : e.instruction.OfBuiltin) :
    ∀ t ∈ w'.tallies, ∃ (b : Builtin) (s : Nat → SlotId),
      t.aggregate = b.aggregate ∧ b.Lays t.site s := by
  intro t ht
  cases h with
  | created hc =>
    rw [List.mem_append, List.mem_singleton] at ht
    rcases ht with ht | rfl
    · exact hi.builtins t ht
    · obtain ⟨b, rfl⟩ := hbuiltin
      exact ⟨b, _, by rw [(Tally.create_ok.mp hc).1], Builtin.create_lays hc⟩
  | @opened i u t₀ ss p _ ht₀ _ _ _ _ =>
    rcases List.mem_or_eq_of_mem_set ht with ht | rfl
    · exact hi.builtins t ht
    · obtain ⟨b, s, hb, hl⟩ := hi.builtin_of_tally ht₀
      refine ⟨b, s, by rw [Tally.opened_aggregate, hb], ?_⟩
      rwa [(t₀.becomes_opened i).site]
  | updated => exact hi.builtins t ht
  | yielded => exact hi.builtins t ht
  | bound => exact hi.builtins t ht
  | warmed => simp [Instruction.byCall] at hcall
  | emitted => simp [Instruction.byCall] at hcall

theorem takes (hi : Rerunnable es w) (h : w.Takes e w') (hcall : e.instruction.byCall = true)
    (hbuiltin : e.instruction.OfBuiltin)
    (hinputs : e.instruction.InputsWithin (fun _ => True) (fun _ => False))
    (hbind : ∀ v ∈ e.instruction.bound?, ∃ r ∈ es, r.value? = some v) :
    Rerunnable (es ++ [e]) w' where
  initialises := hi.initialises.takes h hcall hbind
  builtins := hi.builtins_takes h hcall hbuiltin
  returned := by
    intro x hx v hv
    rw [List.mem_append, List.mem_singleton] at hx
    rcases hx with hx | rfl
    · exact hi.returned x hx v hv
    · cases h with
      | yielded _ ht _ hy hm _ _ _ =>
        obtain ⟨f, _, hb, _⟩ := hi.builtin_of_tally ht
        obtain rfl := Option.some.inj hv
        have hkeeps := hy.keeps hb (fun _ _ => trivial) hinputs
        exact (hkeeps.value 0 _ ((hy.answers hb hm).1 0)).locals_eq_nil
      | created | opened | updated | bound | warmed | emitted => simp [Entry.value?] at hv
  alike := by
    intro env a b
    rw [emittedBy_append, Stmt.runAll_append, Stmt.runAll_append]
    refine (hi.alike env a b).andThen fun a' b' hab => ?_
    simpa [emittedBy] using hi.emitted_alike h hcall hinputs hbind env hab

end Rerunnable

theorem record_rerunnable {config : Config} (hc : config.checkSlots = true)
    {is : List Instruction} (h : (start config).record is = .ok (es, w))
    (his : ∀ e ∈ es, e.instruction.byCall = true ∧ e.instruction.OfBuiltin ∧
      e.instruction.InputsWithin (fun _ => True) (fun _ => False))
    (hbinds : BindsResults [] es) : Rerunnable es w := by
  refine record_induction (P := fun es w => (∀ e ∈ es, e.instruction.byCall = true ∧
    e.instruction.OfBuiltin ∧ e.instruction.InputsWithin (fun _ => True) (fun _ => False)) →
    BindsResults [] es → Rerunnable es w) (fun _ _ => .start hc) ?_ h his hbinds
  intro es w e w' ih ht his hbinds
  obtain ⟨hbefore, hlast⟩ := bindsResults_snoc.mp hbinds
  have hi := ih (fun x hx => his x (List.mem_append_left _ hx)) hbefore
  obtain ⟨hcall, hbuiltin, hinputs⟩ := his e (by simp)
  exact hi.takes ht hcall hbuiltin hinputs hlast

/-! ## Frames one after another -/

/-- What runs under one frame after another have left behind, whether they failed or not. -/
def leftBehind (rows : List (List Value)) (ss : List Stmt) (frames : List (Option FrameFacts)) :
    Store :=
  frames.foldl (fun st frame => (Stmt.runAll ⟨rows, frame⟩ st ss).1) .fresh

/-- The report on the last of several frames is that of a run from what the others have left. -/
theorem runFrames_concat (ss : List Stmt) (rows : List (List Value)) (calls : List Accumulator)
    (locals : List Local) (eval : List Expr) (frames : List (Option FrameFacts))
    (frame : Option FrameFacts) :
    Session.runFrames ss rows calls locals eval .fresh (frames ++ [frame]) =
      Session.runFrames ss rows calls locals eval .fresh frames ++
        Session.runFrames ss rows calls locals eval (leftBehind rows ss frames) [frame] := by
  have key : ∀ st, Session.runFrames ss rows calls locals eval st (frames ++ [frame]) =
      Session.runFrames ss rows calls locals eval st frames ++
        Session.runFrames ss rows calls locals eval
          (frames.foldl (fun st frame => (Stmt.runAll ⟨rows, frame⟩ st ss).1) st) [frame] := by
    induction frames with
    | nil => intro st; rfl
    | cons f rest ih =>
      intro st
      cases hrun : Stmt.runAll ⟨rows, f⟩ st ss with
      | mk st' o => simp [Session.runFrames, hrun, ih]
  exact key .fresh

/-- From any store the block ends as from a fresh one: with the same error or none, and after
success with the same values in the slots of the calls it resets and in the locals it binds.  So
a run under a frame says the same whatever frames came before it. -/
theorem rerun_eq_fresh {config : Config} (hc : config.checkSlots = true) {is : List Instruction}
    (h : (start config).record is = .ok (es, w))
    (his : ∀ i ∈ is, i.byCall = true ∧ i.OfBuiltin ∧
      i.InputsWithin (fun _ => True) (fun _ => False))
    (hbinds : BindsResults [] es) :
    (∀ env st,
      let again := Stmt.runAll env st w.pass.draft.stmts
      let first := Stmt.runAll env .fresh w.pass.draft.stmts
      again.2 = first.2 ∧ (first.2 = .ok () →
        (∀ u s, Opened es u → w.Owns u s → again.1.slots s = first.1.slots s) ∧
        ∀ e ∈ es, ∀ x, e.reply = .bound x → again.1.locals x.id = first.1.locals x.id)) ∧
    ∀ rows calls locals,
      (∀ a ∈ calls, ∃ u, Opened es u ∧ (w.tallies.map Tally.accumulator)[u]? = some a) →
      (∀ x ∈ locals, ∃ e ∈ es, e.reply = .bound x) →
      ∀ frames frame, ∃ before last only,
        Session.runFrames w.pass.draft.stmts rows calls locals [] .fresh (frames ++ [frame]) =
          before ++ [last] ∧
        Session.runFrames w.pass.draft.stmts rows calls locals [] .fresh [frame] = [only] ∧
        last.outcome = only.outcome ∧ (only.outcome = .ok () → last = only) := by
  have his' : ∀ e ∈ es, e.instruction.byCall = true ∧ e.instruction.OfBuiltin ∧
      e.instruction.InputsWithin (fun _ => True) (fun _ => False) := by
    intro e he
    apply his
    rw [← record_instructions h]
    exact List.mem_map_of_mem he
  have hi := record_rerunnable hc h his' hbinds
  have halike (env : Env) (st : Store) : (Stmt.runAll env st w.pass.draft.stmts).Alike
      (Live es w) (Bound es) (Stmt.runAll env .fresh w.pass.draft.stmts) := by
    rw [record_stmts h]
    exact hi.alike env st .fresh
  constructor
  · intro env st again first
    obtain ⟨hresult, hstore⟩ := halike env st
    refine ⟨hresult, fun hok => ?_⟩
    have hagree := hstore (hresult.trans hok)
    refine ⟨fun u s hu ho => hagree.slots s ⟨u, ho, hu⟩, fun e he x hx => ?_⟩
    exact hagree.locals x.id ⟨e, he, x, hx, rfl⟩
  · intro rows calls locals hcalls hlocals frames frame
    obtain ⟨hresult, hstore⟩ := halike ⟨rows, frame⟩ (leftBehind rows w.pass.draft.stmts frames)
    rw [runFrames_concat]
    refine ⟨_, _, _, rfl, rfl, hresult, fun hok => ?_⟩
    have hagree := hstore (hresult.trans hok)
    have hslots : ∀ a ∈ calls, ∀ s ∈ a.slots, Live es w s.id := by
      intro a ha s hs
      obtain ⟨u, hu, hacc⟩ := hcalls a ha
      exact ⟨u, ⟨a, hacc, Accumulator.owns_iff.mpr (List.mem_map_of_mem hs)⟩, hu⟩
    have hbound : ∀ x ∈ locals, Bound es x.id := by
      intro x hx
      obtain ⟨e, he, hreply⟩ := hlocals x hx
      exact ⟨e, he, x, hreply, rfl⟩
    simp only [RunReport.mk.injEq, List.map_nil, and_true]
    refine ⟨hresult, ?_, ?_⟩
    · refine List.map_congr_left fun a ha => List.map_congr_left fun s hs => ?_
      exact hagree.slots s.id (hslots a ha s hs)
    · exact List.map_congr_left fun x hx => hagree.locals x.id (hbound x hx)

/-- The first of two numbers, bound. -/
def firstBound : List Entry :=
  let first : Expr := .slot ⟨0⟩
  [⟨.create (.of "first_value" [.int] .int true false) .firstValue, [], .done⟩,
    ⟨.reset 0, Builtin.firstValue.resetCode SlotId.mk, .done⟩,
    ⟨.add 0 [.int 5], Builtin.firstValue.addValueCode SlotId.mk (.int 5), .done⟩,
    ⟨.add 0 [.int 7], Builtin.firstValue.addValueCode SlotId.mk (.int 7), .done⟩,
    ⟨.result 0, [], .value first⟩,
    ⟨.bind "f" first, [.declare ⟨0⟩ "agg_f_0" first], .bound ⟨⟨0⟩, "agg_f_0"⟩⟩]

/-- A value seen in an earlier run does not keep the first one out. -/
theorem first_bound_rerun : ∃ w, (start (.strict "agg")).record
      (firstBound.map Entry.instruction) = .ok (firstBound, w) ∧
    ∀ st, (Stmt.runAll ⟨[], none⟩ st w.pass.draft.stmts).2 = .ok () ∧
      (Stmt.runAll ⟨[], none⟩ st w.pass.draft.stmts).1.locals ⟨0⟩ = some (.int 5) := by
  have h : (start (.strict "agg")).record (firstBound.map Entry.instruction) =
    .ok (firstBound, _) := rfl
  have his : ∀ i ∈ firstBound.map Entry.instruction, i.byCall = true ∧ i.OfBuiltin ∧
      i.InputsWithin (fun _ => True) (fun _ => False) := by
    have hint (n : Int) : (Expr.int n).Within (fun _ => True) (fun _ => False) := .literal _
    simp only [firstBound, List.map_cons, List.map_nil, List.forall_mem_cons,
      Instruction.byCall, Instruction.OfBuiltin, Instruction.InputsWithin, true_and, and_true]
    exact ⟨⟨.firstValue, rfl⟩, ⟨hint 5, by simp⟩, ⟨hint 7, by simp⟩, by simp⟩
  have hbinds : BindsResults [] firstBound := by
    simp [firstBound, BindsResults, Instruction.bound?, Entry.value?]
  refine ⟨_, h, fun st => ?_⟩
  obtain ⟨hresult, hsame⟩ := (rerun_eq_fresh rfl h his hbinds).1 ⟨[], none⟩ st
  have hfirst : ∃ first, Stmt.runAll ⟨[], none⟩ .fresh (emittedBy firstBound) =
      (first, .ok ()) ∧ first.locals ⟨0⟩ = some (.int 5) := ⟨_, rfl, rfl⟩
  obtain ⟨first, hrun, hfive⟩ := hfirst
  rw [← record_stmts h] at hrun
  rw [hrun] at hresult hsame
  have hlocal := (hsame rfl).2 _ (List.getLast_mem (by simp [firstBound])) _ rfl
  exact ⟨hresult, hlocal.trans hfive⟩

end Workspace
end WindowFold
