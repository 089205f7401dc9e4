import WindowFold.Proofs.Builtin.Codes
import WindowFold.Proofs.Builtin.Windowed
import WindowFold.Proofs.Workspace.Initialised

/-!
# Slots and results keep their types

Once a builtin call has been reset, each of its slots holds a value of its type at every point of
every run of the block, from whatever store the run starts, and what the call returns evaluates
to a value of the type it was resolved to (`types_kept`).  The values that are added have to be
of the types of the arguments, and over a window those of the partition.

The invariant `KeepsTypes` is carried along a record.  For one entry more, the slots of the call
whose phase it is keep their types by the code of the function, and those of all other calls are
not written (`Codes.keeps`); a reset leaves values of the types behind (`Codes.opens`).
-/

namespace WindowFold

/-- The slots of the call hold values of the types they were made for. -/
def Tally.Typed (t : Tally) (st : Store) : Prop :=
  ∀ x ∈ t.accumulator.slots, ∃ v, st.slots x.id = some v ∧ v.Conforms x.type

/-- The call whose phase over a window it is. -/
def Instruction.windowed? : Instruction → Option Nat
  | .addRow u _ _ | .resultAt u _ _ => some u
  | _ => none

theorem Instruction.windowed?_of_asks? {i : Instruction} {u : Nat} (h : i.asks? = some u)
    (hw : i.windowed? ≠ none) : i.windowed? = some u := by
  cases i <;> simp_all [asks?, windowed?]

/-- Slots that are not written stay as they are. -/
theorem Tally.Typed.of_not_written {t : Tally} {env : Env} {st : Store} {ss : List Stmt}
    (h : t.Typed st) (hfree : ∀ x ∈ t.accumulator.slots, x.id ∉ Stmt.writtenAll ss) :
    Throughout env st ss t.Typed := by
  intro p hp x hx
  rw [hp.slots_of_not_mem (hfree x hx)]
  exact h x hx

theorem Builtin.Resolved.typed_iff {b : Builtin} {s : Nat → SlotId} {t : Tally}
    (h : b.Resolved s t) {st : Store} :
    t.Typed st ↔ st.Typed s (t.accumulator.slots.map Slot.type) := by
  have hid {i : Nat} {x : Slot} (hx : t.accumulator.slots[i]? = some x) : x.id = s i := by
    have hids : t.accumulator.slots.map Slot.id = (List.range b.size).map s := h.fits.slots
    have hi := congrArg (·[i]?) hids
    simp only [List.getElem?_map, hx, Option.map_some] at hi
    obtain ⟨j, hj, hs⟩ := Option.map_eq_some_iff.mp hi.symm
    obtain ⟨_, rfl⟩ := List.getElem?_eq_some_iff.mp hj
    simpa using hs.symm
  constructor
  · intro hst i T hT
    rw [List.getElem?_map, Option.map_eq_some_iff] at hT
    obtain ⟨x, hx, rfl⟩ := hT
    rw [← hid hx]
    exact hst x (List.mem_of_getElem? hx)
  · intro hst x hx
    obtain ⟨i, hi⟩ := List.getElem?_of_mem hx
    rw [hid hi]
    exact hst i x.type (by rw [List.getElem?_map, hi, Option.map_some])

theorem Tally.Becomes.typed {t t' : Tally} (h : t.Becomes t') {st : Store} :
    t'.Typed st ↔ t.Typed st := by
  rw [Tally.Typed, (Site.mk.inj h.site).2]
  rfl

/-- What a call answers is of the type it was resolved to. -/
theorem Builtin.Resolved.answer_hasType {b : Builtin} {s : Nat → SlotId} {t : Tally}
    {i : Instruction} {v : Expr} {env : Env} {st : Store} (h : b.Resolved s t)
    (hv : b.Answer s t.signature.arity i v) (hst : t.Typed st)
    (hcurrent : ∀ facts ∈ env.frame, ∀ c ∈ facts.currentRow, IsWord c)
    (hcolumns : i.windowed? ≠ none → env.Columns t.signature.argTypes) :
    v.HasType env st t.signature.returns := by
  cases hv with
  | regular hw => exact h.types.resultExpr_hasType (h.typed_iff.mp hst) hw
  | windowed hf =>
    exact h.types.windowExpr_hasType (h.typed_iff.mp hst) hf hcurrent
      (hcolumns (Option.some_ne_none _))

namespace Workspace

open Builtin

variable {w w' : Workspace} {es : List Entry} {e : Entry} {env : Env} {st st₀ : Store}

/-- The current row is a word, and the columns of the partition are of the types of every call
that is driven over a window. -/
structure Suits (w : Workspace) (es : List Entry) (env : Env) : Prop where
  current : ∀ facts ∈ env.frame, ∀ c ∈ facts.currentRow, IsWord c
  columns : ∀ e ∈ es, ∀ u t, e.instruction.windowed? = some u → w.tallies[u]? = some t →
    env.Columns t.signature.argTypes

/-- Wherever the run from this store comes to an add, the arguments are of the types of the
call. -/
def Conforming (w : Workspace) (es : List Entry) (env : Env) (st₀ : Store) : Prop :=
  ∀ before e after st, es = before ++ e :: after →
    Stmt.runAll env st₀ (emittedBy before) = (st, .ok ()) →
    ∀ u args t, e.instruction = .add u args → w.tallies[u]? = some t →
      HaveTypes env st args t.signature.argTypes

/-! ## One entry -/

/-- What an entry is given: columns and arguments of the types of its call, and calls that are
ready and keep their types, as one of them may be merged in. -/
structure Supplied (w : Workspace) (e : Entry) (env : Env) (st : Store) : Prop where
  columns : ∀ u t, e.instruction.windowed? = some u → w.tallies[u]? = some t →
    env.Columns t.signature.argTypes
  arguments : ∀ u args t, e.instruction = .add u args → w.tallies[u]? = some t →
    HaveTypes env st args t.signature.argTypes
  merged : ∀ (v : Nat) (t : Tally), w.tallies[v]? = some t → t.ready = true → t.Typed st

/-- A call keeps its types at every point of a phase of its own. -/
theorem Codes.own_keeps (h : w.Codes e) (hplain : e.instruction.Plain) (hapart : w.Apart)
    (hgiven : w.Supplied e env st) {u : Nat} {t : Tally} (hu : e.instruction.call? = some u)
    (ht : w.tallies[u]? = some t) (hst : t.Typed st) : Throughout env st e.emitted t.Typed := by
  have same {v : Nat} {t₀ : Tally} (hv : some v = some u) (ht₀ : w.tallies[v]? = some t₀) :
      v = u ∧ t₀ = t := by
    obtain rfl := Option.some.inj hv
    exact ⟨rfl, Option.some.inj (ht₀.symm.trans ht)⟩
  have keeps {b : Builtin} {s : Nat → SlotId} {ss : List Stmt} (hb : b.Resolved s t)
      (hss : Throughout env st ss (·.Typed s (t.accumulator.slots.map Slot.type))) :
      Throughout env st ss t.Typed := fun p hp => hb.typed_iff.mpr (hss p hp)
  cases h with
  | quiet _ hnone => exact hst.of_not_written fun x _ => by simp [hnone]
  | resets hi ht₀ hb hss =>
    obtain ⟨rfl, rfl⟩ := same ((Instruction.call?_of_opens? hi).symm.trans hu) ht₀
    exact keeps hb (hb.types.resets_keeps hb.fits.distinct (hb.typed_iff.mp hst) hss)
  | adds ht₀ hb =>
    obtain ⟨rfl, rfl⟩ := same hu ht₀
    exact keeps hb (hb.types.addCode_keeps hb.fits.distinct (hb.typed_iff.mp hst)
      (hgiven.arguments _ _ _ rfl ht))
  | addsRow ht₀ hb hargs =>
    obtain ⟨rfl, rfl⟩ := same hu ht₀
    obtain ⟨_, n, rfl⟩ := hplain
    rw [columns_told hargs]
    exact keeps hb (hb.types.rowCode_keeps hb.fits.distinct (hb.typed_iff.mp hst)
      (columnsAt_haveTypes (hgiven.columns _ _ rfl ht) _))
  | @merges v' v _ t' _ b s s' ht₀ ht' hr hb hb' hsig =>
    obtain ⟨rfl, rfl⟩ := same hu ht₀
    have hst' := hb'.typed_iff.mp (hgiven.merged v t' ht' hr)
    rw [(hb.same hb' hsig).2] at hst'
    refine keeps hb (hb.types.mergeCode_keeps hb.fits.distinct ?_ (hb.typed_iff.mp hst) hst')
    intro i hi j hj hij
    -- Calls that share a slot are the same call.
    have hu : w.Owns v' (s i) := (owns_of_tally ht).mpr (hb.fits.lays.owns_iff.mpr ⟨i, hi, rfl⟩)
    have hv : w.Owns v (s i) :=
      (owns_of_tally ht').mpr (hb'.fits.lays.owns_iff.mpr ⟨j, hj, hij⟩)
    obtain rfl := hapart.unique _ _ _ hu hv
    obtain rfl := Option.some.inj (ht.symm.trans ht')
    have hlays := hb.fits.slots.symm.trans hb'.fits.slots
    have hsj : s j = s' j := by
      simpa [hj] using congrArg (·[j]?) hlays
    exact hb.fits.distinct (hij.trans hsj.symm)

/-- A call keeps its types at every point of an entry: if the phase is not its own, because it is
left alone. -/
theorem Codes.keeps (h : w.Codes e) (hplain : e.instruction.Plain) (hapart : w.Apart)
    (hgiven : w.Supplied e env st) {u : Nat} {t : Tally} (ht : w.tallies[u]? = some t)
    (hst : t.Typed st) : Throughout env st e.emitted t.Typed := by
  by_cases hu : e.instruction.call? = some u
  · exact h.own_keeps hplain hapart hgiven hu ht hst
  · refine hst.of_not_written fun x hx hwritten => hu ?_
    obtain ⟨v, hv, ho⟩ := h.written hwritten
    have hown : w.Owns u x.id :=
      (owns_of_tally ht).mpr (Accumulator.owns_iff.mpr (List.mem_map_of_mem hx))
    rw [hv, hapart.unique v u x.id ho hown]

/-- A reset leaves values of the types of its call. -/
theorem Codes.opens (h : w.Codes e) {u : Nat} {t : Tally} (hu : e.instruction.opens? = some u)
    (ht : w.tallies[u]? = some t) {st' : Store}
    (hrun : Stmt.runAll env st e.emitted = (st', .ok ())) : t.Typed st' := by
  cases h with
  | quiet hi _ => simp [hi] at hu
  | adds => simp [Instruction.opens?] at hu
  | addsRow => simp [Instruction.opens?] at hu
  | merges => simp [Instruction.opens?] at hu
  | @resets i v t₀ ss r b s hi ht₀ hb hss =>
    obtain rfl : v = u := Option.some.inj (hi.symm.trans hu)
    obtain rfl : t₀ = t := Option.some.inj (ht₀.symm.trans ht)
    obtain ⟨st₁, hrun₁, htyped⟩ := hb.types.resetCode_typed hb.fits.distinct env st
    rw [← hss.runAll, hrun] at hrun₁
    obtain ⟨rfl, _⟩ := Prod.mk.inj hrun₁
    exact hb.typed_iff.mpr htyped

/-! ## Records -/

/-- What a later call is asked for, an earlier state of it was. -/
theorem Suits.before (h : w.Takes e w') (hs : w'.Suits (es ++ [e]) env) : w.Suits es env where
  current := hs.current
  columns := by
    intro x hx u t hu ht
    obtain ⟨t', ht', hbecomes⟩ := h.becomes ht
    rw [← (Site.mk.inj hbecomes.site).1]
    exact hs.columns x (List.mem_append_left _ hx) u t' hu ht'

theorem Conforming.before (h : w.Takes e w') (hc : w'.Conforming (es ++ [e]) env st₀) :
    w.Conforming es env st₀ := by
  intro before x after st hes hrun u args t hx ht
  obtain ⟨t', ht', hbecomes⟩ := h.becomes ht
  rw [← (Site.mk.inj hbecomes.site).1]
  exact hc before x (after ++ [e]) st (by simp [hes]) hrun u args t' hx ht'

/-- What the entries so far say about types. -/
structure KeepsTypes (es : List Entry) (w : Workspace) : Prop where
  apart : w.Apart
  resolved : w.AllResolved
  /-- A call that is ready has been reset, and a call that has been reset is there. -/
  ready : ∀ (u : Nat) (t : Tally), w.tallies[u]? = some t → t.ready = true → Opened es u
  known : ∀ u, Opened es u → ∃ t, w.tallies[u]? = some t
  /-- Values returned are of the type of the result. -/
  returned : ∀ e ∈ es, ∀ u v, e.instruction.asks? = some u → e.reply = .value v →
    ∃ t, w.tallies[u]? = some t ∧ ∀ env, w.Suits es env → ∀ p, t.Typed p →
      v.HasType env p t.signature.returns
  /-- Calls that have been reset keep their types in what comes after. -/
  kept : ∀ env st₀, w.Suits es env → w.Conforming es env st₀ →
    ∀ before after st, es = before ++ after →
      Stmt.runAll env st₀ (emittedBy before) = (st, .ok ()) →
      ∀ (u : Nat) (t : Tally), w.tallies[u]? = some t → Opened before u →
        Throughout env st (emittedBy after) t.Typed

namespace KeepsTypes

theorem start (config : Config) : KeepsTypes [] (Workspace.start config) where
  apart := start_apart config
  resolved := by
    intro u t ht
    simp [Workspace.start] at ht
  ready := by
    intro u t ht
    simp [Workspace.start] at ht
  known := by
    rintro u ⟨e, he, _⟩
    simp at he
  returned := by simp
  kept := by
    intro env st₀ _ _ before after st hes _ u t ht
    simp [Workspace.start] at ht

/-- A call that has been reset by now was there before the last entry. -/
theorem there (hi : KeepsTypes es w) (h : w.Takes e w') {u : Nat} (hu : Opened (es ++ [e]) u) :
    ∃ t, w.tallies[u]? = some t := by
  obtain ⟨x, hx, hopens⟩ := hu
  rw [List.mem_append, List.mem_singleton] at hx
  rcases hx with hx | rfl
  · exact hi.known u ⟨x, hx, hopens⟩
  · exact h.exists_tally (Instruction.call?_of_opens? hopens)

theorem typed (hi : KeepsTypes es w) (hs : w.Suits es env) (hc : w.Conforming es env st₀)
    (hrun : Stmt.runAll env st₀ (emittedBy es) = (st, .ok ())) {u : Nat} {t : Tally}
    (ht : w.tallies[u]? = some t) (hu : Opened es u) : t.Typed st :=
  hi.kept env st₀ hs hc es [] st (List.append_nil es).symm hrun u t ht hu st .here

/-- The next entry is given what it needs. -/
theorem supplied (hi : KeepsTypes es w) (h : w.Takes e w') (hs : w'.Suits (es ++ [e]) env)
    (hc : w'.Conforming (es ++ [e]) env st₀)
    (hrun : Stmt.runAll env st₀ (emittedBy es) = (st, .ok ())) : w.Supplied e env st where
  columns := by
    intro u t hu ht
    obtain ⟨t', ht', hbecomes⟩ := h.becomes ht
    rw [← (Site.mk.inj hbecomes.site).1]
    exact hs.columns e (by simp) u t' hu ht'
  arguments := by
    intro u args t hu ht
    obtain ⟨t', ht', hbecomes⟩ := h.becomes ht
    rw [← (Site.mk.inj hbecomes.site).1]
    exact hc es e [] st rfl hrun u args t' hu ht'
  merged := fun v t ht hr => hi.typed (hs.before h) (hc.before h) hrun ht (hi.ready v t ht hr)

/-- What the next entry does to calls: those reset before keep their types throughout, and one
that it resets has them in the end. -/
theorem entry (hi : KeepsTypes es w) (h : w.Takes e w') (hplain : e.instruction.Plain)
    (hs : w'.Suits (es ++ [e]) env) (hc : w'.Conforming (es ++ [e]) env st₀)
    (hrun : Stmt.runAll env st₀ (emittedBy es) = (st, .ok ())) {u : Nat} {t : Tally}
    (ht : w.tallies[u]? = some t) :
    (Opened es u → Throughout env st e.emitted t.Typed) ∧
      ∀ st', Opened (es ++ [e]) u → Stmt.runAll env st e.emitted = (st', .ok ()) →
        t.Typed st' := by
  have hcodes := h.codes hi.resolved hplain.byCall
  have hkeeps (hu : Opened es u) : Throughout env st e.emitted t.Typed :=
    hcodes.keeps hplain hi.apart (hi.supplied h hs hc hrun) ht
      (hi.typed (hs.before h) (hc.before h) hrun ht hu)
  refine ⟨hkeeps, ?_⟩
  rintro st' ⟨x, hx, hopens⟩ hend
  rw [List.mem_append, List.mem_singleton] at hx
  rcases hx with hx | rfl
  · have hreached := runAll_reaches env st e.emitted
    rw [hend] at hreached
    exact hkeeps ⟨x, hx, hopens⟩ st' hreached
  · exact hcodes.opens hopens ht hend

theorem takes (hi : KeepsTypes es w) (h : w.Takes e w') (hplain : e.instruction.Plain) :
    KeepsTypes (es ++ [e]) w' where
  apart := h.apart hi.apart
  resolved := hi.resolved.takes h hplain.named
  ready := by
    intro u t ht hr
    rcases h.ready hplain.byCall ht hr with hopens | ⟨t₀, ht₀, hr₀⟩
    · exact ⟨e, by simp, hopens⟩
    · exact (hi.ready u t₀ ht₀ hr₀).append [e]
  known := by
    intro u hu
    obtain ⟨t, ht⟩ := hi.there h hu
    obtain ⟨t', ht', _⟩ := h.becomes ht
    exact ⟨t', ht'⟩
  returned := by
    intro x hx u v hu hv
    have hold : ∃ t, w.tallies[u]? = some t ∧ ∀ env, w'.Suits (es ++ [e]) env → ∀ p, t.Typed p →
        v.HasType env p t.signature.returns := by
      rw [List.mem_append, List.mem_singleton] at hx
      rcases hx with hx | rfl
      · obtain ⟨t, ht, hreturned⟩ := hi.returned x hx u v hu hv
        exact ⟨t, ht, fun env hs => hreturned env (hs.before h)⟩
      · obtain ⟨t, b, s, ht, hb, hanswer⟩ := h.answered hi.resolved hplain hu hv
        refine ⟨t, ht, fun env hs p hp => hb.answer_hasType hanswer hp hs.current ?_⟩
        intro hwindowed
        obtain ⟨t', ht', hbecomes⟩ := h.becomes ht
        rw [← (Site.mk.inj hbecomes.site).1]
        exact hs.columns x (by simp) u t' (Instruction.windowed?_of_asks? hu hwindowed) ht'
    obtain ⟨t, ht, hreturned⟩ := hold
    obtain ⟨t', ht', hbecomes⟩ := h.becomes ht
    refine ⟨t', ht', fun env hs p hp => ?_⟩
    rw [(Site.mk.inj hbecomes.site).1]
    exact hreturned env hs p (hbecomes.typed.mp hp)
  kept := by
    intro env st₀ hs hc before after st hes hrun u t' ht' hu p hp
    have hopened : Opened (es ++ [e]) u := by
      rw [hes]
      exact hu.append after
    obtain ⟨t, ht⟩ := hi.there h hopened
    obtain ⟨t₁, ht₁, hbecomes⟩ := h.becomes ht
    obtain rfl : t₁ = t' := Option.some.inj (ht₁.symm.trans ht')
    refine hbecomes.typed.mpr ?_
    rcases List.eq_nil_or_concat after with rfl | ⟨after', x, rfl⟩
    · -- At the end of the run, the last entry may have been the reset.
      obtain rfl : es ++ [e] = before := hes.trans (List.append_nil before)
      obtain rfl : p = st := by
        cases hp
        rfl
      rw [emittedBy_append, Stmt.runAll_append] at hrun
      obtain ⟨st₁, hrun, hlast⟩ := andThen_eq_ok hrun
      rw [emittedBy, List.flatMap_singleton] at hlast
      exact (hi.entry h hplain hs hc hrun ht).2 p hopened hlast
    · rw [List.concat_eq_append, ← List.append_assoc] at hes
      obtain ⟨hbefore, hx⟩ := List.append_inj' hes rfl
      obtain rfl := List.singleton_inj.mp hx
      rw [List.concat_eq_append, emittedBy_append] at hp
      rcases hp.append_cases with hp | ⟨st₁, hafter, hp⟩
      · exact hi.kept env st₀ (hs.before h) (hc.before h) before after' st hbefore hrun u
          t ht hu p hp
      · have hend : Stmt.runAll env st₀ (emittedBy es) = (st₁, .ok ()) := by
          rw [hbefore, emittedBy_append, Stmt.runAll_append, hrun, andThen_ok, hafter]
        rw [emittedBy, List.flatMap_singleton] at hp
        refine (hi.entry h hplain hs hc hend ht).1 ?_ p hp
        rw [hbefore]
        exact hu.append after'

end KeepsTypes

variable {config : Config} {is : List Instruction}

theorem record_keepsTypes (h : (start config).record is = .ok (es, w))
    (hplain : ∀ i ∈ is, i.Plain) : KeepsTypes es w :=
  record_induction_of h hplain (.start config) fun _ _ _ _ hi htakes hplain =>
    hi.takes htakes hplain

/-- Every call of the record has the signature it was resolved to. -/
theorem record_resolved (h : (start config).record is = .ok (es, w))
    (hplain : ∀ i ∈ is, i.Plain) {u : Nat} {t : Tally} (ht : w.tallies[u]? = some t) :
    ∃ name types distinct, (Registry.builtin.map Builtin.aggregate).resolve name types distinct =
      .ok (t.signature, t.aggregate) :=
  record_named h (fun i hi => (hplain i hi).named) ht

/-- From the end of the first reset of a call on, at every point of a run from whatever store,
the slots of the call hold values of the types of its state, and what it returns evaluates, in
any such environment, to values of the type it was resolved to. -/
theorem types_kept (h : (start config).record is = .ok (es, w)) (hplain : ∀ i ∈ is, i.Plain)
    (hs : w.Suits es env) (hc : w.Conforming es env st₀) {before after : List Entry}
    (hes : es = before ++ after)
    (hrun : Stmt.runAll env st₀ (emittedBy before) = (st, .ok ())) {u : Nat} {t : Tally}
    (ht : w.tallies[u]? = some t) (hu : Opened before u) :
    (∃ name types distinct, (Registry.builtin.map Builtin.aggregate).resolve name types distinct =
      .ok (t.signature, t.aggregate)) ∧
    t.accumulator.slots.map Slot.type = t.aggregate.layout t.signature ∧
    ∀ p, Reaches env st (emittedBy after) p →
      (∀ x ∈ t.accumulator.slots, ∃ v, p.slots x.id = some v ∧ v.Conforms x.type) ∧
      ∀ e ∈ es, ∀ v, e.instruction.asks? = some u → e.reply = .value v →
        ∀ env', w.Suits es env' → v.HasType env' p t.signature.returns := by
  have hi := record_keepsTypes h hplain
  obtain ⟨b, s, hb⟩ := hi.resolved u t ht
  refine ⟨record_resolved h hplain ht, hb.layout, fun p hp => ?_⟩
  have htyped := hi.kept env st₀ hs hc before after st hes hrun u t ht hu p hp
  refine ⟨htyped, ?_⟩
  intro e he v hasks hv env' hs'
  obtain ⟨t₁, ht₁, hreturned⟩ := hi.returned e he u v hasks hv
  obtain rfl : t₁ = t := Option.some.inj (ht₁.symm.trans ht)
  exact hreturned env' hs' p htyped

/-- The mean of one number. -/
def meanOfOne : List Entry :=
  [⟨.create (.of "avg" [.int] .float true false) .avg, [], .done⟩,
    ⟨.reset 0, Builtin.avg.resetCode SlotId.mk, .done⟩,
    ⟨.add 0 [.int 5], Builtin.avg.addValueCode SlotId.mk (.int 5), .done⟩,
    ⟨.result 0, [], .value (Builtin.avg.resultExpr SlotId.mk)⟩]

/-- Wherever a run of it stops, the total and the mean are doubles or NULL. -/
theorem mean_of_one_typed : ∃ w, (start (.strict "agg")).record
      (meanOfOne.map Entry.instruction) = .ok (meanOfOne, w) ∧
    ∀ st₀ p, (Stmt.runAll ⟨[], none⟩ st₀ w.pass.draft.stmts).1 = p →
      (∃ total, p.slots ⟨0⟩ = some total ∧ total.Conforms .float) ∧
        (Builtin.avg.resultExpr SlotId.mk).HasType ⟨[], none⟩ p .float := by
  have h : ∃ w t, (start (.strict "agg")).record (meanOfOne.map Entry.instruction) =
        .ok (meanOfOne, w) ∧ w.tallies[0]? = some t ∧
      t.accumulator.slots = [⟨⟨0⟩, .float⟩, ⟨⟨1⟩, .int⟩] ∧ t.signature.returns = .float ∧
      t.signature.argTypes = [.int] :=
    ⟨_, _, rfl, rfl, rfl, rfl, rfl⟩
  obtain ⟨w, t, hrecord, ht, hslots, hreturns, hargs⟩ := h
  refine ⟨w, hrecord, fun st₀ p hp => ?_⟩
  have hplain : ∀ i ∈ meanOfOne.map Entry.instruction, i.Plain := by
    have htyping : Builtin.avg.aggregate.typing [.int] = .ok (.float, true) := rfl
    have hresolved := resolve_name htyping false
    simp only [meanOfOne, List.map_cons, List.map_nil, List.forall_mem_cons, Instruction.Plain,
      true_and]
    exact ⟨⟨_, _, _, hresolved⟩, by simp⟩
  have hsuits : w.Suits meanOfOne ⟨[], none⟩ := by
    refine ⟨by simp, ?_⟩
    simp [meanOfOne, Instruction.windowed?]
  have hconforming : w.Conforming meanOfOne ⟨[], none⟩ st₀ := by
    intro before e after st hes _ u args t' hadd ht'
    have he : e ∈ meanOfOne := by simp [hes]
    have hfive : u = 0 ∧ args = [.int 5] := by
      simp only [meanOfOne, List.mem_cons, List.not_mem_nil, or_false] at he
      rcases he with rfl | rfl | rfl | rfl <;> simp_all
    obtain ⟨rfl, rfl⟩ := hfive
    obtain rfl : t = t' := Option.some.inj (ht.symm.trans ht')
    rw [hargs]
    exact .cons (.of_eval rfl (Value.conforms_word (by decide))) .nil
  have hrun : ∃ st, Stmt.runAll ⟨[], none⟩ st₀ (emittedBy (meanOfOne.take 2)) = (st, .ok ()) :=
    ⟨_, rfl⟩
  obtain ⟨st, hrun⟩ := hrun
  have hopened : Opened (meanOfOne.take 2) 0 := ⟨_, List.getLast_mem (by simp [meanOfOne]), rfl⟩
  obtain ⟨_, _, hkept⟩ := types_kept hrecord hplain hsuits hconforming
    (List.take_append_drop 2 meanOfOne).symm hrun ht hopened
  have hreached : Reaches ⟨[], none⟩ st (emittedBy (meanOfOne.drop 2)) p := by
    have hend := runAll_reaches ⟨[], none⟩ st (emittedBy (meanOfOne.drop 2))
    rw [record_stmts hrecord, ← List.take_append_drop 2 meanOfOne, emittedBy_append,
      Stmt.runAll_append, hrun, andThen_ok] at hp
    rwa [hp] at hend
  obtain ⟨htyped, hreturned⟩ := hkept p hreached
  rw [hslots] at htyped
  refine ⟨htyped _ List.mem_cons_self, ?_⟩
  have hmean := hreturned _ (List.getLast_mem (by simp [meanOfOne])) _ rfl rfl _ hsuits
  rwa [hreturns] at hmean

end Workspace

end WindowFold
