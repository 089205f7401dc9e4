import WindowFold.Proofs.Builtin.Calls
import WindowFold.Proofs.Builtin.Typing
import WindowFold.Proofs.Workspace.Initialised

/-!
# What entries of builtin calls emit

In a record of builtin calls that were resolved by their names, every entry has emitted code that
is known in full (`Takes.codes`), and it stays known while the record goes on (`record_coded`).
Over plain frames and the columns of the partition so is every value that was returned
(`Takes.answered`).  No entry writes slots of a call other than its own (`Codes.written`).
-/

namespace WindowFold

/-- A new call has been resolved by the name of a builtin function. -/
def Instruction.Named : Instruction → Prop
  | .create sig agg => ∃ name types distinct,
    (Registry.builtin.map Builtin.aggregate).resolve name types distinct = .ok (sig, agg)
  | _ => True

/-- Creating a call of a builtin function as it was resolved, a phase of one call, over a window
only with a plain frame and the columns of the partition, or binding a value. -/
def Instruction.Plain : Instruction → Prop
  | .create sig agg => ∃ name types distinct,
    (Registry.builtin.map Builtin.aggregate).resolve name types distinct = .ok (sig, agg)
  | .addRow _ f rows | .resultAt _ f rows => f.Plain ∧ ∃ n, rows = .columns n
  | .warmUpAll _ | .emit _ => False
  | _ => True

namespace Instruction.Plain

variable {i : Instruction}

theorem named (h : i.Plain) : i.Named := by
  cases i with
  | create => exact h
  | _ => trivial

theorem byCall (h : i.Plain) : i.byCall = true := by
  cases i <;> first | rfl | exact h.elim

end Instruction.Plain

theorem zipWith_slot_types (ids : List SlotId) (types : List DataType)
    (h : ids.length = types.length) : (List.zipWith Slot.mk ids types).map Slot.type = types := by
  apply List.ext_getElem
  · simp [h]
  · intro i _ _
    simp

theorem Registry.get?_map {α β : Type} (r : Registry α) (f : α → β) (name : String) :
    (r.map f).get? name = (r.get? name).map f := by
  unfold get? map
  simp only
  induction r.entries with
  | nil => rfl
  | cons e rest ih =>
    rw [List.map_cons, List.lookup_cons, List.lookup_cons, ih]
    split <;> rfl

namespace Builtin

variable {b b' : Builtin} {s : Nat → SlotId} {t t' : Tally}

/-- A builtin function is found under its name. -/
theorem get?_name (b : Builtin) : Registry.builtin.get? b.aggregate.name = some b := by
  cases b <;> decide +kernel

/-- No two builtin functions share a name. -/
theorem name_injective (h : b.aggregate.name.toLower = b'.aggregate.name.toLower) : b = b' := by
  have hget := get?_name b
  rw [Registry.get?, h] at hget
  exact Option.some.inj (hget.symm.trans (get?_name b'))

theorem aggregate_injective : aggregate.Injective := fun _ _ h =>
  name_injective (congrArg (fun agg => agg.name.toLower) h)

theorem resolve_name {types : List DataType} {returns : DataType} {nullable : Bool}
    (h : b.aggregate.typing types = .ok (returns, nullable)) (distinct : Bool) :
    (Registry.builtin.map aggregate).resolve b.aggregate.name types distinct =
      .ok (.of b.aggregate.name types returns nullable distinct, b.aggregate) := by
  have hget : (Registry.builtin.map aggregate).get? b.aggregate.name = some b.aggregate := by
    rw [Registry.get?_map, get?_name, Option.map_some]
  simp only [Registry.resolve, hget, h]
  rfl

theorem resolve_ok {name : String} {types : List DataType} {distinct : Bool} {sig : Signature}
    {agg : Aggregate}
    (h : (Registry.builtin.map aggregate).resolve name types distinct = .ok (sig, agg)) :
    ∃ (b : Builtin) (nullable : Bool), agg = b.aggregate ∧
      b.aggregate.typing types = .ok (sig.returns, nullable) ∧
      sig = .of b.aggregate.name types sig.returns nullable distinct := by
  simp only [Registry.resolve, Registry.get?_map] at h
  cases hget : Registry.builtin.get? name with
  | none => simp [hget] at h
  | some b =>
    simp only [hget, Option.map_some, bind, Except.bind] at h
    cases htyping : b.aggregate.typing types with
    | error err => simp [htyping] at h
    | ok r =>
      rw [htyping] at h
      obtain ⟨rfl, rfl⟩ := Prod.mk.inj (Except.ok.inj h)
      exact ⟨b, r.2, rfl, htyping, rfl⟩

/-! ## Resolved calls -/

/-- A call of the function with the signature it was resolved to. -/
structure Resolved (b : Builtin) (s : Nat → SlotId) (t : Tally) : Prop extends b.Call s t where
  name : t.signature.name = b.aggregate.name.toLower
  types : b.Types t.signature.argTypes t.signature.returns (t.accumulator.slots.map Slot.type)
  layout : t.accumulator.slots.map Slot.type = t.aggregate.layout t.signature

theorem create_resolved {name : String} {types : List DataType} {distinct : Bool}
    {sig : Signature} {agg : Aggregate} {p p' : Pass}
    (h : (Registry.builtin.map aggregate).resolve name types distinct = .ok (sig, agg))
    (hc : Tally.create sig agg p = .ok t p') : ∃ (b : Builtin) (s : Nat → SlotId), b.Resolved s t := by
  obtain ⟨b, nullable, rfl, htyping, hsig⟩ := resolve_ok h
  have hargs : sig.argTypes = types := by rw [hsig]; rfl
  have hadmits : b.Admits sig.arity := by
    rw [Signature.arity, hargs]
    exact admits_of_typing htyping
  refine ⟨b, _, create_call hadmits hc, ?_, ?_, ?_⟩
  · rw [(Tally.create_ok.mp hc).1, hsig]
    rfl
  · rw [(Tally.create_ok.mp hc).1]
    show b.Types sig.argTypes sig.returns ((List.zipWith Slot.mk _ _).map Slot.type)
    rw [zipWith_slot_types _ _ (by simp), hargs]
    exact types_of_typing htyping
  · rw [(Tally.create_ok.mp hc).1]
    exact zipWith_slot_types _ _ (by simp)

namespace Resolved

theorem becomes (h : b.Resolved s t) (ht : t.Becomes t') : b.Resolved s t' := by
  obtain ⟨hsignature, haccumulator⟩ := Site.mk.inj ht.site
  refine ⟨h.toCall.becomes ht, ?_, ?_, ?_⟩
  · rw [hsignature, h.name]
  · rw [hsignature, haccumulator]
    exact h.types
  · rw [hsignature, haccumulator, ht.aggregate, h.layout]

/-- A call of the same signature is one of the same function, with slots of the same types. -/
theorem same {s' : Nat → SlotId} (h : b.Resolved s t) (h' : b'.Resolved s' t')
    (hsig : t'.signature = t.signature) :
    b = b' ∧ t'.accumulator.slots.map Slot.type = t.accumulator.slots.map Slot.type := by
  have hname := h'.name.symm.trans ((congrArg Signature.name hsig).trans h.name)
  obtain rfl := name_injective hname
  have htypes := h'.types
  rw [hsig] at htypes
  exact ⟨rfl, htypes.state_unique h.types⟩

end Resolved

theorem window_columns (c : Site) (f : Frame) (n : Nat) (row : Expr) :
    (c.window f (.columns n)).argumentsAt row = if n = c.signature.arity then .ok (columnsAt n row)
      else .error (.argumentCount c.signature.name c.signature.arity n) := by
  simp [Site.window, RowArguments.columns, RowArguments.total, bind, Except.bind, columnsAt]

/-- The arguments at a row of the columns, if there are as many as the call has. -/
theorem columns_told {c : Site} {f : Frame} {n : Nat} {row : Expr} {args : List Expr}
    (h : (c.window f (.columns n)).argumentsAt row = .ok args) :
    args = columnsAt c.signature.arity row := by
  rw [window_columns] at h
  split at h
  · rename_i hn
    rw [← Except.ok.inj h, hn]
  · simp at h

/-- A list of another length than the arity of the call is refused. -/
theorem window_length {c : Site} {f : Frame} {rows : RowArguments} {row : Expr}
    {args : List Expr} (h : (c.window f rows).argumentsAt row = .ok args) :
    args.length = c.signature.arity := by
  simp only [Site.window, bind, Except.bind] at h
  split at h
  · simp at h
  · split at h
    · rename_i hlength
      rw [← Except.ok.inj h]
      exact hlength
    · simp at h

/-- What a function returns over the columns of the partition, however many it was told there
are: if it reads them at all, there are as many as the call has arguments. -/
theorem resultAt_columns {c : Site} (h : b.Fits c s) (f : Frame) {n k : Nat} {v : Expr}
    (hv : (b.aggregate.resultAt c (c.window f (.columns n))).outcome k = .ok v) :
    v = windowExpr s b f (columnsAt c.signature.arity) := by
  have hgives := resultAt_gives h f (columnsAt_arguments c.signature.arity).length
  by_cases hn : n = c.signature.arity
  · subst hn
    exact Except.ok.inj (hv.symm.trans (hgives.outcome k))
  · have hfailed (row : Expr) :
        Emission.ofExcept ((c.window f (.columns n)).argumentsAt row) = .fail _ :=
      congrArg Emission.ofExcept ((window_columns c f n row).trans (if_neg hn))
    cases b with
    | firstValue | lastValue =>
      simp [aggregate, Aggregate.firstValue, Aggregate.lastValue, Aggregate.edge,
        Aggregate.valueAt, hfailed] at hv
    | lag | lead =>
      simp [aggregate, Aggregate.lag, Aggregate.lead, Aggregate.shifted, Aggregate.placed,
        hfailed] at hv
    | count | sum | avg | min | max | arrayAgg | rowNumber =>
      exact Except.ok.inj (hv.symm.trans (hgives.outcome k))

/-- What a call with `n` arguments answers. -/
inductive Answer (b : Builtin) (s : Nat → SlotId) (n : Nat) : Instruction → Expr → Prop
  | regular {u} (hw : b.aggregate.windowOnly = false) : Answer b s n (.result u) (b.resultExpr s)
  | windowed {u f rows} (hf : f.Plain) :
      Answer b s n (.resultAt u f rows) (windowExpr s b f (columnsAt n))

/-- A merge that goes through is of a function whose states can be folded into one another. -/
theorem mergeable_of_ok {c : Site} {a : Accumulator} {p p' : Pass} {ss : List Stmt}
    (h : Pass.emit (b.aggregate.merge c a) p = .ok (ss, ()) p') : b.mergeable = true := by
  have hperform := congrArg Prod.snd (Pass.emit_ok h).1
  cases b with
  | count | sum | avg | min | max => rfl
  | arrayAgg | firstValue | lastValue | lag | lead | rowNumber =>
    simp [aggregate, Aggregate.arrayAgg, Aggregate.firstValue, Aggregate.lastValue,
      Aggregate.edge, Aggregate.lag, Aggregate.lead, Aggregate.shifted, Aggregate.rowNumber,
      Aggregate.placed, Emission.fail, Draft.perform, Draft.emitAll] at hperform

end Builtin

/-- A call that was resolved by the name of a builtin function, in whatever state. -/
def Tally.OfBuiltin (t : Tally) : Prop :=
  ∃ name types distinct sig agg t₀ p p',
    (Registry.builtin.map Builtin.aggregate).resolve name types distinct = .ok (sig, agg) ∧
      Tally.create sig agg p = .ok t₀ p' ∧ t₀.Becomes t

theorem Tally.OfBuiltin.resolved {t : Tally} (h : t.OfBuiltin) :
    ∃ (b : Builtin) (s : Nat → SlotId), b.Resolved s t := by
  obtain ⟨name, types, distinct, sig, agg, t₀, p, p', hresolve, hcreate, hbecomes⟩ := h
  obtain ⟨b, s, hb⟩ := Builtin.create_resolved hresolve hcreate
  exact ⟨b, s, hb.becomes hbecomes⟩

namespace Workspace

open Builtin

variable {w w' : Workspace} {e : Entry} {u : Nat} {t : Tally}

/-- What an entry has emitted: nothing that writes, or code of a builtin call. -/
inductive Codes (w : Workspace) : Entry → Prop
  | quiet {e : Entry} (hi : e.instruction.opens? = none) (hw : Stmt.writtenAll e.emitted = []) :
      Codes w e
  | resets {i u t ss r} {b : Builtin} {s} (hi : i.opens? = some u) (ht : w.tallies[u]? = some t)
      (hb : b.Resolved s t) (hss : b.Resets s ss) : Codes w ⟨i, ss, r⟩
  | adds {u t args r} {b : Builtin} {s} (ht : w.tallies[u]? = some t) (hb : b.Resolved s t) :
      Codes w ⟨.add u args, b.addCode s args, r⟩
  | addsRow {u t f rows args r} {b : Builtin} {s} (ht : w.tallies[u]? = some t)
      (hb : b.Resolved s t)
      (hargs : (t.site.window f rows).argumentsAt f.currentRow = .ok args) :
      Codes w ⟨.addRow u f rows, b.rowCode s args, r⟩
  | merges {u v t t' r} {b : Builtin} {s s'} (ht : w.tallies[u]? = some t)
      (ht' : w.tallies[v]? = some t') (hr : t'.ready = true) (hb : b.Resolved s t)
      (hb' : b.Resolved s' t') (hsig : t'.signature = t.signature) :
      Codes w ⟨.merge u v, b.mergeCode s s', r⟩

/-- Every call was resolved by the name of a builtin function. -/
def AllResolved (w : Workspace) : Prop :=
  ∀ (u : Nat) (t : Tally), w.tallies[u]? = some t →
    ∃ (b : Builtin) (s : Nat → SlotId), b.Resolved s t

theorem Takes.codes (h : w.Takes e w') (hw : w.AllResolved)
    (hcall : e.instruction.byCall = true) : w.Codes e := by
  cases h with
  | created => exact .quiet rfl rfl
  | bound => exact .quiet rfl rfl
  | warmed => simp [Instruction.byCall] at hcall
  | emitted => simp [Instruction.byCall] at hcall
  | yielded _ ht _ hy hm _ _ _ =>
    obtain ⟨b, s, hb⟩ := hw _ _ ht
    obtain ⟨_, _, rfl, _⟩ := hy.answers hb.aggregate hm
    exact .quiet hy.opens?_eq_none rfl
  | opened hopens ht hg hm _ _ =>
    obtain ⟨b, s, hb⟩ := hw _ _ ht
    obtain ⟨code, hgives, hresets⟩ :=
      opening_gives hb.aggregate hb.fits.lays hg (by simp [hopens])
    obtain ⟨rfl, _⟩ := Pass.emitted_of_gives hgives hm
    exact .resets hopens ht hb hresets
  | @updated i u t o m ss p hphase ht hr hu hm _ =>
    obtain ⟨b, s, hb⟩ := hw _ _ ht
    cases hu with
    | add hopen hargs =>
      have hgives := add_gives hb.fits (hb.windowOnly_false hopen) (Tally.requireArity_ok.mp hargs)
      rw [← hb.aggregate] at hgives
      obtain ⟨rfl, _⟩ := Pass.emitted_of_gives hgives hm
      obtain rfl := Option.some.inj hphase
      exact .adds ht hb
    | @addRow _ f rows args hf hargs =>
      have hgives := addRow_gives hb.fits (t.site.window f rows) (window_length hargs)
      rw [← hb.aggregate] at hgives
      obtain ⟨rfl, _⟩ := Pass.emitted_of_gives hgives hm
      obtain rfl := Option.some.inj hphase
      exact .addsRow ht hb hargs
    | merge hopen hv hmergeable =>
      obtain ⟨hr', hsig, _⟩ := Tally.requireMergeable_ok.mp hmergeable
      obtain ⟨b', s', hb'⟩ := hw _ _ hv
      obtain ⟨rfl, _⟩ := hb.same hb' hsig
      rw [hb.aggregate] at hm
      have hgives := merge_gives hb.fits.lays hb'.fits.lays (mergeable_of_ok hm)
      obtain ⟨rfl, _⟩ := Pass.emitted_of_gives hgives hm
      obtain rfl := Option.some.inj hphase
      exact .merges ht hv hr' hb hb' hsig

/-- Calls go on being what they are, and so does what has been emitted for them. -/
theorem Codes.takes {e' : Entry} (hc : w.Codes e) (h : w.Takes e' w') : w'.Codes e := by
  cases hc with
  | quiet hi hw => exact .quiet hi hw
  | resets hi ht hb hss =>
    obtain ⟨_, ht', hbecomes⟩ := h.becomes ht
    exact .resets hi ht' (hb.becomes hbecomes) hss
  | adds ht hb =>
    obtain ⟨_, ht', hbecomes⟩ := h.becomes ht
    exact .adds ht' (hb.becomes hbecomes)
  | addsRow ht hb hargs =>
    obtain ⟨_, ht', hbecomes⟩ := h.becomes ht
    rw [← hbecomes.site] at hargs
    exact .addsRow ht' (hb.becomes hbecomes) hargs
  | merges ht hv hr hb hb' hsig =>
    obtain ⟨_, ht₁, hbecomes⟩ := h.becomes ht
    obtain ⟨_, hv₁, hbecomes'⟩ := h.becomes hv
    refine .merges ht₁ hv₁ (hbecomes'.ready hr) (hb.becomes hbecomes) (hb'.becomes hbecomes') ?_
    rw [(Site.mk.inj hbecomes.site).1, (Site.mk.inj hbecomes'.site).1, hsig]

theorem AllResolved.takes (hw : w.AllResolved) (h : w.Takes e w') (hi : e.instruction.Named) :
    w'.AllResolved := by
  intro u t' ht'
  rcases h.origin ht' with ⟨t, ht, hbecomes⟩ | ⟨sig, agg, hcreate, hc⟩
  · obtain ⟨b, s, hb⟩ := hw u t ht
    exact ⟨b, s, hb.becomes hbecomes⟩
  · rw [hcreate] at hi
    obtain ⟨name, types, distinct, hresolve⟩ := hi
    exact create_resolved hresolve hc

/-- No entry writes a slot of a call other than its own. -/
theorem Codes.written (h : w.Codes e) {x : SlotId} (hx : x ∈ Stmt.writtenAll e.emitted) :
    ∃ u, e.instruction.call? = some u ∧ w.Owns u x := by
  have owns {u : Nat} {t : Tally} {b : Builtin} {s : Nat → SlotId}
      (ht : w.tallies[u]? = some t) (hb : b.Resolved s t) (hx : b.Own s x) : w.Owns u x :=
    (owns_of_tally ht).mpr (hb.fits.lays.owns_iff.mpr hx)
  cases h with
  | quiet _ hw => simp [hw] at hx
  | resets hi ht hb hss =>
    refine ⟨_, Instruction.call?_of_opens? hi, owns ht hb ?_⟩
    rcases hss with rfl | ⟨o, rfl⟩
    · exact resetCode_touched x (Stmt.writtenAll_subset_touchedAll _ hx)
    · exact openCode_written o x hx
  | adds ht hb => exact ⟨_, rfl, owns ht hb (addCode_written _ x hx)⟩
  | addsRow ht hb => exact ⟨_, rfl, owns ht hb (rowCode_written _ x hx)⟩
  | merges ht _ _ hb _ _ => exact ⟨_, rfl, owns ht hb (mergeCode_written x hx)⟩

/-- What a call that is asked returns. -/
theorem Takes.answered {v : Expr} (h : w.Takes e w') (hw : w.AllResolved)
    (hi : e.instruction.Plain) (hu : e.instruction.asks? = some u) (hv : e.reply = .value v) :
    ∃ (t : Tally) (b : Builtin) (s : Nat → SlotId), w.tallies[u]? = some t ∧ b.Resolved s t ∧
      b.Answer s t.signature.arity e.instruction v := by
  obtain ⟨t, m, ss, x, p, ht, _, hy, hm, _, _, hreply, _⟩ := h.yields hu
  obtain rfl : x = v := by simpa [hreply] using hv
  obtain ⟨b, s, hb⟩ := hw u t ht
  refine ⟨t, b, s, ht, hb, ?_⟩
  have houtcome := (hy.answers hb.aggregate hm).1
  generalize e.instruction = i at hy hi ⊢
  cases hy with
  | result hopen =>
    have hwindow := hb.windowOnly_false hopen
    rw [hb.aggregate] at houtcome
    have hgives := result_gives hb.fits.lays hwindow
    obtain rfl := Except.ok.inj ((hgives.outcome 0).symm.trans (houtcome 0))
    exact .regular hwindow
  | resultAt _ =>
    obtain ⟨hf, n, rfl⟩ := hi
    rw [hb.aggregate] at houtcome
    rw [resultAt_columns hb.fits _ (houtcome 0)]
    exact .windowed hf

/-! ## Records -/

/-- What the entries of a record have emitted and answered, in terms of the calls there are at
its end. -/
structure Coded (es : List Entry) (w : Workspace) : Prop where
  resolved : w.AllResolved
  codes : ∀ e ∈ es, w.Codes e
  answers : ∀ e ∈ es, ∀ u v, e.instruction.asks? = some u → e.reply = .value v →
    ∃ t m, w.tallies[u]? = some t ∧ w.Yields t e.instruction m ∧ ∀ n, m.outcome n = .ok v

theorem Coded.takes {es : List Entry} (hc : Coded es w) (h : w.Takes e w')
    (hnamed : e.instruction.Named) (hcall : e.instruction.byCall = true) :
    Coded (es ++ [e]) w' where
  resolved := hc.resolved.takes h hnamed
  codes := by
    intro x hx
    rw [List.mem_append, List.mem_singleton] at hx
    rcases hx with hx | rfl
    · exact (hc.codes x hx).takes h
    · exact (h.codes hc.resolved hcall).takes h
  answers := by
    intro x hx u v hu hv
    have hold : ∃ t m, w.tallies[u]? = some t ∧ w.Yields t x.instruction m ∧
        ∀ n, m.outcome n = .ok v := by
      rw [List.mem_append, List.mem_singleton] at hx
      rcases hx with hx | rfl
      · exact hc.answers x hx u v hu hv
      · obtain ⟨t, m, ss, v', p, ht, _, hy, hm, _, _, hreply, _⟩ := h.yields hu
        obtain rfl : v' = v := by simpa [hreply] using hv
        obtain ⟨b, s, hb⟩ := hc.resolved u t ht
        exact ⟨t, m, ht, hy, (hy.answers hb.aggregate hm).1⟩
    obtain ⟨t, m, ht, hy, hm⟩ := hold
    obtain ⟨t', ht', hbecomes⟩ := h.becomes ht
    exact ⟨t', m, ht', hy.becomes hbecomes h.config, hm⟩

variable {config : Config} {is : List Instruction} {es : List Entry}

theorem record_coded (h : (start config).record is = .ok (es, w))
    (his : ∀ i ∈ is, i.Named ∧ i.byCall = true) : Coded es w := by
  have hstart : Coded [] (start config) := by
    refine ⟨?_, by simp, by simp⟩
    intro u t ht
    simp [start] at ht
  exact record_induction_of h his hstart fun _ _ _ _ hc htakes hi => hc.takes htakes hi.1 hi.2

/-- Every call of the record has the signature that its name was resolved to. -/
theorem record_named (h : (start config).record is = .ok (es, w)) (his : ∀ i ∈ is, i.Named)
    (ht : w.tallies[u]? = some t) :
    ∃ name types distinct, (Registry.builtin.map Builtin.aggregate).resolve name types distinct =
      .ok (t.signature, t.aggregate) := by
  obtain ⟨sig, agg, hcreate, t₀, p, p', hc, hbecomes⟩ := record_created h ht
  obtain ⟨rfl, _⟩ := Tally.create_ok.mp hc
  rw [(Site.mk.inj hbecomes.site).1, hbecomes.aggregate]
  exact his _ hcreate

end Workspace

end WindowFold
