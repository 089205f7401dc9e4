import WindowFold.Proofs.Builtin.Folding
import WindowFold.Proofs.Builtin.Ledger
import WindowFold.Proofs.Builtin.Record
import WindowFold.Proofs.Machine.Footprint

/-!
# A merge comes to the same as all the adds

Calls of `count`, `sum`, `min` or `max` that are merged into one have the result that a single
call has after all the adds, whatever the order of the merges (`merged_eq_single`).

One move at a time the workspace keeps to the ledger (`move_step`), and so do the slots while
the code of the moves runs (`move_runs`).  The single call is itself a plan, of one call and no
merge, so that both sides are cases of `merged_total`.
-/

namespace WindowFold

namespace Builtin

open Workspace Move

/-- The slots of call `u` where every call of a pass is one of the function. -/
def unitSlots (b : Builtin) (u i : Nat) : SlotId := ⟨b.size * u + i⟩

variable {b : Builtin} {u v i j : Nat}

theorem unitSlots_injective (b : Builtin) (u : Nat) : (b.unitSlots u).Injective :=
  fun _ _ h => Nat.add_left_cancel (congrArg SlotId.index h)

/-- Two calls have no slot in common. -/
theorem unitSlots_apart (hne : u ≠ v) (hi : i < b.size) (hj : j < b.size) :
    b.unitSlots u i ≠ b.unitSlots v j := by
  intro h
  have hindex : b.size * u + i = b.size * v + j := congrArg SlotId.index h
  have hpos : 0 < b.size := Nat.lt_of_le_of_lt (Nat.zero_le i) hi
  have hdiv : (b.size * u + i) / b.size = (b.size * v + j) / b.size := by rw [hindex]
  rw [Nat.mul_add_div hpos, Nat.mul_add_div hpos, Nat.div_eq_of_lt hi, Nat.div_eq_of_lt hj] at hdiv
  exact hne (by omega)

theorem admits_le_one (hm : b.mergeable = true) {n : Nat} (h : b.Admits n) : n ≤ 1 := by
  cases b with
  | count => exact h
  | sum | avg | min | max => exact Nat.le_of_eq h
  | arrayAgg | firstValue | lastValue | lag | lead | rowNumber => simp [mergeable] at hm

/-! ## The workspace keeps to the ledger -/

/-- As many arguments as the call has, reading no slots and evaluating to the values. -/
structure Feeds (env : Env) (n : Nat) (args : List Expr) (values : List Value) : Prop where
  arity : args.length = n
  slotFree : ∀ e ∈ args, e.slots = []
  evaluate : ∀ st, Evaluate env st args values

theorem Feeds.length_le {env : Env} {n : Nat} {args : List Expr} {values : List Value}
    (h : Feeds env n args values) (hn : n ≤ 1) : values.length ≤ 1 := by
  have hlen := (h.evaluate .fresh).length_eq
  have harity := h.arity
  omega

def moveInstruction (b : Builtin) (sig : Signature) : Move → Instruction
  | .create => .create sig b.aggregate
  | .reset u => .reset u
  | .add u args _ => .add u args
  | .merge u v => .merge u v

def moveCode (b : Builtin) : Move → List Stmt
  | .create => []
  | .reset u => b.resetCode (b.unitSlots u)
  | .add u args _ => b.addCode (b.unitSlots u) args
  | .merge u v => b.mergeCode (b.unitSlots u) (b.unitSlots v)

/-- The calls are those of the ledger, and all but those not yet reset are ready. -/
structure Tracks (b : Builtin) (sig : Signature) (ledger : List Stage) (w : Workspace) : Prop where
  slotCount : w.pass.draft.slotCount = b.size * ledger.length
  length : w.tallies.length = ledger.length
  calls : ∀ u x, ledger[u]? = some x → ∃ t, w.tallies[u]? = some t ∧ b.Call (b.unitSlots u) t ∧
    t.signature = sig ∧ (x ≠ .unset → t.ready = true)

variable {sig : Signature} {ledger ledger' : List Stage} {w : Workspace}

/-- A call that is ready may come to any stage. -/
theorem Tracks.set (h : Tracks b sig ledger w) {t : Tally} (ht : w.tallies[u]? = some t)
    (hcall : b.Call (b.unitSlots u) t) (hsig : t.signature = sig) (hr : t.ready = true)
    (x : Stage) : Tracks b sig (ledger.set u x) w := by
  refine ⟨?_, ?_, ?_⟩
  · rw [h.slotCount, List.length_set]
  · rw [h.length, List.length_set]
  · intro v y hy
    by_cases hvu : u = v
    · subst hvu
      exact ⟨t, ht, hcall, hsig, fun _ => hr⟩
    · rw [List.getElem?_set_ne hvu] at hy
      exact h.calls v y hy

/-- A call that has been reset may be taken for one that has not. -/
theorem Tracks.unset (h : Tracks b sig ledger w) (u : Nat) :
    Tracks b sig (ledger.set u .unset) w := by
  refine ⟨?_, ?_, ?_⟩
  · rw [h.slotCount, List.length_set]
  · rw [h.length, List.length_set]
  · intro v x hx
    by_cases huv : u = v
    · subst huv
      have hlt : u < (ledger.set u .unset).length := (List.getElem?_eq_some_iff.mp hx).1
      rw [List.length_set] at hlt
      rw [List.getElem?_set_self hlt] at hx
      obtain ⟨t, ht, hcall, hsig, _⟩ := h.calls u _ (List.getElem?_eq_getElem hlt)
      exact ⟨t, ht, hcall, hsig, fun hne => absurd (Option.some.inj hx).symm hne⟩
    · rw [List.getElem?_set_ne huv] at hx
      exact h.calls v x hx

theorem Tracks.extend (h : Tracks b sig ledger w) (ss : List Stmt) :
    Tracks b sig ledger ⟨w.pass.extend ss, w.tallies⟩ := ⟨h.slotCount, h.length, h.calls⟩

theorem Tracks.ready (h : Tracks b sig ledger w) {inputs : List (List Value)}
    (hu : ledger[u]? = some (.live inputs)) : ∃ t, w.tallies[u]? = some t ∧
      b.Call (b.unitSlots u) t ∧ t.signature = sig ∧ t.ready = true := by
  obtain ⟨t, ht, hcall, hsig, hr⟩ := h.calls u _ hu
  exact ⟨t, ht, hcall, hsig, hr nofun⟩

/-- A move that the stages admit goes through, emits its code and leads to the next stages. -/
theorem move_step (hb : b.mergeable = true) (hn : b.Admits sig.arity) {m : Move}
    (hm : Follows ledger m ledger') (h : Tracks b sig ledger w) {env : Env}
    (hfeeds : ∀ u args values, m = .add u args values → Feeds env sig.arity args values) :
    ∃ w', w.step (b.moveInstruction sig m) = (w', .ok .done) ∧
      w'.pass.draft.stmts = w.pass.draft.stmts ++ b.moveCode m ∧ Tracks b sig ledger' w' := by
  have hw := mergeable_windowOnly hb
  cases hm with
  | create =>
    obtain ⟨t, p, hc⟩ := create_succeeds sig b.aggregate w.pass
    have hcall := create_call hn hc
    obtain ⟨hsig, hstmts, hp⟩ := Tally.create_ok.mp hc
    have hstep : w.step (.create sig b.aggregate) = (⟨p, w.tallies ++ [t]⟩, .ok .done) := by
      simp only [step, hc]
    refine ⟨_, hstep, by rw [moveCode, List.append_nil]; exact hstmts, ?_, ?_, ?_⟩
    · rw [List.length_append, List.length_singleton, Nat.mul_add, Nat.mul_one, ← h.slotCount, hp,
        layout_length]
    · rw [List.length_append, List.length_append, h.length]
      rfl
    · intro u x hx
      rw [List.getElem?_append] at hx ⊢
      rw [h.length]
      by_cases hu : u < ledger.length
      · rw [if_pos hu] at hx ⊢
        exact h.calls u x hx
      · rw [if_neg hu, List.getElem?_singleton] at hx
        by_cases hz : u - ledger.length = 0
        · rw [if_pos hz] at hx
          obtain rfl := Option.some.inj hx
          have hu : u = ledger.length := by omega
          subst hu
          rw [h.slotCount] at hcall
          exact ⟨t, by simp, hcall, by rw [hsig], fun h => absurd rfl h⟩
        · rw [if_neg hz] at hx
          simp at hx
  | @reset u hu =>
    obtain ⟨t, ht, hcall, hsig, _⟩ := h.calls u _ hu
    let t' : Tally := { t with ready := true }
    have hcall' : b.Call (b.unitSlots u) t' := ⟨hcall.aggregate, hcall.fits⟩
    refine ⟨_, hcall.step_reset hw ht, rfl, ?_, ?_, ?_⟩
    · rw [List.length_set]
      exact h.slotCount
    · rw [List.length_set, List.length_set]
      exact h.length
    · intro v x hx
      by_cases huv : u = v
      · subst huv
        have hlt := (List.getElem?_eq_some_iff.mp ht).1
        exact ⟨t', List.getElem?_set_self hlt, hcall', hsig, fun _ => rfl⟩
      · rw [List.getElem?_set_ne huv] at hx ⊢
        exact h.calls v x hx
  | @add u args values inputs hu =>
    obtain ⟨t, ht, hcall, hsig, hr⟩ := h.ready hu
    have hargs := hfeeds u args values rfl
    refine ⟨_, hcall.step_add hw hr ht (by rw [hsig, hargs.arity]) hargs.slotFree, rfl, ?_⟩
    exact (h.extend _).set ht hcall hsig hr _
  | @merge u v as bs hu hv hne =>
    obtain ⟨t, ht, hcall, hsig, hr⟩ := h.ready hu
    obtain ⟨t', ht', hcall', hsig', hr'⟩ := h.ready hv
    refine ⟨_, hcall.step_merge hcall' hb hr hr' (hsig'.trans hsig.symm) ht ht', rfl, ?_⟩
    exact ((h.extend _).set ht hcall hsig hr _).set ht' hcall' hsig' hr' _

def moveEntry (b : Builtin) (sig : Signature) (m : Move) : Entry :=
  ⟨b.moveInstruction sig m, b.moveCode m, .done⟩

theorem record_moves (hb : b.mergeable = true) (hn : b.Admits sig.arity) {moves : List Move}
    (hmoves : followAll ledger moves = some ledger') (h : Tracks b sig ledger w) {env : Env}
    (hfeeds : ∀ u args values, .add u args values ∈ moves → Feeds env sig.arity args values) :
    ∃ w', w.record (moves.map (b.moveInstruction sig)) = .ok (moves.map (b.moveEntry sig), w') ∧
      Tracks b sig ledger' w' := by
  induction moves generalizing ledger w with
  | nil =>
    obtain rfl := Option.some.inj hmoves
    exact ⟨w, rfl, h⟩
  | cons m rest ih =>
    obtain ⟨ledger₁, hm, hrest⟩ := followAll_cons.mp hmoves
    obtain ⟨w₁, hstep, hstmts, h₁⟩ := move_step hb hn (follows_of_follow hm) h
      fun u args values hadd => hfeeds u args values (hadd ▸ List.mem_cons_self)
    obtain ⟨w', hrecord, h'⟩ := ih hrest h₁
      fun u args values hadd => hfeeds u args values (List.mem_cons_of_mem _ hadd)
    refine ⟨w', record_cons_ok.mpr ⟨w₁, _, _, hstep, hrecord, ?_⟩, h'⟩
    rw [Draft.since, hstmts, List.drop_left]
    rfl

/-! ## The store keeps to the ledger -/

/-- Every call that is taking things in carries what it has taken in. -/
def Holds (a : Account b) (ledger : List Stage) (st : Store) : Prop :=
  ∀ u inputs, ledger[u]? = some (.live inputs) → st.Carries (b.unitSlots u) (a.contents inputs)

variable {a : Account b} {env : Env} {st : Store}

/-- Code that writes slots of one call leaves alone what another one carries. -/
theorem carries_of_apart (env : Env) (huv : u ≠ v) {ss : List Stmt} {values : List Value}
    (hss : ∀ x ∈ Stmt.writtenAll ss, b.Own (b.unitSlots u) x) (hlen : values.length = b.size)
    (h : st.Carries (b.unitSlots v) values) :
    (Stmt.runAll env st ss).1.Carries (b.unitSlots v) values := by
  refine h.congr fun i hi => ?_
  rw [hlen] at hi
  refine Stmt.runAll_slots_of_not_mem env st (b.unitSlots v i) ss fun hx => ?_
  obtain ⟨j, hj, hx⟩ := hss _ hx
  exact unitSlots_apart huv hj hi hx.symm

/-- Code that writes slots of one call changes what that one carries. -/
theorem Holds.set (h : Holds a ledger st) {ss : List Stmt} {inputs : List (List Value)}
    (hss : ∀ x ∈ Stmt.writtenAll ss, b.Own (b.unitSlots u) x)
    (hrun : Completes (Stmt.runAll env st ss)
      fun st' => st'.Carries (b.unitSlots u) (a.contents inputs)) :
    Completes (Stmt.runAll env st ss) (Holds a (ledger.set u (.live inputs))) := by
  obtain ⟨st', hrun, hcarries⟩ := hrun
  refine ⟨st', hrun, ?_⟩
  intro v inputs' hv
  by_cases huv : u = v
  · subst huv
    have hlt : u < (ledger.set u (.live inputs)).length := (List.getElem?_eq_some_iff.mp hv).1
    rw [List.length_set] at hlt
    rw [List.getElem?_set_self hlt] at hv
    obtain rfl := Stage.live.inj (Option.some.inj hv)
    exact hcarries
  · rw [List.getElem?_set_ne huv] at hv
    have hkept := carries_of_apart env huv hss (a.size inputs') (h v inputs' hv)
    rw [hrun] at hkept
    exact hkept

theorem Holds.spend (h : Holds a ledger st) (v : Nat) : Holds a (ledger.set v .spent) st := by
  intro u inputs hu
  by_cases hvu : v = u
  · subst hvu
    have hlt : v < (ledger.set v .spent).length := (List.getElem?_eq_some_iff.mp hu).1
    rw [List.length_set] at hlt
    rw [List.getElem?_set_self hlt] at hu
    cases hu
  · rw [List.getElem?_set_ne hvu] at hu
    exact h u inputs hu

theorem sublist_flatMap_of_mem {α β : Type} (f : α → List β) {l : List α} {a : α} (h : a ∈ l) :
    (f a).Sublist (l.flatMap f) := by
  rw [List.flatMap_def]
  exact List.sublist_flatten_of_mem (List.mem_map_of_mem h)

theorem move_runs (g : Merging b) (hn : b.Admits sig.arity) {m : Move}
    (hm : Follows ledger m ledger')
    (hfine : g.fine (ledger.flatMap Stage.inputs ++ m.added.map Prod.snd))
    (hfeeds : ∀ u args values, m = .add u args values → Feeds env sig.arity args values)
    (h : Holds g.toAccount ledger st) :
    Completes (Stmt.runAll env st (b.moveCode m)) (Holds g.toAccount ledger') := by
  have fine_of_live {u : Nat} {inputs : List (List Value)}
      (hu : ledger'[u]? = some (.live inputs)) : g.fine inputs :=
    g.fine_of_sublist (sublist_flatMap_of_mem Stage.inputs (List.mem_of_getElem? hu))
      (g.fine_of_perm hm.perm hfine)
  have hinj := unitSlots_injective b
  cases hm with
  | create =>
    refine ⟨st, rfl, ?_⟩
    intro u inputs hu
    rw [List.getElem?_append] at hu
    split at hu
    · exact h u inputs hu
    · rw [List.getElem?_singleton] at hu
      split at hu
      · cases hu
      · cases hu
  | @reset u hu =>
    refine h.set (fun x hx => ?_) (g.reset _ env st (hinj u))
    exact resetCode_touched x (Stmt.writtenAll_subset_touchedAll _ hx)
  | @add u args values inputs hu =>
    have hargs := hfeeds u args values rfl
    have hlt := (List.getElem?_eq_some_iff.mp hu).1
    have hlen := hargs.length_le (admits_le_one g.mergeable hn)
    refine h.set (fun x hx => ?_) (g.add _ env st inputs args values (hinj u)
      (fine_of_live (List.getElem?_set_self hlt)) hlen (h u inputs hu) (hargs.evaluate st))
    exact addCode_touched hargs.slotFree x (Stmt.writtenAll_subset_touchedAll _ hx)
  | @merge u v as bs hu hv hne =>
    have hlt := (List.getElem?_eq_some_iff.mp hu).1
    have hlive : ((ledger.set u (.live (as ++ bs))).set v .spent)[u]? =
        some (.live (as ++ bs)) := by
      rw [List.getElem?_set_ne hne.symm, List.getElem?_set_self hlt]
    refine (h.set mergeCode_written (g.merge _ _ env st as bs (fine_of_live hlive) (h u as hu)
      (h v bs hv))).mono ?_
    exact fun _ h => h.spend v

/-- The code of the moves takes the store along the ledger. -/
theorem followAll_runs (g : Merging b) (hn : b.Admits sig.arity) {moves : List Move}
    (hmoves : followAll ledger moves = some ledger')
    (hfine : g.fine (ledger.flatMap Stage.inputs ++ (moves.flatMap added).map Prod.snd))
    (hfeeds : ∀ u args values, .add u args values ∈ moves → Feeds env sig.arity args values)
    (h : Holds g.toAccount ledger st) :
    Completes (Stmt.runAll env st (moves.flatMap b.moveCode)) (Holds g.toAccount ledger') := by
  induction moves generalizing ledger st with
  | nil =>
    obtain rfl := Option.some.inj hmoves
    exact ⟨st, rfl, h⟩
  | cons m rest ih =>
    obtain ⟨ledger₁, hm, hrest⟩ := followAll_cons.mp hmoves
    have hm := follows_of_follow hm
    rw [List.flatMap_cons, List.map_append, ← List.append_assoc] at hfine
    rw [List.flatMap_cons]
    refine (move_runs g hn hm (g.fine_of_sublist (List.sublist_append_left _ _) hfine)
      (fun u args values hadd => hfeeds u args values (hadd ▸ List.mem_cons_self)) h).append ?_
    intro st₁ h₁
    exact ih hrest (g.fine_of_perm (hm.perm.append_right _) hfine)
      (fun u args values hadd => hfeeds u args values (List.mem_cons_of_mem _ hadd)) h₁

/-! ## The call that is left -/

/-- The call that is left has the total of all that was added. -/
theorem merged_total (g : Merging b) (hn : b.Admits sig.arity) (config : Config)
    {moves : List Move} {root k : Nat} (hmerge : MergesInto moves root k) (env : Env)
    (hfeeds : ∀ u args values, .add u args values ∈ moves → Feeds env sig.arity args values)
    (hfine : g.fine ((moves.flatMap added).map Prod.snd)) (st : Store) :
    ∃ es w e, (start config).record (moves.map (b.moveInstruction sig) ++ [.result root]) =
        .ok (es, w) ∧ answer? es = some e ∧
      Completes (Stmt.runAll env st w.pass.draft.stmts) fun st' =>
        e.eval env st' = .ok (g.total ((moves.flatMap added).map Prod.snd)) := by
  obtain ⟨ledger, inputs, hmoves, hk, hroot, hothers⟩ := hmerge
  have hstart : Tracks b sig [] (start config) := ⟨rfl, rfl, by simp⟩
  obtain ⟨w, hrecord, htracks⟩ := record_moves g.mergeable hn hmoves hstart hfeeds
  obtain ⟨t, ht, hcall, _, hr⟩ := htracks.ready hroot
  have hresult := hcall.step_result (mergeable_windowOnly g.mergeable) hr ht
  have hall := record_append hrecord (record_answer hresult)
  refine ⟨_, w, b.resultExpr (b.unitSlots root), hall, answer?_concat _ _, ?_⟩
  have hcode : emittedBy (moves.map (b.moveEntry sig) ++
      [⟨.result root, [], .value (b.resultExpr (b.unitSlots root))⟩]) =
        moves.flatMap b.moveCode := by
    rw [emittedBy_append]
    simp [emittedBy, List.flatMap_map, moveEntry]
  rw [record_stmts hall, hcode]
  have hnone : Holds g.toAccount [] st := by
    intro u inputs hu
    simp at hu
  refine (followAll_runs g hn hmoves hfine hfeeds hnone).mono fun st' h => ?_
  rw [g.result_eval (h root inputs hroot) env]
  have hinputs := inputs_of_root hroot fun u hu => hothers u (hk ▸ hu)
  exact congrArg Except.ok (g.total_of_perm (hinputs.trans (followAll_perm hmoves)))

/-! ## Merged or not -/

/-- What inputs come to that may be folded in any order.  Of numbers there may not be too much, or
of inputs too many; NULL, an empty cell, is passed over. -/
inductive FoldsTo : Builtin → List (List Value) → Value → Prop
  | count {inputs} (h : inputs.length < 0x8000000000000000) :
      FoldsTo .count inputs (.int (inputs.countP counted))
  | sum {inputs} {cells : List (Option Int)} (h : inputs.flatten = cells.map (cellValue .int))
      (hlight : (cells.map (cellWeight Int.natAbs)).sum < 0x8000000000000000) :
      FoldsTo .sum inputs (cellValue .int (gather (· + ·) cells))
  | minWord {inputs} {cells : List (Option Word)}
      (h : inputs.flatten = cells.map (cellValue Word.value)) :
      FoldsTo .min inputs (cellValue Word.value (gather Min.min cells))
  | minString {inputs} {cells : List (Option String)}
      (h : inputs.flatten = cells.map (cellValue .string)) :
      FoldsTo .min inputs (cellValue .string (gather Min.min cells))
  | maxWord {inputs} {cells : List (Option Word)}
      (h : inputs.flatten = cells.map (cellValue Word.value)) :
      FoldsTo .max inputs (cellValue Word.value (gather Max.max cells))
  | maxString {inputs} {cells : List (Option String)}
      (h : inputs.flatten = cells.map (cellValue .string)) :
      FoldsTo .max inputs (cellValue .string (gather Max.max cells))

theorem FoldsTo.merging {inputs : List (List Value)} {v : Value} (h : FoldsTo b inputs v) :
    ∃ g : Merging b, g.fine inputs ∧ g.total inputs = v := by
  cases h with
  | count h => exact ⟨countMerging, h, rfl⟩
  | sum h hlight => exact ⟨sumFold.merging, sumFold.merging_of_values h hlight⟩
  | minWord h => exact ⟨_, (minFold wordsRanked).merging_of_values h (sum_weightless _)⟩
  | minString h => exact ⟨_, (minFold stringsRanked).merging_of_values h (sum_weightless _)⟩
  | maxWord h => exact ⟨_, (maxFold wordsRanked).merging_of_values h (sum_weightless _)⟩
  | maxString h => exact ⟨_, (maxFold stringsRanked).merging_of_values h (sum_weightless _)⟩

theorem single_instructions (items : List (List Expr × List Value)) :
    (single items).map (b.moveInstruction sig) ++ [.result 0] =
      b.regular sig (items.map Prod.fst) := by
  rw [single, regular, List.map_append, List.map_map, List.map_map]
  rfl

/-- Calls merged into one, in whatever order, have the result of a single call that is fed what
each of them was fed, one call after the other: what all the inputs come to. -/
theorem merged_eq_single {types : List DataType} {returns : DataType} {nullable : Bool}
    (htyping : b.aggregate.typing types = .ok (returns, nullable)) (distinct : Bool)
    (c₁ c₂ : Config) {moves : List Move} {root k : Nat} (hmerge : MergesInto moves root k)
    {order : List Nat} (horder : order.Perm (List.range k)) (env : Env)
    (hfeeds : ∀ u args values, .add u args values ∈ moves → Feeds env types.length args values)
    {value : Value} (hvalue : FoldsTo b ((order.flatMap (fed moves)).map Prod.snd) value)
    (st₁ st₂ : Store) :
    let sig := Signature.of b.aggregate.name types returns nullable distinct
    ∃ es₁ w₁ e₁ es₂ w₂ e₂,
      (start c₁).record (moves.map (b.moveInstruction sig) ++ [.result root]) = .ok (es₁, w₁) ∧
      answer? es₁ = some e₁ ∧
      (start c₂).record (b.regular sig ((order.flatMap (fed moves)).map Prod.fst)) =
        .ok (es₂, w₂) ∧ answer? es₂ = some e₂ ∧
      Completes (Stmt.runAll env st₁ w₁.pass.draft.stmts)
        (fun st => e₁.eval env st = .ok value) ∧
      Completes (Stmt.runAll env st₂ w₂.pass.draft.stmts)
        (fun st => e₂.eval env st = .ok value) := by
  intro sig
  have hn : b.Admits sig.arity := admits_of_typing htyping
  obtain ⟨g, hfine, rfl⟩ := hvalue.merging
  let items := order.flatMap (fed moves)
  have hitems : items.Perm (moves.flatMap added) := by
    obtain ⟨ledger, _, hmoves, rfl, _, _⟩ := hmerge
    exact (horder.flatMap_right _).trans (fed_perm (followAll_lt hmoves).2)
  have hinputs := hitems.map Prod.snd
  obtain ⟨es₁, w₁, e₁, h₁, he₁, hrun₁⟩ := merged_total g hn c₁ hmerge env hfeeds
    (g.fine_of_perm hinputs.symm hfine) st₁
  have hsingle : ∀ u args values, .add u args values ∈ single items →
      Feeds env sig.arity args values := by
    intro u args values hadd
    have hmem : (args, values) ∈ (single items).flatMap added :=
      List.mem_flatMap.mpr ⟨_, hadd, List.mem_singleton_self _⟩
    rw [single_added] at hmem
    obtain ⟨m, hm, hadded⟩ := List.mem_flatMap.mp (hitems.mem_iff.mp hmem)
    cases m with
    | create | reset | merge => simp [added] at hadded
    | add u' args' values' =>
      obtain ⟨rfl, rfl⟩ := Prod.mk.inj (List.mem_singleton.mp hadded)
      exact hfeeds u' _ _ hm
  have hfine₂ : g.fine (((single items).flatMap added).map Prod.snd) := by
    rw [single_added]
    exact hfine
  obtain ⟨es₂, w₂, e₂, h₂, he₂, hrun₂⟩ :=
    merged_total g hn c₂ (single_mergesInto items) env hsingle hfine₂ st₂
  rw [single_instructions] at h₂
  rw [single_added] at hrun₂
  rw [← g.total_of_perm hinputs] at hrun₁
  exact ⟨es₁, w₁, e₁, es₂, w₂, e₂, h₁, he₁, h₂, he₂, hrun₁, hrun₂⟩

/-- Three sums, the second of them of NULL only, merged from the last to the first. -/
def threeSums : List Move :=
  [.create, .create, .create, .reset 2, .reset 1, .reset 0, .add 2 [.int 7] [.int 7],
    .add 1 [.null] [.null], .merge 1 2, .add 0 [.int 5] [.int 5], .merge 0 1]

def mergedSum : Signature := .of "sum" [.int] .int true false

theorem three_sums_merged : ∃ es w e,
    (start (.strict "agg")).record
      (threeSums.map (sum.moveInstruction mergedSum) ++ [.result 0]) = .ok (es, w) ∧
    answer? es = some e ∧ Completes (Stmt.runAll ⟨[], none⟩ .fresh w.pass.draft.stmts)
      fun st => e.eval ⟨[], none⟩ st = .ok (.int 12) := by
  have htyping : sum.aggregate.typing [.int] = .ok (.int, true) := rfl
  have hmerge : MergesInto threeSums 0 3 := by
    refine ⟨_, _, rfl, rfl, rfl, ?_⟩
    intro u hu hne
    match u with
    | 1 | 2 => rfl
  have hliteral (l : Literal) : Feeds ⟨[], none⟩ 1 [.literal l] [l.value] :=
    ⟨rfl, by simp [Expr.slots], fun _ => .cons rfl .nil⟩
  have hfeeds : ∀ u args values, .add u args values ∈ threeSums →
      Feeds ⟨[], none⟩ [DataType.int].length args values := by
    intro u args values hadd
    simp only [threeSums, List.mem_cons, Move.add.injEq, reduceCtorEq, List.not_mem_nil, false_or,
      or_false] at hadd
    rcases hadd with ⟨_, rfl, rfl⟩ | ⟨_, rfl, rfl⟩ | ⟨_, rfl, rfl⟩
    · exact hliteral (.int 7)
    · exact hliteral .null
    · exact hliteral (.int 5)
  have hcells : (([2, 0, 1].flatMap (fed threeSums)).map Prod.snd).flatten =
      [some 7, some 5, none].map (cellValue .int) := rfl
  have hvalue : FoldsTo .sum _ (.int 12) := .sum hcells (by decide)
  obtain ⟨es, w, e, _, _, _, h, he, _, _, hrun, _⟩ :=
    merged_eq_single htyping false (.strict "agg") (.relaxed "agg") hmerge
      (show [2, 0, 1].Perm (List.range 3) by decide) ⟨[], none⟩ hfeeds hvalue .fresh .fresh
  exact ⟨es, w, e, h, he, hrun⟩

end Builtin
end WindowFold
