import WindowFold.Proofs.Builtin.Account
import WindowFold.Proofs.Builtin.Windowed
import WindowFold.Proofs.Pass.Names

/-!
# Calls driven in any order

A call that has been reset is then reset, added to and asked for its result in any order and as
often as one likes, every result being bound.  For the functions whose result can be read off the
list of what has been added, the block runs to its end and each bound local holds at the end what
the rows come to that were added since the last reset before it (`trace_bound`).

The code of the events is laid out by `traceEntries`.  The run follows the list of rows through
the account of the function; a local once bound is named by no later statement.
-/

namespace WindowFold

/-- Something that is done to a call. -/
inductive Event where
  | reset
  /-- Add the columns of a row. -/
  | add (row : Nat)
  /-- Ask for the result and bind it. -/
  | report (name : String)

namespace Event

def isAdd : Event → Bool
  | .add _ => true
  | _ => false

def isReport : Event → Bool
  | .report _ => true
  | _ => false

/-- The rows that count after an event, given those that counted before it. -/
def follow (seen : List Nat) : Event → List Nat
  | .reset => []
  | .add r => seen ++ [r]
  | .report _ => seen

/-- The rows added since the last reset. -/
def sinceReset (events : List Event) : List Nat := events.foldl follow []

theorem sinceReset_snoc (events : List Event) (e : Event) :
    sinceReset (events ++ [e]) = follow (sinceReset events) e := by
  rw [sinceReset, List.foldl_append]
  rfl

end Event

/-- Code that names no local leaves all locals alone. -/
theorem Completes.keepsLocals {env : Env} {st : Store} {ss : List Stmt} {P : Store → Prop}
    (h : Completes (Stmt.runAll env st ss) P) (hss : Stmt.localsAll ss = []) :
    Completes (Stmt.runAll env st ss) fun st' => P st' ∧ st'.locals = st.locals := by
  obtain ⟨st', hrun, hP⟩ := h
  refine ⟨st', hrun, hP, ?_⟩
  funext x
  have hkept := Stmt.runAll_locals_of_not_mem env st x ss (by simp [hss])
  rw [hrun] at hkept
  exact hkept

def Config.localName (c : Config) (name : String) (k : Nat) : String :=
  c.localStem ++ "_" ++ name ++ "_" ++ toString k

theorem Pass.bindingName_eq (p : Pass) (name : String) :
    p.bindingName name = p.config.localName name p.bindings := rfl

namespace Builtin

open Workspace

/-! ## What is done for an event -/

/-- A report binds the expression that the result phase will be found to reply. -/
def eventInstructions (b : Builtin) (n : Nat) : Event → List Instruction
  | .reset => [.reset 0]
  | .add r => [.add 0 (columnsAt n (.int r))]
  | .report name => [.result 0, .bind name (b.resultExpr SlotId.mk)]

/-- Create a call, reset it and go on with events. -/
def traced (b : Builtin) (sig : Signature) (events : List Event) : List Instruction :=
  [.create sig b.aggregate, .reset 0] ++ events.flatMap (b.eventInstructions sig.arity)

/-- The local bound by the report with this number. -/
def reported (config : Config) (name : String) (k : Nat) : Local := ⟨⟨k⟩, config.localName name k⟩

def eventEntries (b : Builtin) (config : Config) (n k : Nat) : Event → List Entry
  | .reset => [⟨.reset 0, b.resetCode SlotId.mk, .done⟩]
  | .add r =>
    [⟨.add 0 (columnsAt n (.int r)), b.addCode SlotId.mk (columnsAt n (.int r)), .done⟩]
  | .report name =>
    let x := reported config name k
    let v := b.resultExpr SlotId.mk
    [⟨.result 0, [], .value v⟩, ⟨.bind name v, [.declare x.id x.name v], .bound x⟩]

/-- The entries of events, reports being numbered from `k` on. -/
def traceEntries (b : Builtin) (config : Config) (n : Nat) : Nat → List Event → List Entry
  | _, [] => []
  | k, e :: rest =>
    b.eventEntries config n k e ++ b.traceEntries config n (if e.isReport then k + 1 else k) rest

theorem traceEntries_append (b : Builtin) (config : Config) (n k : Nat)
    (before after : List Event) :
    b.traceEntries config n k (before ++ after) = b.traceEntries config n k before ++
      b.traceEntries config n (k + before.countP Event.isReport) after := by
  induction before generalizing k with
  | nil => rfl
  | cons e rest ih =>
    rw [List.cons_append, traceEntries, traceEntries, ih, List.append_assoc]
    have hcount : (if e.isReport then k + 1 else k) + rest.countP Event.isReport =
        k + (e :: rest).countP Event.isReport := by
      rw [List.countP_cons]
      split <;> omega
    rw [hcount]

theorem traceEntries_instructions (b : Builtin) (config : Config) (n k : Nat)
    (events : List Event) : (b.traceEntries config n k events).map Entry.instruction =
      events.flatMap (b.eventInstructions n) := by
  induction events generalizing k with
  | nil => rfl
  | cons e rest ih =>
    rw [traceEntries, List.map_append, ih, List.flatMap_cons]
    cases e <;> rfl

/-- Events go through one after the other once the call has been reset. -/
theorem record_trace {b : Builtin} (hw : b.aggregate.windowOnly = false) {config : Config}
    {events : List Event} (hnames : ∀ name, .report name ∈ events → config.Names name)
    {p : Pass} {t : Tally} (hcall : b.Call SlotId.mk t) (hr : t.ready = true)
    (hp : p.config = config) (hlocals : p.draft.declared.length = p.bindings) :
    ∃ w, (Workspace.mk p [t]).record (events.flatMap (b.eventInstructions t.signature.arity)) =
      .ok (b.traceEntries config t.signature.arity p.bindings events, w) := by
  induction events generalizing p t with
  | nil => exact ⟨_, rfl⟩
  | cons e rest ih =>
    have hrest : ∀ name, .report name ∈ rest → config.Names name :=
      fun name h => hnames name (List.mem_cons_of_mem _ h)
    cases e with
    | reset =>
      let t' : Tally := { t with ready := true }
      have hcall' : b.Call SlotId.mk t' := ⟨hcall.aggregate, hcall.fits⟩
      obtain ⟨w, h⟩ := ih hrest (p := p.extend (b.resetCode SlotId.mk)) hcall' rfl hp hlocals
      exact ⟨w, record_cons_extend (hcall.step_reset hw rfl) h⟩
    | add r =>
      let args := columnsAt t.signature.arity (.int r)
      have hargs := columnsAt_arguments t.signature.arity
      have hadd := hcall.step_add (w := ⟨p, [t]⟩) (u := 0) hw hr rfl
        (hargs.length (.int r)) (hargs.slotFree (.int r) rfl)
      obtain ⟨w, h⟩ := ih hrest (p := p.extend (b.addCode SlotId.mk args)) hcall hr hp hlocals
      exact ⟨w, record_cons_extend hadd h⟩
    | report name =>
      let v := b.resultExpr SlotId.mk
      let x := reported config name p.bindings
      have hbind : Pass.bind name v p = .ok x (p.declared x v) := by
        have hname : p.config.Names name := by
          rw [hp]
          exact hnames name List.mem_cons_self
        have hx : x = ⟨⟨p.draft.declared.length⟩, p.bindingName name⟩ := by
          rw [hlocals, Pass.bindingName_eq, hp]
          rfl
        rw [hx]
        exact Pass.bind_of_names hname v
      have hstep : (Workspace.mk p [t]).step (.bind name v) =
          (⟨p.declared x v, [t]⟩, .ok (.bound x)) :=
        act_ok.mpr ⟨PassM.map_ok.mpr ⟨x, hbind, rfl⟩, rfl⟩
      have hcount : (p.declared x v).draft.declared.length = (p.declared x v).bindings := by
        show (p.draft.declared ++ [x]).length = p.bindings + 1
        rw [List.length_append, hlocals, List.length_singleton]
      obtain ⟨w, h⟩ := ih hrest (p := p.declared x v) hcall hr hp hcount
      have hbound := record_cons_ok.mpr ⟨_, _, _, hstep, h, rfl⟩
      rw [(Pass.bind_ok hbind).1.since] at hbound
      have hreport := record_append
        (record_answer (hcall.step_result (w := ⟨p, [t]⟩) (u := 0) hw hr rfl)) hbound
      exact ⟨w, hreport⟩

/-! ## Runs -/

theorem resetCode_locals (b : Builtin) (s : Nat → SlotId) :
    Stmt.localsAll (b.resetCode s) = [] := by
  cases b <;> rfl

theorem addCode_locals (b : Builtin) (s : Nat → SlotId) {args : List Expr}
    (hargs : ∀ v ∈ args, v.locals = []) : Stmt.localsAll (b.addCode s args) = [] := by
  cases args with
  | nil => cases b <;> rfl
  | cons v rest =>
    have hv : v.locals = [] := hargs v List.mem_cons_self
    cases b <;> simp [addCode, addValueCode, sumCode, improveCode, Stmt.localsAll, Stmt.locals,
      Expr.locals, Expr.isNotNull, Expr.isNull, Expr.not, Expr.or, Expr.add, Expr.int, Expr.bool,
      hv]

/-- The first columns of a row are read where the row is there and long enough. -/
theorem columnsAt_evaluate {rows : List (List Value)} (hlen : IsWord rows.length)
    (hcols : ∀ row ∈ rows, 1 ≤ row.length) {n : Nat} (hn : n ≤ 1) {r : Nat} (hr : r < rows.length)
    (frame : Option FrameFacts) (st : Store) :
    Evaluate ⟨rows, frame⟩ st (columnsAt n (.int r)) ((rows[r]?.getD []).take n) := by
  rcases Nat.le_one_iff_eq_zero_or_eq_one.mp hn with rfl | rfl
  · exact .nil
  · have hrow : rows[r]? = some rows[r] := List.getElem?_eq_getElem hr
    have hfirst : rows[r].take 1 = [headOf rows r] := by
      have hpos := hcols _ (List.getElem_mem hr)
      rw [headOf, hrow, Option.bind_some]
      cases h : rows[r] with
      | nil => simp [h] at hpos
      | cons v rest => rfl
    rw [hrow, Option.getD_some, hfirst]
    exact .cons (argument_eval hlen hcols hr frame st) .nil

section

variable {b : Builtin} {config : Config} {env : Env} {n : Nat} {values : Nat → List Value}

/-- One event: the slots carry what its rows come to, locals bound before are kept, and a report
binds the next one. -/
theorem event_runs (a : Account b) (e : Event)
    (hfine : ∀ inputs, inputs.length < 0x8000000000000000 → a.fine inputs)
    (hvalues : ∀ r, e = .add r → (values r).length ≤ 1 ∧
      ∀ st, Evaluate env st (columnsAt n (.int r)) (values r))
    {seen : List Nat} (hcount : seen.length + 1 < 0x8000000000000000 ∨ e.isAdd = false) (k : Nat)
    {st : Store} (hst : st.Carries SlotId.mk (a.contents (seen.map values))) :
    Completes (Stmt.runAll env st (emittedBy (b.eventEntries config n k e))) fun st' =>
      st'.Carries SlotId.mk (a.contents ((e.follow seen).map values)) ∧
      (∀ j < k, st'.locals ⟨j⟩ = st.locals ⟨j⟩) ∧
      (e.isReport = true → st'.locals ⟨k⟩ = some (a.total (seen.map values))) := by
  cases e with
  | reset =>
    have hreset := (a.reset SlotId.mk env st SlotId.mk_injective).keepsLocals (b.resetCode_locals _)
    simp only [eventEntries, emittedBy, List.flatMap_singleton]
    refine hreset.mono fun st' h => ⟨h.1, fun j _ => by rw [h.2], ?_⟩
    simp [Event.isReport]
  | add r =>
    obtain ⟨hlen, heval⟩ := hvalues r rfl
    have hroom : (seen.map values ++ [values r]).length < 0x8000000000000000 := by
      rw [List.length_append, List.length_map, List.length_singleton]
      exact hcount.resolve_right (by simp [Event.isAdd])
    have hruns := a.add SlotId.mk env st _ _ _ SlotId.mk_injective (hfine _ hroom) hlen hst (heval st)
    have hadd := hruns.keepsLocals (b.addCode_locals _ fun v hv => by
      obtain ⟨i, _, rfl⟩ := List.mem_map.mp hv
      rfl)
    simp only [eventEntries, emittedBy, List.flatMap_singleton, Event.follow, List.map_append,
      List.map_singleton]
    refine hadd.mono fun st' h => ⟨h.1, fun j _ => by rw [h.2], ?_⟩
    simp [Event.isReport]
  | report name =>
    have heval := a.result_eval hst env
    refine ⟨st.setLocal ⟨k⟩ (a.total (seen.map values)), ?_, ?_, ?_, ?_⟩
    · simp [eventEntries, emittedBy, reported, Stmt.runAll, Stmt.run, heval]
    · exact hst.congr fun _ _ => rfl
    · intro j hj
      have hne : LocalId.mk j ≠ ⟨k⟩ := fun h => Nat.ne_of_lt hj (congrArg LocalId.index h)
      simp [hne]
    · simp

/-- The run of the events: locals bound before are kept, and each report binds what the rows come
to that count at the time. -/
theorem trace_runs (a : Account b) {events : List Event}
    (hfine : ∀ inputs, inputs.length < 0x8000000000000000 → a.fine inputs)
    (hvalues : ∀ r, .add r ∈ events → (values r).length ≤ 1 ∧
      ∀ st, Evaluate env st (columnsAt n (.int r)) (values r))
    {seen : List Nat} (hcount : seen.length + events.countP Event.isAdd < 0x8000000000000000)
    (k : Nat) {st : Store} (hst : st.Carries SlotId.mk (a.contents (seen.map values))) :
    Completes (Stmt.runAll env st (emittedBy (b.traceEntries config n k events))) fun st' =>
      (∀ j < k, st'.locals ⟨j⟩ = st.locals ⟨j⟩) ∧
      ∀ before name after, events = before ++ .report name :: after →
        st'.locals ⟨k + before.countP Event.isReport⟩ =
          some (a.total ((before.foldl Event.follow seen).map values)) := by
  induction events generalizing seen k st with
  | nil =>
    refine ⟨st, rfl, fun _ _ => rfl, ?_⟩
    intro before name after h
    simp at h
  | cons e rest ih =>
    rw [List.countP_cons] at hcount
    have hroom : seen.length + 1 < 0x8000000000000000 ∨ e.isAdd = false := by
      by_cases hadd : e.isAdd = true
      · rw [if_pos hadd] at hcount
        exact .inl (by omega)
      · exact .inr (Bool.eq_false_iff.mpr hadd)
    have hseen : (e.follow seen).length + rest.countP Event.isAdd < 0x8000000000000000 := by
      have hlen : (e.follow seen).length ≤ seen.length + if e.isAdd then 1 else 0 := by
        cases e <;> simp [Event.follow, Event.isAdd]
      omega
    rw [traceEntries, emittedBy_append]
    refine (event_runs a e hfine (fun r he => hvalues r (he ▸ List.mem_cons_self)) hroom k
      hst).append fun st₁ h₁ => ?_
    obtain ⟨hcarries, hkept, hbound⟩ := h₁
    refine (ih (fun r hr => hvalues r (List.mem_cons_of_mem _ hr)) hseen _ hcarries).mono ?_
    intro st' h'
    obtain ⟨hkept', hbound'⟩ := h'
    have hk : k ≤ if e.isReport then k + 1 else k := by split <;> omega
    refine ⟨fun j hj => (hkept' j (by omega)).trans (hkept j hj), ?_⟩
    intro before name after h
    cases before with
    | nil =>
      obtain ⟨rfl, rfl⟩ := List.cons.inj h
      rw [List.countP_nil, Nat.add_zero, List.foldl_nil]
      exact (hkept' k (Nat.lt_succ_self k)).trans (hbound rfl)
    | cons e' before =>
      obtain ⟨rfl, hrest⟩ := List.cons.inj h
      have hindex : (if e.isReport then k + 1 else k) + before.countP Event.isReport =
          k + (e :: before).countP Event.isReport := by
        rw [List.countP_cons]
        split <;> omega
      rw [← hindex]
      exact hbound' before name after hrest

end

/-! ## What the locals hold -/

/-- The functions whose result can be read off the arguments of the adds, and how. -/
inductive Amounts : Builtin → (List (List Value) → Value) → Prop
  | count : Amounts .count fun inputs => .int (inputs.countP counted)
  | arrayAgg : Amounts .arrayAgg fun inputs => .array inputs.flatten
  | firstValue : Amounts .firstValue fun inputs => inputs.flatten.head?.getD .null
  | lastValue : Amounts .lastValue fun inputs => inputs.flatten.getLast?.getD .null

theorem Amounts.account {b : Builtin} {f : List (List Value) → Value} (h : Amounts b f) :
    ∃ a : Account b, a.total = f ∧
      ∀ inputs, inputs.length < 0x8000000000000000 → a.fine inputs := by
  cases h with
  | count => exact ⟨countAccount, rfl, fun _ h => h⟩
  | arrayAgg => exact ⟨arrayAccount, rfl, fun _ _ => trivial⟩
  | firstValue => exact ⟨firstAccount, rfl, fun _ _ => trivial⟩
  | lastValue => exact ⟨lastAccount, rfl, fun _ _ => trivial⟩

theorem Amounts.admits {b : Builtin} {f : List (List Value) → Value} (h : Amounts b f) {n : Nat}
    (hn : b.Admits n) : n ≤ 1 := by
  cases h with
  | count => exact hn
  | arrayAgg | firstValue | lastValue => exact Nat.le_of_eq hn

theorem Amounts.windowOnly {b : Builtin} {f : List (List Value) → Value} (h : Amounts b f) :
    b.aggregate.windowOnly = false := by
  cases h <;> rfl

/-- Whatever is done to a call after its reset, the block runs to its end, and every local that a
result was bound to holds what the rows come to that were added since the last reset before. -/
theorem trace_bound {b : Builtin} {f : List (List Value) → Value} (hf : Amounts b f)
    {types : List DataType} {returns : DataType} {nullable : Bool}
    (htyping : b.aggregate.typing types = .ok (returns, nullable)) (distinct : Bool)
    (config : Config) {rows : List (List Value)} (hlen : IsWord rows.length)
    (hcols : ∀ row ∈ rows, 1 ≤ row.length) (frame : Option FrameFacts) {events : List Event}
    (hrows : ∀ r, .add r ∈ events → r < rows.length)
    (hadds : events.countP Event.isAdd < 0x8000000000000000)
    (hnames : ∀ name, .report name ∈ events → config.Names name) :
    let sig := Signature.of b.aggregate.name types returns nullable distinct
    let arguments := fun r : Nat => (rows[r]?.getD []).take types.length
    ∃ es w st, (start config).record (b.traced sig events) = .ok (es, w) ∧
      Stmt.runAll ⟨rows, frame⟩ .fresh w.pass.draft.stmts = (st, .ok ()) ∧
      ∀ before name after, events = before ++ .report name :: after →
        ∃ es₁ v x es₂, es = es₁ ++ ⟨.result 0, [], .value v⟩ ::
            ⟨.bind name v, [.declare x.id x.name v], .bound x⟩ :: es₂ ∧
          es₁.map Entry.instruction = b.traced sig before ∧
          st.locals x.id = some (f ((Event.sinceReset before).map arguments)) := by
  intro sig arguments
  have hsig : b.Admits sig.arity := admits_of_typing htyping
  have hn : types.length ≤ 1 := hf.admits hsig
  have hw := hf.windowOnly
  obtain ⟨a, rfl, hfine⟩ := hf.account
  let trace := b.traceEntries config types.length 0
  let opened : Entry := ⟨.reset 0, b.resetCode SlotId.mk, .done⟩
  have hrecord : ∃ w, (start config).record (b.traced sig events) =
      .ok (⟨.create sig b.aggregate, [], .done⟩ :: opened :: trace events, w) := by
    refine record_of_create hsig ?_
    intro p t hp hdeclared hbindings hcall ht
    let opened : Tally := { t with ready := true }
    have hopened : b.Call SlotId.mk opened := ⟨hcall.aggregate, hcall.fits⟩
    have harity : opened.signature.arity = types.length := by
      rw [ht]
      rfl
    obtain ⟨w, h⟩ := record_trace hw hnames (p := p.extend (b.resetCode SlotId.mk)) hopened rfl hp
      (by show p.draft.declared.length = p.bindings; rw [hdeclared, hbindings]; rfl)
    rw [harity, show (p.extend (b.resetCode SlotId.mk)).bindings = 0 from hbindings] at h
    exact ⟨w, record_cons_extend (hcall.step_reset hw rfl) h⟩
  obtain ⟨w, hrecord⟩ := hrecord
  -- The reset comes first and makes the slots carry what no rows come to.
  have hrun : Completes (Stmt.runAll ⟨rows, frame⟩ .fresh w.pass.draft.stmts) fun st =>
      ∀ before name after, events = before ++ .report name :: after →
        st.locals ⟨0 + before.countP Event.isReport⟩ =
          some (a.total ((Event.sinceReset before).map arguments)) := by
    rw [record_stmts hrecord]
    refine (a.reset SlotId.mk _ _ SlotId.mk_injective).append fun st hst => ?_
    have hst : st.Carries SlotId.mk (a.contents (([] : List Nat).map arguments)) := hst
    have hcount : ([] : List Nat).length + events.countP Event.isAdd < 0x8000000000000000 := by
      rw [List.length_nil, Nat.zero_add]
      exact hadds
    refine (trace_runs a hfine ?_ hcount 0 hst).mono fun _ h => h.2
    intro r hr
    refine ⟨Nat.le_trans (List.length_take_le _ _) hn, ?_⟩
    exact columnsAt_evaluate hlen hcols hn (hrows r hr) frame
  obtain ⟨st, hrun, hlocals⟩ := hrun
  refine ⟨_, w, st, hrecord, hrun, ?_⟩
  intro before name after hsplit
  let k := 0 + before.countP Event.isReport
  refine ⟨⟨.create sig b.aggregate, [], .done⟩ :: opened :: trace before, b.resultExpr SlotId.mk,
    reported config name k, b.traceEntries config types.length (k + 1) after, ?_, ?_,
    hlocals before name after hsplit⟩
  · simp only [trace]
    rw [hsplit, traceEntries_append]
    rfl
  · simp only [List.map_cons, trace, traceEntries_instructions]
    rfl

/-- Two rounds of `array_agg` over a column, the second after another reset. -/
def twoRounds : List Event :=
  [.add 1, .add 0, .report "a", .reset, .report "b", .add 0, .report "c"]

theorem array_of_two_rounds : ∃ es w st,
    (start (.strict "agg")).record
      (arrayAgg.traced (.of "array_agg" [.int] .array false false) twoRounds) = .ok (es, w) ∧
    Stmt.runAll ⟨[[.int 5], [.null]], none⟩ .fresh w.pass.draft.stmts = (st, .ok ()) ∧
    ∃ a b c : LocalId, st.locals a = some (.array [.null, .int 5]) ∧
      st.locals b = some (.array []) ∧ st.locals c = some (.array [.int 5]) := by
  have hlen : IsWord ([[.int 5], [.null]] : List (List Value)).length := by decide
  have hcols : ∀ row ∈ ([[.int 5], [.null]] : List (List Value)), 1 ≤ row.length := by decide
  have hrows : ∀ r, Event.add r ∈ twoRounds →
      r < ([[.int 5], [.null]] : List (List Value)).length := by
    intro r hr
    simp only [twoRounds, List.mem_cons, Event.add.injEq, reduceCtorEq, List.not_mem_nil,
      or_false, false_or] at hr
    simp only [List.length_cons, List.length_nil]
    omega
  have hnames : ∀ name, Event.report name ∈ twoRounds → (Config.strict "agg").Names name := by
    intro name hname
    simp only [twoRounds, List.mem_cons, Event.report.injEq, reduceCtorEq, List.not_mem_nil,
      or_false, false_or] at hname
    rcases hname with rfl | rfl | rfl <;> exact ⟨.inr (by decide), by decide⟩
  have htyping : arrayAgg.aggregate.typing [.int] = .ok (.array, false) := rfl
  obtain ⟨es, w, st, hrecord, hrun, hbound⟩ := trace_bound .arrayAgg htyping false
    (.strict "agg") hlen hcols none hrows (by decide) hnames
  obtain ⟨_, _, a, _, _, _, ha⟩ := hbound [.add 1, .add 0] "a" _ rfl
  obtain ⟨_, _, b, _, _, _, hb⟩ := hbound [.add 1, .add 0, .report "a", .reset] "b" _ rfl
  obtain ⟨_, _, c, _, _, _, hc⟩ :=
    hbound [.add 1, .add 0, .report "a", .reset, .report "b", .add 0] "c" _ rfl
  exact ⟨es, w, st, hrecord, hrun, a.id, b.id, c.id, ha, hb, hc⟩

end Builtin
end WindowFold
