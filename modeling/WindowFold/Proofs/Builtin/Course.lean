import Mathlib.Data.List.Infix
import WindowFold.Proofs.Builtin.Trace
import WindowFold.Proofs.Workspace.Reports

/-!
# Calls that may stop the run

A call of a function of one argument is taken through resets, adds and reports, a report whose name
is refused being passed over (`Builtin.tried`).  What an add makes of the state depends on the value
alone, and may be an error (`Accrual`).  The block then runs as the states go: to its end, with each
bound local holding the result of the state it was bound in (`Accrual.runs`), or up to the first add
that fails, which leaves everything as it was before (`Accrual.stops`).

A report asks for the result and binds an expression.  That this is the one that came back is part
of what it is to bind a result (`Binds`), and it is so for each report (`tried_answered`).
-/

namespace WindowFold

/-- Steps that may fail, and one more. -/
theorem foldlM_snoc {α ε σ : Type} (f : σ → α → Except ε σ) (x : σ) (l : List α) (a : α) :
    (l ++ [a]).foldlM f x = (l.foldlM f x).bind fun y => f y a := by
  rw [List.foldlM_append]
  show Except.bind _ _ = _
  congr 1
  funext y
  rw [List.foldlM_cons]
  cases f y a <;> rfl

/-- A binding keeps all that there is, and its local holds the value of the result. -/
theorem bindCode_runs {env : Env} {st : Store} {v : Expr} {x : Value}
    (h : v.eval env st = .ok x) (p : Pass) (name : String) :
    Completes (Stmt.runAll env st (p.bindCode name v)) fun st' =>
      st'.slots = st.slots ∧
      (∀ z : LocalId, z.index < p.draft.declared.length → st'.locals z = st.locals z) ∧
      (validName (p.bindingName name) = true →
        st'.locals (p.nextLocal name).id = some x) := by
  by_cases hname : validName (p.bindingName name) = true
  · rw [Pass.bindCode, if_pos hname, runAll_singleton, Stmt.run, h, proceed_ok]
    refine ⟨_, rfl, rfl, fun z hz => ?_, fun _ => ?_⟩
    · have hne : z ≠ (p.nextLocal name).id := by
        rintro rfl
        exact Nat.lt_irrefl _ hz
      rw [Store.setLocal_locals, if_neg hne]
    · rw [Store.setLocal_locals, if_pos rfl]
  · rw [Pass.bindCode, if_neg hname]
    exact ⟨st, rfl, rfl, fun _ _ => rfl, fun hvalid => absurd hvalid hname⟩

namespace Builtin

open Workspace

/-! ## The block of the events -/

/-- The workspace after a call has been created, reset and taken through events, what is refused on
the way being passed over. -/
def tried (b : Builtin) (config : Config) (sig : Signature) (events : List Event) : Workspace :=
  ((start config).attempts (b.traced sig events)).2

/-- What a pass emits for an event.  A result is declared if its name is valid. -/
def eventCode (b : Builtin) (n : Nat) (p : Pass) : Event → List Stmt
  | .reset => b.resetCode SlotId.mk
  | .add r => b.addCode SlotId.mk (columnsAt n (.int r))
  | .report name =>
    if validName (p.bindingName name) then
      [.declare (p.nextLocal name).id (p.nextLocal name).name (b.resultExpr SlotId.mk)]
    else []

/-- Only the name of a result is ever refused. -/
def OnlyNamesRefused (is : List Instruction) (rs : List (Except EmitError Reply)) : Prop :=
  ∀ i r, (i, r) ∈ is.zip rs → ∀ e, r = .error e → ∃ name v n, i = .bind name v ∧ e = .invalidName n

theorem onlyNamesRefused_ok {is : List Instruction} {rs : List (Except EmitError Reply)}
    (h : ∀ r ∈ rs, ∃ a, r = .ok a) : OnlyNamesRefused is rs := by
  intro i r hmem e he
  obtain ⟨a, ha⟩ := h r (List.of_mem_zip hmem).2
  rw [ha] at he
  cases he

theorem OnlyNamesRefused.append {is is' : List Instruction}
    {rs rs' : List (Except EmitError Reply)} (h : OnlyNamesRefused is rs)
    (h' : OnlyNamesRefused is' rs') (hlen : is.length = rs.length) :
    OnlyNamesRefused (is ++ is') (rs ++ rs') := by
  intro i r hmem
  rw [List.zip_append hlen] at hmem
  exact (List.mem_append.mp hmem).elim (h i r) (h' i r)

/-- Nothing is refused but names, and the results that are asked for are bound as they come back. -/
structure Answered (w : Workspace) (is : List Instruction) : Prop where
  refused : OnlyNamesRefused is (w.attempts is).1
  bound : w.BindsReplies is

theorem Answered.append {w : Workspace} {is is' : List Instruction} (h : Answered w is)
    (h' : Answered (w.attempts is).2 is') : Answered w (is ++ is') where
  refused := by
    rw [attempts_append]
    exact h.refused.append h'.refused (attempts_length _ _).symm
  bound := h.bound.append h'.bound

/-- Nothing is refused, and no result is asked for. -/
theorem answered_of_ok {w : Workspace} {is : List Instruction} (hnone : ∀ u, .result u ∉ is)
    (h : ∀ r ∈ (w.attempts is).1, ∃ a, r = .ok a) : Answered w is :=
  ⟨onlyNamesRefused_ok h, bindsReplies_of_none w hnone⟩

theorem answered_of_step {w w' : Workspace} {i : Instruction} {a : Reply}
    (hi : ∀ u, i ≠ .result u) (h : w.step i = (w', .ok a)) : Answered w [i] := by
  refine answered_of_ok (fun u hmem => hi u (List.mem_singleton.mp hmem).symm) ?_
  rw [attempts_singleton h]
  exact fun r hr => ⟨a, List.mem_singleton.mp hr⟩

/-- The pass has the one call, which is ready. -/
structure Drives (b : Builtin) (config : Config) (sig : Signature) (w : Workspace) : Prop where
  config : w.pass.config = config
  call : ∃ t, w.tallies = [t] ∧ b.Call SlotId.mk t ∧ t.signature = sig ∧ t.ready = true

variable {b : Builtin} {config : Config} {sig : Signature} {w : Workspace}

theorem Drives.result (h : b.Drives config sig w) (hw : b.aggregate.windowOnly = false) :
    w.step (.result 0) = (w, .ok (.value (b.resultExpr SlotId.mk))) := by
  obtain ⟨t, hts, hcall, _, hr⟩ := h.call
  exact hcall.step_result hw hr (by rw [hts]; rfl)

/-- What comes of an event: its code, and a local if a result has been bound. -/
structure Follows (b : Builtin) (config : Config) (sig : Signature) (w : Workspace) (e : Event)
    (w' : Workspace) : Prop where
  drives : b.Drives config sig w'
  stmts : w'.pass.draft.stmts = w.pass.draft.stmts ++ b.eventCode sig.arity w.pass e
  declared : w.pass.draft.declared.length ≤ w'.pass.draft.declared.length
  bound : ∀ name, e = .report name → validName (w.pass.bindingName name) = true →
    w'.pass.draft.declared.length = w.pass.draft.declared.length + 1

/-- A result that is asked for and bound. -/
theorem attempts_report {u : Nat} {v : Expr} (hresult : w.step (.result u) = (w, .ok (.value v)))
    (name : String) :
    let is : List Instruction := [.result u, .bind name v]
    (w.attempts is).2 = (w.step (.bind name v)).1 ∧ Answered w is := by
  intro is
  refine ⟨by simp only [is, attempts, hresult], ?_,
    bindsReplies_report (congrArg Prod.snd hresult) name⟩
  simp only [is, attempts, hresult]
  intro i r hmem e he
  simp only [List.zip_cons_cons, List.zip_nil_left, List.mem_cons, List.not_mem_nil, or_false,
    Prod.mk.injEq] at hmem
  rcases hmem with ⟨rfl, rfl⟩ | ⟨rfl, rfl⟩
  · cases he
  · cases hname : validName (w.pass.bindingName name) with
    | true =>
      rw [step_bind_valid hname] at he
      cases he
    | false =>
      rw [step_bind_refused hname] at he
      exact ⟨_, _, _, rfl, (Except.error.inj he).symm⟩

theorem Drives.report (h : b.Drives config sig w) (hw : b.aggregate.windowOnly = false)
    (name : String) :
    let is := b.eventInstructions sig.arity (.report name)
    b.Follows config sig w (.report name) (w.attempts is).2 ∧ Answered w is := by
  intro is
  obtain ⟨hattempts, hanswered⟩ := attempts_report (h.result hw) name
  refine ⟨?_, hanswered⟩
  have hbind := step_bind w name (b.resultExpr SlotId.mk)
  rw [← hattempts] at hbind
  have hdeclared := hbind.declared
  obtain ⟨t, hts, hcall⟩ := h.call
  refine ⟨⟨hbind.config.trans h.config, t, hbind.tallies.trans hts, hcall⟩, hbind.stmts,
    hdeclared ▸ Nat.le_add_right _ _, ?_⟩
  intro name' hreport hvalid
  obtain rfl := Event.report.inj hreport
  rw [if_pos hvalid] at hdeclared
  exact hdeclared

theorem Drives.event (h : b.Drives config sig w) (hw : b.aggregate.windowOnly = false) (e : Event) :
    let is := b.eventInstructions sig.arity e
    b.Follows config sig w e (w.attempts is).2 ∧ Answered w is := by
  intro is
  have hreport := h.report hw
  obtain ⟨hconfig, t, hts, hcall, rfl, hr⟩ := h
  have ht : w.tallies[0]? = some t := by
    rw [hts]
    rfl
  cases e with
  | reset =>
    have hstep := hcall.step_reset hw ht
    have hcall' : b.Call SlotId.mk { t with ready := true } := ⟨hcall.aggregate, hcall.fits⟩
    refine ⟨?_, answered_of_step nofun hstep⟩
    rw [show is = [.reset 0] from rfl, attempts_singleton hstep]
    refine ⟨⟨hconfig, _, ?_, hcall', rfl, rfl⟩, rfl, Nat.le_refl _, nofun⟩
    rw [hts]
    rfl
  | add r =>
    have hargs := columnsAt_arguments t.signature.arity
    have hstep := hcall.step_add hw hr ht (hargs.length (.int r)) (hargs.slotFree (.int r) rfl)
    refine ⟨?_, answered_of_step nofun hstep⟩
    rw [show is = [.add 0 (columnsAt t.signature.arity (.int r))] from rfl,
      attempts_singleton hstep]
    exact ⟨⟨hconfig, t, hts, hcall, rfl, hr⟩, rfl, Nat.le_refl _, nofun⟩
  | report name => exact hreport name

theorem traced_snoc (b : Builtin) (sig : Signature) (events : List Event) (e : Event) :
    b.traced sig (events ++ [e]) = b.traced sig events ++ b.eventInstructions sig.arity e := by
  rw [traced, List.flatMap_append, List.flatMap_singleton, ← List.append_assoc]
  rfl

section

variable (hsig : b.Admits sig.arity) (hw : b.aggregate.windowOnly = false)
include hsig hw

/-- With no events yet there is the code of the reset. -/
theorem tried_nil : b.Drives config sig (b.tried config sig []) ∧
    (b.tried config sig []).pass.draft.stmts = b.resetCode SlotId.mk ∧
    Answered (start config) (b.traced sig []) := by
  obtain ⟨p, t, hcreate, hcall, ht, hconfig, hstmts, _, _⟩ := start_create hsig config
  have hreset := hcall.step_reset (w := ⟨p, [t]⟩) (u := 0) hw rfl
  have hattempts : (start config).attempts (b.traced sig []) = ([.ok .done, .ok .done],
      ⟨p.extend (b.resetCode SlotId.mk), [{ t with ready := true }]⟩) := by
    simp only [traced, List.flatMap_nil, List.append_nil, attempts, hcreate, hreset,
      List.set_cons_zero]
  have hopened : b.Call SlotId.mk { t with ready := true } := ⟨hcall.aggregate, hcall.fits⟩
  rw [tried, hattempts]
  refine ⟨⟨hconfig, _, rfl, hopened, ht, rfl⟩, ?_, answered_of_ok (by simp [traced]) ?_⟩
  · show p.draft.stmts ++ _ = _
    rw [hstmts, List.nil_append]
  · rw [hattempts]
    simp

omit hsig hw in
theorem tried_snoc (events : List Event) (e : Event) : b.tried config sig (events ++ [e]) =
    ((b.tried config sig events).attempts (b.eventInstructions sig.arity e)).2 := by
  rw [tried, traced_snoc, attempts_append]
  rfl

theorem tried_drives (events : List Event) : b.Drives config sig (b.tried config sig events) := by
  induction events using List.reverseRecOn with
  | nil => exact (tried_nil hsig hw).1
  | append_singleton events e ih =>
    rw [tried_snoc]
    exact (ih.event hw e).1.drives

theorem tried_follows (events : List Event) (e : Event) :
    b.Follows config sig (b.tried config sig events) e (b.tried config sig (events ++ [e])) := by
  rw [tried_snoc]
  exact ((tried_drives hsig hw events).event hw e).1

/-- Of all that is done to the call nothing is refused but names, and each report binds what the
result phase has replied. -/
theorem tried_answered (events : List Event) :
    Answered (start config) (b.traced sig events) := by
  induction events using List.reverseRecOn with
  | nil => exact (tried_nil hsig hw).2.2
  | append_singleton events e ih =>
    rw [traced_snoc]
    exact ih.append ((tried_drives hsig hw events).event hw e).2

/-- What comes of a report among the events. -/
theorem tried_reports {before after : List Event} {name : String} {r : Except EmitError Reply} :
    (start config).Reports (b.traced sig (before ++ .report name :: after)) (b.traced sig before) 0
        name r ↔
      ((b.tried config sig before).step (.bind name (b.resultExpr SlotId.mk))).2 = r := by
  have hsplit : b.traced sig (before ++ .report name :: after) = b.traced sig before ++ .result 0 ::
      .bind name (b.resultExpr SlotId.mk) :: after.flatMap (b.eventInstructions sig.arity) := by
    simp only [traced, List.flatMap_append, List.flatMap_cons, eventInstructions,
      List.cons_append, List.nil_append]
  have hresult : ((start config).attempts (b.traced sig before)).2.step (.result 0) =
      (b.tried config sig before, _) := (tried_drives hsig hw before).result hw
  rw [hsplit, reports_iff, hresult]
  exact and_iff_right rfl

end

/-- Among the events, the report that comes after `before` binds to the local what the result phase
replies there. -/
def Binds (b : Builtin) (config : Config) (sig : Signature) (events before : List Event)
    (x : Local) : Prop :=
  ∃ name after, events = before ++ .report name :: after ∧
    (start config).Reports (b.traced sig events) (b.traced sig before) 0 name (.ok (.bound x))

section

variable (hsig : b.Admits sig.arity) (hw : b.aggregate.windowOnly = false)
include hsig hw

/-- A report is the last event, or it was there before. -/
theorem Binds.cases {events before : List Event} {e : Event} {x : Local}
    (h : b.Binds config sig (events ++ [e]) before x) :
    (before = events ∧ ∃ name, e = .report name ∧
      validName ((b.tried config sig events).pass.bindingName name) = true ∧
      x = (b.tried config sig events).pass.nextLocal name) ∨
    b.Binds config sig events before x := by
  obtain ⟨name, after, hsplit, hreports⟩ := h
  rw [hsplit] at hreports
  have hbound := (tried_reports hsig hw).mp hreports
  rcases snoc_eq_append_cons hsplit with ⟨rfl, he, _⟩ | ⟨after', _, rfl⟩
  · exact .inl ⟨rfl, name, he, bound_of_step hbound⟩
  · exact .inr ⟨name, after', rfl, (tried_reports hsig hw).mpr hbound⟩

/-- Results are bound under fitting names. -/
theorem binds_of_names {name : String} (hname : config.Names name) (before after : List Event) :
    ∃ x, b.Binds config sig (before ++ .report name :: after) before x := by
  have hnames : (b.tried config sig before).pass.config.Names name := by
    rw [(tried_drives hsig hw before).config]
    exact hname
  have hvalid := Pass.validName_bindingName hnames
  exact ⟨_, name, after, rfl, (tried_reports hsig hw).mpr (by rw [step_bind_valid hvalid])⟩

end

/-! ## The run of the block -/

theorem addCode_column (s : Nat → SlotId) (row : Expr) :
    b.addCode s (columnsAt 1 row) = b.addValueCode s (.argument 0 row) := addCode_cons _ _

/-- The rows that are added have the values in their first column. -/
def Reads (env : Env) (values : Nat → Value) (events : List Event) : Prop :=
  ∀ r : Nat, .add r ∈ events → ∀ st, (Expr.argument 0 (.int r)).eval env st = .ok (values r)

theorem Reads.of_append {env : Env} {values : Nat → Value} {before after : List Event}
    (h : Reads env values (before ++ after)) : Reads env values before :=
  fun r hr => h r (List.mem_append_left _ hr)

theorem Reads.last {env : Env} {values : Nat → Value} {events : List Event} {e : Event}
    (h : Reads env values (events ++ [e])) : Reads env values [e] :=
  fun r hr => h r (List.mem_append_right _ hr)

/-- A function of one argument whose state after an add is fixed by the state before and the value.
An add that fails changes nothing. -/
structure Accrual (b : Builtin) (σ : Type) where
  initial : σ
  take : σ → Value → Except RunError σ
  /-- What the slots hold. -/
  contents : σ → List Value
  /-- The result. -/
  answer : σ → Value
  reset : ∀ (s : Nat → SlotId) (env : Env) (st : Store), s.Injective →
    Completes (Stmt.runAll env st (b.resetCode s)) fun st' => st'.Carries s (contents initial)
  result : ∀ (s : Nat → SlotId) (env : Env) (st : Store) (x : σ), st.Carries s (contents x) →
    (b.resultExpr s).eval env st = .ok (answer x)
  add_ok : ∀ (s : Nat → SlotId) (env : Env) (st : Store) (x y : σ) (e : Expr) (v : Value),
    s.Injective → st.Carries s (contents x) → e.eval env st = .ok v → take x v = .ok y →
    Completes (Stmt.runAll env st (b.addValueCode s e)) fun st' => st'.Carries s (contents y)
  add_error : ∀ (s : Nat → SlotId) (env : Env) (st : Store) (x : σ) (e : Expr) (v : Value)
    (err : RunError), s.Injective → st.Carries s (contents x) → e.eval env st = .ok v →
    take x v = .error err → Stmt.runAll env st (b.addValueCode s e) = (st, .error err)

namespace Accrual

variable {σ : Type} (a : Accrual b σ) (values : Nat → Value)

def follow (x : σ) : Event → Except RunError σ
  | .reset => .ok a.initial
  | .add r => a.take x (values r)
  | .report _ => .ok x

/-- The state after the events, or the first error on the way. -/
def reach (events : List Event) : Except RunError σ := events.foldlM (a.follow values) a.initial

theorem reach_snoc (events : List Event) (e : Event) :
    a.reach values (events ++ [e]) =
      (a.reach values events).bind fun x => a.follow values x e := foldlM_snoc _ _ _ _

theorem reach_snoc_ok {events : List Event} {e : Event} {y : σ} :
    a.reach values (events ++ [e]) = .ok y ↔
      ∃ x, a.reach values events = .ok x ∧ a.follow values x e = .ok y := by
  rw [reach_snoc]
  cases a.reach values events with
  | ok x => simp [Except.bind]
  | error err => simp [Except.bind]

variable {a values} {env : Env}

/-- One event that goes through: locals handed out before are kept, and a report binds one more. -/
theorem event_runs {e : Event} (hvalues : Reads env values [e]) {p : Pass} {st : Store}
    {x y : σ} (hst : st.Carries SlotId.mk (a.contents x)) (hy : a.follow values x e = .ok y) :
    Completes (Stmt.runAll env st (b.eventCode 1 p e)) fun st' =>
      st'.Carries SlotId.mk (a.contents y) ∧
      (∀ z : LocalId, z.index < p.draft.declared.length → st'.locals z = st.locals z) ∧
      ∀ name, e = .report name → validName (p.bindingName name) = true →
        st'.locals (p.nextLocal name).id = some (a.answer x) := by
  cases e with
  | reset =>
    obtain rfl := Except.ok.inj hy
    refine ((a.reset SlotId.mk env st SlotId.mk_injective).keepsLocals
      (b.resetCode_locals _)).mono fun st' h => ⟨h.1, fun z _ => by rw [h.2], nofun⟩
  | add r =>
    have hvalue := hvalues r List.mem_cons_self st
    have hadd := a.add_ok SlotId.mk env st x y _ _ SlotId.mk_injective hst hvalue hy
    have hlocals : Stmt.localsAll (b.addCode SlotId.mk (columnsAt 1 (.int r))) = [] :=
      b.addCode_locals _ fun v hv => by
        obtain ⟨i, _, rfl⟩ := List.mem_map.mp hv
        rfl
    rw [← addCode_column] at hadd
    exact (hadd.keepsLocals hlocals).mono fun st' h => ⟨h.1, fun z _ => by rw [h.2], nofun⟩
  | report name =>
    obtain rfl := Except.ok.inj hy
    have heval := a.result SlotId.mk env st x hst
    refine (bindCode_runs heval p name).mono fun st' h => ⟨?_, h.2.1, fun name' hreport => ?_⟩
    · exact hst.congr fun _ _ => by rw [h.1]
    · obtain rfl := Event.report.inj hreport
      exact h.2.2

section

variable (config : Config) (hsig : b.Admits sig.arity) (hw : b.aggregate.windowOnly = false)
  (hone : sig.arity = 1)
include hsig hw hone

/-- As long as no add fails, the slots carry the state and each bound local the result of the state
that it was bound in. -/
theorem runs {events : List Event} (hvalues : Reads env values events) {x : σ}
    (hx : a.reach values events = .ok x) (st : Store) :
    Completes (Stmt.runAll env st (b.tried config sig events).pass.draft.stmts) fun st' =>
      st'.Carries SlotId.mk (a.contents x) ∧
      ∀ before y, b.Binds config sig events before y →
        y.id.index < (b.tried config sig events).pass.draft.declared.length ∧
        ∃ x', a.reach values before = .ok x' ∧ st'.locals y.id = some (a.answer x') := by
  induction events using List.reverseRecOn generalizing x with
  | nil =>
    obtain rfl := Except.ok.inj hx
    rw [(tried_nil hsig hw).2.1]
    refine (a.reset SlotId.mk env st SlotId.mk_injective).mono fun st' h => ⟨h, ?_⟩
    rintro before y ⟨name, after, hsplit, _⟩
    simp at hsplit
  | append_singleton events e ih =>
    obtain ⟨x₁, hx₁, hfollow⟩ := (a.reach_snoc_ok values).mp hx
    have hnext : b.Follows config sig (b.tried config sig events) e
        (b.tried config sig (events ++ [e])) := tried_follows hsig hw events e
    rw [hnext.stmts, hone]
    refine (ih hvalues.of_append hx₁).append fun st₁ h₁ => ?_
    obtain ⟨hcarries, hbound⟩ := h₁
    refine (event_runs hvalues.last hcarries hfollow).mono fun st' h => ?_
    obtain ⟨hcarries', hkept, hlast⟩ := h
    refine ⟨hcarries', fun before y hy => ?_⟩
    rcases hy.cases hsig hw with ⟨rfl, name, he, hvalid, rfl⟩ | hy
    · refine ⟨?_, x₁, hx₁, hlast name he hvalid⟩
      rw [hnext.bound name he hvalid]
      exact Nat.lt_succ_self _
    · obtain ⟨hlt, x', hx', hlocal⟩ := hbound before y hy
      exact ⟨Nat.lt_of_lt_of_le hlt hnext.declared, x', hx', (hkept y.id hlt).trans hlocal⟩

/-- The first add that fails stops the run, and everything is as the events before left it. -/
theorem stops {events : List Event} (hvalues : Reads env values events) {err : RunError}
    (herr : a.reach values events = .error err) (st : Store) :
    ∃ before r after x st', events = before ++ .add r :: after ∧
      a.reach values before = .ok x ∧ a.take x (values r) = .error err ∧
      (b.tried config sig before).pass.draft.stmts ++ b.addCode SlotId.mk (columnsAt 1 (.int r)) <+:
        (b.tried config sig events).pass.draft.stmts ∧
      Stmt.runAll env st (b.tried config sig before).pass.draft.stmts = (st', .ok ()) ∧
      Stmt.runAll env st (b.tried config sig events).pass.draft.stmts = (st', .error err) := by
  induction events using List.reverseRecOn with
  | nil => cases herr
  | append_singleton events e ih =>
    have hnext : b.Follows config sig (b.tried config sig events) e
        (b.tried config sig (events ++ [e])) := tried_follows hsig hw events e
    rw [hnext.stmts, Stmt.runAll_append, hone]
    rw [reach_snoc] at herr
    cases hx : a.reach values events with
    | error err' =>
      rw [hx] at herr
      obtain rfl := Except.error.inj herr
      obtain ⟨before, r, after, x, st', hsplit, hbefore, htake, hprefix, hrun, hstop⟩ :=
        ih hvalues.of_append hx
      refine ⟨before, r, after ++ [e], x, st', ?_, hbefore, htake, ?_, hrun, ?_⟩
      · rw [hsplit, List.append_assoc, List.cons_append]
      · exact hprefix.trans (List.prefix_append _ _)
      · rw [hstop, andThen_error]
    | ok x =>
      rw [hx] at herr
      cases e with
      | reset => cases herr
      | report name => cases herr
      | add r =>
        obtain ⟨st', hrun, hcarries, _⟩ := runs config hsig hw hone hvalues.of_append hx st
        refine ⟨events, r, [], x, st', rfl, hx, herr, List.prefix_refl _, hrun, ?_⟩
        rw [hrun, andThen_ok, eventCode, addCode_column]
        exact a.add_error SlotId.mk env st' x _ _ err SlotId.mk_injective hcarries
          (hvalues.last r List.mem_cons_self st') herr

end

end Accrual

end Builtin
end WindowFold
