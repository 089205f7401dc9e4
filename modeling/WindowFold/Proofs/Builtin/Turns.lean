import WindowFold.Proofs.Builtin.Course
import WindowFold.Proofs.Builtin.Merged
import WindowFold.Proofs.Workspace.Naming

/-!
# Several calls that take turns

Calls of one function whose states can be merged are created, reset, fed, merged and asked for their
results in any order in which each of them is reset before it is put to use (`Turn.follow`).  They
may be reset again, and go on after they have been merged into others.

All of this goes through but for the names of results, and the block has the code of the turns one
after the other (`taken_serves`, `taken_snoc_stmts`).  What is bound is always what the result phase
has replied (`taken_answered`).
-/

namespace WindowFold

/-- Something done with one of several calls. -/
inductive Turn where
  | create
  | reset (u : Nat)
  /-- Add the columns of a row. -/
  | add (u row : Nat)
  | merge (u v : Nat)
  /-- Ask for the result and bind it. -/
  | report (u : Nat) (name : String)

namespace Turn

def isAdd : Turn → Bool
  | .add _ _ => true
  | _ => false

def isMerge : Turn → Bool
  | .merge _ _ => true
  | _ => false

/-- Which calls have been reset after a turn, if it may be taken. -/
def follow (ready : List Bool) : Turn → Option (List Bool)
  | .create => some (ready ++ [false])
  | .reset u => if u < ready.length then some (ready.set u true) else none
  | .add u _ | .report u _ => if ready[u]? = some true then some ready else none
  | .merge u v =>
    if u ≠ v ∧ ready[u]? = some true ∧ ready[v]? = some true then some ready else none

/-- Every form of turn that may be taken. -/
inductive Follows (ready : List Bool) : Turn → List Bool → Prop
  | create : Follows ready .create (ready ++ [false])
  | reset {u} (hu : u < ready.length) : Follows ready (.reset u) (ready.set u true)
  | add {u r} (hu : ready[u]? = some true) : Follows ready (.add u r) ready
  | merge {u v} (hne : u ≠ v) (hu : ready[u]? = some true) (hv : ready[v]? = some true) :
      Follows ready (.merge u v) ready
  | report {u name} (hu : ready[u]? = some true) : Follows ready (.report u name) ready

variable {ready ready' : List Bool} {t : Turn} {turns : List Turn} {u : Nat}

theorem follows_of_follow (h : t.follow ready = some ready') : Follows ready t ready' := by
  cases t with
  | create =>
    obtain rfl := Option.some.inj h
    exact .create
  | reset u =>
    obtain ⟨hu, hready⟩ := Option.ite_none_right_eq_some.mp h
    obtain rfl := Option.some.inj hready
    exact .reset hu
  | add u r =>
    obtain ⟨hu, hready⟩ := Option.ite_none_right_eq_some.mp h
    obtain rfl := Option.some.inj hready
    exact .add hu
  | merge u v =>
    obtain ⟨⟨hne, hu, hv⟩, hready⟩ := Option.ite_none_right_eq_some.mp h
    obtain rfl := Option.some.inj hready
    exact .merge hne hu hv
  | report u name =>
    obtain ⟨hu, hready⟩ := Option.ite_none_right_eq_some.mp h
    obtain rfl := Option.some.inj hready
    exact .report hu

/-- Which calls have been reset after turns that may all be taken. -/
def followAll (turns : List Turn) : Option (List Bool) := turns.foldlM follow []

theorem followAll_append {later : List Turn} : followAll (turns ++ later) = some ready' ↔
    ∃ ready, followAll turns = some ready ∧ later.foldlM follow ready = some ready' := by
  rw [followAll, List.foldlM_append]
  exact Option.bind_eq_some_iff

theorem followAll_snoc : followAll (turns ++ [t]) = some ready' ↔
    ∃ ready, followAll turns = some ready ∧ t.follow ready = some ready' := by
  simp only [followAll_append, List.foldlM_cons, List.foldlM_nil, bind_pure]

/-- A call that has been reset stays so. -/
theorem Follows.kept (h : Follows ready t ready') (hu : ready[u]? = some true) :
    ready'[u]? = some true := by
  have hlt := (List.getElem?_eq_some_iff.mp hu).1
  cases h with
  | create => rwa [List.getElem?_append_left hlt]
  | @reset v hv =>
    by_cases hvu : v = u
    · rw [hvu, List.getElem?_set_self hlt]
    · rwa [List.getElem?_set_ne hvu]
  | add | merge | report => exact hu

theorem ready_of_reset (h : followAll turns = some ready) (hmem : .reset u ∈ turns) :
    ready[u]? = some true := by
  induction turns using List.reverseRecOn generalizing ready with
  | nil => cases hmem
  | append_singleton turns t ih =>
    obtain ⟨ready₁, h₁, ht⟩ := followAll_snoc.mp h
    have ht := follows_of_follow ht
    rcases List.mem_append.mp hmem with hmem | hmem
    · exact ht.kept (ih h₁ hmem)
    · obtain rfl := List.mem_singleton.mp hmem
      cases ht with
      | reset hu => exact List.getElem?_set_self hu

/-- The row that a turn adds to the call. -/
def rowFor (u : Nat) : Turn → Option Nat
  | .add v r => if v = u then some r else none
  | _ => none

def rowsFor (u : Nat) (turns : List Turn) : List Nat := turns.filterMap (rowFor u)

theorem rowsFor_snoc (u : Nat) (turns : List Turn) (t : Turn) :
    rowsFor u (turns ++ [t]) = rowsFor u turns ++ (rowFor u t).toList := by
  rw [rowsFor, List.filterMap_append, List.filterMap_cons, List.filterMap_nil]
  cases rowFor u t <;> rfl

theorem rowFor_add (u r : Nat) : rowFor u (.add u r) = some r := if_pos rfl

theorem rowFor_other (h : ∀ r, t ≠ .add u r) : rowFor u t = none := by
  cases t with
  | create | reset | merge | report => rfl
  | add v r => exact if_neg fun hvu : v = u => h r (hvu ▸ rfl)

/-- Where a call stands in a ledger that keeps nothing of its inputs. -/
def stage (ready : Bool) : Stage := if ready then .live [] else .unset

end Turn

namespace Builtin

open Workspace

/-! ## The workspace of the turns -/

/-- A report binds the expression that the result phase will be found to reply. -/
def turnInstructions (b : Builtin) (sig : Signature) : Turn → List Instruction
  | .create => [.create sig b.aggregate]
  | .reset u => [.reset u]
  | .add u r => [.add u (columnsAt sig.arity (.int r))]
  | .merge u v => [.merge u v]
  | .report u name => [.result u, .bind name (b.resultExpr (b.unitSlots u))]

/-- What a pass emits for a turn.  A result is declared if its name is valid. -/
def turnCode (b : Builtin) (n : Nat) (p : Pass) : Turn → List Stmt
  | .create => []
  | .reset u => b.resetCode (b.unitSlots u)
  | .add u r => b.addCode (b.unitSlots u) (columnsAt n (.int r))
  | .merge u v => b.mergeCode (b.unitSlots u) (b.unitSlots v)
  | .report u name => p.bindCode name (b.resultExpr (b.unitSlots u))

/-- The workspace after turns, what is refused on the way being passed over. -/
def taken (b : Builtin) (config : Config) (sig : Signature) (turns : List Turn) : Workspace :=
  ((start config).attempts (turns.flatMap (b.turnInstructions sig))).2

/-- There are the calls of the turns so far, and those that have been reset are ready. -/
abbrev Serves (b : Builtin) (sig : Signature) (ready : List Bool) (w : Workspace) : Prop :=
  Tracks b sig (ready.map Turn.stage) w

variable {b : Builtin} {config : Config} {sig : Signature} {ready ready' : List Bool}
  {w : Workspace} {t : Turn} {turns : List Turn} {u : Nat}

theorem Serves.call (h : Serves b sig ready w) (hu : ready[u]? = some true) :
    ∃ t, w.tallies[u]? = some t ∧ b.Call (b.unitSlots u) t ∧ t.signature = sig ∧
      t.ready = true := by
  have hlive : (ready.map Turn.stage)[u]? = some (.live []) := by
    rw [List.getElem?_map, hu]
    rfl
  exact Tracks.ready h hlive

/-- What comes of a turn. -/
structure Takes (b : Builtin) (sig : Signature) (ready' : List Bool) (w : Workspace) (t : Turn) :
    Prop where
  serves : Serves b sig ready' (w.attempts (b.turnInstructions sig t)).2
  stmts : (w.attempts (b.turnInstructions sig t)).2.pass.draft.stmts =
    w.pass.draft.stmts ++ b.turnCode sig.arity w.pass t
  answered : Answered w (b.turnInstructions sig t)

/-- An instruction that is not refused and asks for no result. -/
theorem takes_of_step {i : Instruction} {w' : Workspace} (hi : b.turnInstructions sig t = [i])
    (hnone : ∀ u, i ≠ .result u) (hstep : w.step i = (w', .ok .done))
    (hserves : Serves b sig ready' w')
    (hstmts : w'.pass.draft.stmts = w.pass.draft.stmts ++ b.turnCode sig.arity w.pass t) :
    Takes b sig ready' w t := by
  refine ⟨?_, ?_, ?_⟩
  · rw [hi, attempts_singleton hstep]
    exact hserves
  · rw [hi, attempts_singleton hstep]
    exact hstmts
  · rw [hi]
    exact answered_of_step hnone hstep

theorem Serves.result (hb : b.mergeable = true) (h : Serves b sig ready w)
    (hu : ready[u]? = some true) :
    w.step (.result u) = (w, .ok (.value (b.resultExpr (b.unitSlots u)))) := by
  obtain ⟨c, hc, hcall, _, hr⟩ := h.call hu
  exact hcall.step_result (mergeable_windowOnly hb) hr hc

section

variable (hb : b.mergeable = true) (hn : b.Admits sig.arity)
include hb hn

theorem Serves.takes (h : Serves b sig ready w) (ht : Turn.Follows ready t ready') :
    Takes b sig ready' w t := by
  have hw := mergeable_windowOnly hb
  -- Creating a call and resetting it are moves of a ledger, and neither takes anything in.
  have hnone {m : Move} (hm : m.added = []) : ∀ u args values, m = .add u args values →
      Feeds ⟨[], none⟩ sig.arity args values := by
    rintro u args values rfl
    cases hm
  cases ht with
  | create =>
    obtain ⟨w', hstep, hstmts, htracks⟩ := move_step hb hn .create h (hnone rfl)
    refine takes_of_step rfl nofun hstep ?_ hstmts
    rw [Serves, List.map_append]
    exact htracks
  | @reset u hu =>
    have hunset : ((ready.map Turn.stage).set u .unset)[u]? = some .unset :=
      List.getElem?_set_self (by rwa [List.length_map])
    obtain ⟨w', hstep, hstmts, htracks⟩ :=
      move_step hb hn (.reset hunset) (Tracks.unset h u) (hnone rfl)
    rw [List.set_set] at htracks
    refine takes_of_step rfl nofun hstep ?_ hstmts
    rw [Serves, List.map_set]
    exact htracks
  | @add u r hu =>
    obtain ⟨c, hc, hcall, hsig, hr⟩ := h.call hu
    have hargs := columnsAt_arguments sig.arity
    have hstep := hcall.step_add hw hr hc (by rw [hsig]; exact hargs.length (.int r))
      (hargs.slotFree (.int r) rfl)
    exact takes_of_step rfl nofun hstep (Tracks.extend h _) rfl
  | @merge u v hne hu hv =>
    obtain ⟨c, hc, hcall, hsig, hr⟩ := h.call hu
    obtain ⟨c', hc', hcall', hsig', hr'⟩ := h.call hv
    have hstep := hcall.step_merge hcall' hb hr hr' (hsig'.trans hsig.symm) hc hc'
    exact takes_of_step rfl nofun hstep (Tracks.extend h _) rfl
  | @report u name hu =>
    obtain ⟨hattempts, hanswered⟩ := attempts_report (h.result hb hu) name
    have hbind := step_bind w name (b.resultExpr (b.unitSlots u))
    rw [← hattempts] at hbind
    refine ⟨⟨?_, ?_, ?_⟩, hbind.stmts, hanswered⟩
    · exact hbind.slotCount.trans h.slotCount
    · exact (congrArg List.length hbind.tallies).trans h.length
    · intro v x hx
      obtain ⟨c, hc, hcall⟩ := h.calls v x hx
      exact ⟨c, (congrArg (·[v]?) hbind.tallies).trans hc, hcall⟩

omit hb hn in
theorem taken_snoc (turns : List Turn) (t : Turn) : b.taken config sig (turns ++ [t]) =
    ((b.taken config sig turns).attempts (b.turnInstructions sig t)).2 := by
  rw [taken, List.flatMap_append, List.flatMap_singleton, attempts_append]
  rfl

theorem taken_serves (h : Turn.followAll turns = some ready) :
    Serves b sig ready (b.taken config sig turns) := by
  induction turns using List.reverseRecOn generalizing ready with
  | nil =>
    obtain rfl := Option.some.inj h
    exact ⟨rfl, rfl, nofun⟩
  | append_singleton turns t ih =>
    obtain ⟨ready₁, h₁, ht⟩ := Turn.followAll_snoc.mp h
    rw [taken_snoc]
    exact ((ih h₁).takes hb hn (Turn.follows_of_follow ht)).serves

/-- The block has the code of the turns one after the other. -/
theorem taken_snoc_stmts (h : Turn.followAll (turns ++ [t]) = some ready) :
    (b.taken config sig (turns ++ [t])).pass.draft.stmts =
      (b.taken config sig turns).pass.draft.stmts ++
        b.turnCode sig.arity (b.taken config sig turns).pass t := by
  obtain ⟨ready₁, h₁, ht⟩ := Turn.followAll_snoc.mp h
  rw [taken_snoc]
  exact ((taken_serves hb hn h₁).takes hb hn (Turn.follows_of_follow ht)).stmts

/-- Of all that is done to the calls nothing is refused but names, and each report binds what the
result phase has replied. -/
theorem taken_answered (h : Turn.followAll turns = some ready) :
    Answered (start config) (turns.flatMap (b.turnInstructions sig)) := by
  induction turns using List.reverseRecOn generalizing ready with
  | nil => exact answered_of_ok nofun nofun
  | append_singleton turns t ih =>
    obtain ⟨ready₁, h₁, ht⟩ := Turn.followAll_snoc.mp h
    have hserves : Serves b sig ready₁ (b.taken config sig turns) := taken_serves hb hn h₁
    have htakes := hserves.takes hb hn (Turn.follows_of_follow ht)
    rw [List.flatMap_append, List.flatMap_singleton]
    exact (ih h₁).append htakes.answered

/-- What comes of a report among the turns. -/
theorem taken_reports {before after : List Turn} {name : String} {r : Except EmitError Reply}
    (h : Turn.followAll (before ++ .report u name :: after) = some ready) :
    (start config).Reports ((before ++ .report u name :: after).flatMap (b.turnInstructions sig))
        (before.flatMap (b.turnInstructions sig)) u name r ↔
      ((b.taken config sig before).step (.bind name (b.resultExpr (b.unitSlots u)))).2 = r := by
  have hu : ∃ ready₁, Turn.followAll before = some ready₁ ∧ ready₁[u]? = some true := by
    rw [List.append_cons] at h
    obtain ⟨_, h, _⟩ := Turn.followAll_append.mp h
    obtain ⟨ready₁, h₁, ht⟩ := Turn.followAll_snoc.mp h
    cases Turn.follows_of_follow ht with
    | report hu => exact ⟨_, h₁, hu⟩
  obtain ⟨ready₁, h₁, hu⟩ := hu
  have hserves : Serves b sig ready₁ (b.taken config sig before) := taken_serves hb hn h₁
  have hresult : ((start config).attempts (before.flatMap (b.turnInstructions sig))).2.step
      (.result u) = (b.taken config sig before, _) := hserves.result hb hu
  rw [List.flatMap_append, List.flatMap_cons]
  show (start config).Reports (_ ++ .result u :: .bind name _ :: _) _ u name r ↔ _
  rw [reports_iff, hresult]
  exact and_iff_right rfl

end

/-! ## Bound results -/

/-- Among the turns, the report on call `u` that comes after `before` binds to the local what the
result phase replies there. -/
def BindsIn (b : Builtin) (config : Config) (sig : Signature) (turns before : List Turn) (u : Nat)
    (x : Local) : Prop :=
  ∃ name after, turns = before ++ .report u name :: after ∧
    (start config).Reports (turns.flatMap (b.turnInstructions sig))
      (before.flatMap (b.turnInstructions sig)) u name (.ok (.bound x))

section

variable (hb : b.mergeable = true) (hn : b.Admits sig.arity)
include hb hn

/-- Results are bound under fitting names. -/
theorem bindsIn_of_names {name : String} (hname : config.Names name) {before after : List Turn}
    (h : Turn.followAll (before ++ .report u name :: after) = some ready) :
    ∃ x, b.BindsIn config sig (before ++ .report u name :: after) before u x := by
  have hconfig : (b.taken config sig before).pass.config = config :=
    ((start config).later_attempts _).config
  have hnames : (b.taken config sig before).pass.config.Names name := hconfig.symm ▸ hname
  have hvalid := Pass.validName_bindingName hnames
  exact ⟨_, name, after, rfl, (taken_reports hb hn h).mpr (by rw [step_bind_valid hvalid])⟩

theorem BindsIn.cases (hturns : Turn.followAll (turns ++ [t]) = some ready) {before : List Turn}
    {x : Local} (h : b.BindsIn config sig (turns ++ [t]) before u x) :
    (before = turns ∧ ∃ name, t = .report u name ∧
      validName ((b.taken config sig turns).pass.bindingName name) = true ∧
      x = (b.taken config sig turns).pass.nextLocal name) ∨
    b.BindsIn config sig turns before u x := by
  obtain ⟨name, after, hsplit, hreports⟩ := h
  obtain ⟨ready₁, h₁, _⟩ := Turn.followAll_append.mp hturns
  rw [hsplit] at hreports hturns
  have hbound := (taken_reports hb hn hturns).mp hreports
  rcases snoc_eq_append_cons hsplit with ⟨rfl, ht, _⟩ | ⟨after', _, rfl⟩
  · exact .inl ⟨rfl, name, ht, bound_of_step hbound⟩
  · exact .inr ⟨name, after', rfl, (taken_reports hb hn h₁).mpr hbound⟩

/-- A local that has been handed out stays apart from those that come later. -/
theorem BindsIn.declared (hturns : Turn.followAll turns = some ready) {before : List Turn}
    {x : Local} (h : b.BindsIn config sig turns before u x) :
    x.id.index < (b.taken config sig turns).pass.draft.declared.length := by
  induction turns using List.reverseRecOn generalizing ready with
  | nil =>
    obtain ⟨name, after, hsplit, _⟩ := h
    simp at hsplit
  | append_singleton turns t ih =>
    obtain ⟨ready₁, h₁, ht⟩ := Turn.followAll_snoc.mp hturns
    rw [taken_snoc]
    rcases h.cases hb hn hturns with ⟨rfl, name, rfl, hvalid, rfl⟩ | h
    · cases Turn.follows_of_follow ht with
      | report hu =>
        have hserves : Serves b sig ready (b.taken config sig before) := taken_serves hb hn h₁
        have hattempts := (attempts_report (hserves.result hb hu) name).1
        rw [turnInstructions, hattempts, (step_bind _ _ _).declared, if_pos hvalid]
        exact Nat.lt_succ_self _
    · exact (ih h₁ h).trans_le ((b.taken config sig turns).later_attempts _).declared

end

end Builtin
end WindowFold
