import Mathlib.Data.List.Induction
import WindowFold.Proofs.Workspace.Checks
import WindowFold.Proofs.Workspace.Identity

/-!
# Warming up all calls

Warming up all calls is warming them up one after the other, as far as that goes
(`warmUpAll_in_order`).  The first warm-up that fails ends it: the calls before are warm and stay
so, the others are left as they are, and the block holds what the warm-ups up to there emitted, the
failed one included.
-/

namespace WindowFold

namespace Tally

variable {t : Tally} {hint : Expr} {p q : Pass} {e : EmitError}

/-- The call after its warm-up. -/
def warmed (t : Tally) : Tally := { t with ready := true, warmedUp := true }

theorem warmed_of_ok {t' : Tally} (h : t.warmUp hint p = .ok t' q) : t' = t.warmed :=
  (warmUp_ok.mp h).2.2

theorem warmUp_warmed (t : Tally) (hint : Expr) (p : Pass) :
    t.warmed.warmUp hint p = .error (.outOfOrder t.signature.name .warmUp .warmedUp) p :=
  Pass.guard_error rfl _ p

theorem warmUp_cold (h : t.requireCold = .ok ()) : t.warmUp hint p =
    match t.performReset (t.aggregate.openWindow t.site (.warmUp hint)) p with
    | .ok _ q => .ok t.warmed q
    | .error e q => .error e q :=
  performReset_guarded h _ _ p

/-- A warm-up out of order is refused before anything has happened. -/
theorem warmUp_refused (h : t.warmUp hint p = .error e q)
    (hmarks : t.warmedUp = true ∨ t.partitionSeen = true) :
    q = p ∧ ∃ obstacle, e = .outOfOrder t.signature.name .warmUp obstacle := by
  obtain ⟨obstacle, hcold⟩ := requireCold_error hmarks
  rw [warmUp, Pass.guard_error hcold] at h
  obtain ⟨rfl, rfl⟩ := EStateM.Result.error.inj h
  exact ⟨rfl, obstacle, rfl⟩

/-- A warm-up that is said to be out of order has not come to emit anything, unless the function
says so itself. -/
theorem warmUp_outOfOrder {name : String} {phase : Phase} {obstacle : Obstacle}
    (h : t.warmUp hint p = .error (.outOfOrder name phase obstacle) q) : q = p ∨
      (p.draft.perform (t.aggregate.openWindow t.site (.warmUp hint))).2 =
        .error (.outOfOrder name phase obstacle) := by
  by_cases hmarks : t.warmedUp = true ∨ t.partitionSeen = true
  · exact .inl (warmUp_refused h hmarks).1
  · rw [not_or, Bool.not_eq_true, Bool.not_eq_true] at hmarks
    rw [warmUp_cold (requireCold_ok.mpr hmarks)] at h
    cases hp : t.performReset (t.aggregate.openWindow t.site (.warmUp hint)) p with
    | ok _ q' => simp [hp] at h
    | error e' q' =>
      rw [hp] at h
      obtain ⟨rfl, _⟩ := EStateM.Result.error.inj h
      rcases performReset_error hp with hown | ⟨s, hforeign⟩ | ⟨n, k, hcount⟩
      · exact .inr hown
      · cases hforeign
      · cases hcount

theorem warmUp_stmts (h : t.warmUp hint p = .error e q) :
    ∃ ss, q.draft.stmts = p.draft.stmts ++ ss := by
  obtain ⟨xs, hbuilds⟩ := t.warmUp_builds hint p
  obtain ⟨ss, hgrows⟩ := hbuilds.grows
  refine ⟨ss, ?_⟩
  have hstmts := hgrows.stmts
  rwa [PassM.after, h] at hstmts

theorem warmUpAll_cons_ok {t' : Tally} {rest : List Tally} (h : t.warmUp hint p = .ok t' q) :
    warmUpAll hint p (t :: rest) = Prod.map (t' :: ·) id (warmUpAll hint q rest) := by
  simp only [warmUpAll, h]
  rfl

theorem warmUpAll_cons_error {rest : List Tally} (h : t.warmUp hint p = .error e q) :
    warmUpAll hint p (t :: rest) = (t :: rest, q, .error e) := by
  simp only [warmUpAll, h]

end Tally

namespace Workspace

variable {hint : Expr} {p q : Pass} {w w' : Workspace} {es : List Entry} {e : EmitError}
  {t t' : Tally} {before after : List Tally}

/-- The warm-ups of the first calls, one after the other. -/
def warmUps (hint : Expr) (n : Nat) : List Instruction :=
  (List.range n).map fun u => .warmUp u hint

theorem warmUps_succ (hint : Expr) (n : Nat) :
    warmUps hint (n + 1) = warmUps hint n ++ [.warmUp n hint] := by
  rw [warmUps, List.range_succ, List.map_append]
  rfl

/-! ## One warm-up among others -/

theorem step_warmUp {n : Nat} (hw : w.tallies = before ++ t :: after) (hn : before.length = n)
    (hint : Expr) : w.step (.warmUp n hint) =
      match t.warmUp hint w.pass with
      | .ok t' q => (⟨q, before ++ t' :: after⟩, .ok .done)
      | .error e q => (⟨q, w.tallies⟩, .error e) := by
  subst hn
  have ht : w.tallies[before.length]? = some t := by simp [hw]
  simp only [step, update, ht]
  cases t.warmUp hint w.pass with
  | ok t' q => simp [hw]
  | error e q => rfl

theorem record_warmUp {n : Nat} (hw : w.tallies = before ++ t :: after) (hn : before.length = n)
    (h : w.record [.warmUp n hint] = .ok (es, w')) :
    ∃ q, t.warmUp hint w.pass = .ok t.warmed q ∧ w' = ⟨q, before ++ t.warmed :: after⟩ := by
  obtain ⟨w₁, r, es', hstep, hnil, _⟩ := record_cons_ok.mp h
  obtain ⟨_, rfl⟩ := Prod.mk.inj (Except.ok.inj hnil)
  rw [step_warmUp hw hn] at hstep
  cases hwarm : t.warmUp hint w.pass with
  | error e q => simp [hwarm] at hstep
  | ok t' q =>
    obtain rfl := Tally.warmed_of_ok hwarm
    rw [hwarm] at hstep
    exact ⟨q, rfl, (Prod.mk.inj hstep).1.symm⟩

/-- Warm-ups of the first calls that succeed leave these warm, and warming up all calls goes on
from there with the others. -/
theorem record_warmUps (hw : w.tallies = before ++ after)
    (h : w.record (warmUps hint before.length) = .ok (es, w')) :
    w'.tallies = before.map Tally.warmed ++ after ∧
    Tally.warmUpAll hint w.pass w.tallies =
      Prod.map (before.map Tally.warmed ++ ·) id (Tally.warmUpAll hint w'.pass after) := by
  -- On the last of these calls, a record being followed from its start.
  induction before using List.reverseRecOn generalizing after es w' with
  | nil =>
    obtain ⟨_, rfl⟩ := Prod.mk.inj (Except.ok.inj h)
    exact ⟨hw, by rw [hw]; rfl⟩
  | append_singleton before t ih =>
    rw [List.length_append, List.length_singleton, warmUps_succ] at h
    rw [List.append_assoc, List.singleton_append] at hw
    obtain ⟨w₁, _, _, h₁, h₂⟩ := record_split h
    obtain ⟨htallies, hall⟩ := ih hw h₁
    obtain ⟨q, hwarm, rfl⟩ := record_warmUp htallies (List.length_map _) h₂
    rw [List.map_append, List.map_singleton, hall, Tally.warmUpAll_cons_ok hwarm]
    refine ⟨by rw [List.append_assoc, List.singleton_append], ?_⟩
    exact Prod.ext (List.append_cons _ _ _) rfl

/-- Single warm-ups are followed to the end, or up to the first that fails. -/
theorem record_warmUps_or_fails (w : Workspace) (hint : Expr) (n : Nat) :
    (∃ es w', w.record (warmUps hint n) = .ok (es, w')) ∨
    ∃ k, k < n ∧ ∃ es w₁ e w₂, w.record (warmUps hint k) = .ok (es, w₁) ∧
      w₁.step (.warmUp k hint) = (w₂, .error e) := by
  induction n with
  | zero => exact .inl ⟨[], w, rfl⟩
  | succ n ih =>
    rcases ih with ⟨es, w₁, h⟩ | ⟨k, hk, hfails⟩
    · cases hstep : w₁.step (.warmUp n hint) with
      | mk w₂ r =>
        cases r with
        | error e => exact .inr ⟨n, Nat.lt_succ_self n, es, w₁, e, w₂, h, hstep⟩
        | ok r =>
          obtain ⟨es₂, hlast⟩ : ∃ es₂, w₁.record [.warmUp n hint] = .ok (es₂, w₂) :=
            ⟨_, record_cons_ok.mpr ⟨w₂, r, [], hstep, rfl, rfl⟩⟩
          exact .inl ⟨es ++ es₂, w₂, by rw [warmUps_succ, record_append h hlast]⟩
    · exact .inr ⟨k, Nat.lt_succ_of_lt hk, hfails⟩

/-! ## Warming up all calls -/

/-- How warming up all calls comes to an end in `w'`, at the call `t` and with the error `e`.  The
warm-ups of the calls `before` it lead to `w₁` and are noted in `es`; its own emits `ss`. -/
structure EndedBy (w : Workspace) (hint : Expr) (before : List Tally) (t : Tally)
    (after : List Tally) (es : List Entry) (w₁ : Workspace) (ss : List Stmt) (e : EmitError)
    (w' : Workspace) : Prop where
  calls : w.tallies = before ++ t :: after
  succeed : w.record (warmUps hint before.length) = .ok (es, w₁)
  fails : w₁.step (.warmUp before.length hint) = (w', .error e)
  tallies : w'.tallies = before.map Tally.warmed ++ t :: after
  emits : w'.pass.draft.stmts = w₁.pass.draft.stmts ++ ss
  stmts : w'.pass.draft.stmts = w.pass.draft.stmts ++ emittedBy es ++ ss
  /-- None of the calls before can be warmed up again, in whichever pass. -/
  closed : ∀ a s b, before = a ++ s :: b → ∀ p hint',
    (Workspace.mk p w'.tallies).step (.warmUp a.length hint') =
      (⟨p, w'.tallies⟩, .error (.outOfOrder s.signature.name .warmUp .warmedUp))
  refused : t.warmedUp = true ∨ t.partitionSeen = true →
    ss = [] ∧ ∃ obstacle, e = .outOfOrder t.signature.name .warmUp obstacle
  /-- A warm-up out of order emits nothing, unless it is the function that calls it so. -/
  ordered : ∀ name phase obstacle, e = .outOfOrder name phase obstacle → ss = [] ∨
    (w₁.pass.draft.perform (t.aggregate.openWindow t.site (.warmUp hint))).2 = .error e

/-- The first warm-up that fails ends the warming up of all calls. -/
theorem endedBy_of_fails {k : Nat} {w₁ w₂ : Workspace} (hk : k < w.tallies.length)
    (h : w.record (warmUps hint k) = .ok (es, w₁))
    (hstep : w₁.step (.warmUp k hint) = (w₂, .error e)) :
    w.step (.warmUpAll hint) = (w₂, .error e) ∧
    ∃ before t after ss, EndedBy w hint before t after es w₁ ss e w₂ := by
  obtain ⟨before, t, after, hw, rfl⟩ :
      ∃ before t after, w.tallies = before ++ t :: after ∧ before.length = k :=
    ⟨w.tallies.take k, w.tallies[k], w.tallies.drop (k + 1), by simp, by simp; omega⟩
  obtain ⟨htallies, hall⟩ := record_warmUps hw h
  have hfails := hstep
  rw [step_warmUp htallies (List.length_map _)] at hstep
  cases hwarm : t.warmUp hint w₁.pass with
  | ok t' q => simp [hwarm] at hstep
  | error e' q =>
    rw [hwarm] at hstep
    obtain ⟨rfl, rfl⟩ : w₂ = ⟨q, w₁.tallies⟩ ∧ e' = e := by simpa [eq_comm] using hstep
    rw [Tally.warmUpAll_cons_error hwarm] at hall
    obtain ⟨ss, hss⟩ := Tally.warmUp_stmts hwarm
    have hnothing (hsame : q = w₁.pass) : ss = [] := by
      rw [hsame] at hss
      exact List.self_eq_append_right.mp hss
    refine ⟨?_, before, t, after, ss, hw, h, hfails, htallies, hss, ?_, ?_, ?_, ?_⟩
    · simp only [step, hall, htallies]
      rfl
    · rw [hss, record_extends h]
    · rintro a s b rfl p hint'
      have hagain : w₁.tallies = a.map Tally.warmed ++ s.warmed ::
          (b.map Tally.warmed ++ t :: after) := by simp [htallies]
      rw [step_warmUp (w := ⟨p, w₁.tallies⟩) hagain (List.length_map _), Tally.warmUp_warmed]
    · intro hmarks
      obtain ⟨hsame, hobstacle⟩ := Tally.warmUp_refused hwarm hmarks
      exact ⟨hnothing hsame, hobstacle⟩
    · rintro name phase obstacle rfl
      exact (Tally.warmUp_outOfOrder hwarm).imp_left hnothing

theorem warmUpAll_of_record (h : w.record (warmUps hint w.tallies.length) = .ok (es, w')) :
    w.step (.warmUpAll hint) = (w', .ok .done) ∧ w'.tallies = w.tallies.map Tally.warmed := by
  obtain ⟨htallies, hall⟩ := record_warmUps (List.append_nil _).symm h
  rw [List.append_nil] at htallies
  refine ⟨?_, htallies⟩
  simp only [step, hall, Tally.warmUpAll, Prod.map, List.append_nil, ← htallies]
  rfl

/-- Warming up all calls is warming them up one after the other.  It succeeds if and only if all of
these warm-ups do, and then comes to the same; otherwise the first of them that fails ends it.
After a success the first call can be told to be warm, so that nothing comes of doing it again. -/
theorem warmUpAll_in_order (w : Workspace) (hint : Expr) :
    ((w.step (.warmUpAll hint)).2 = .ok .done ↔
      ∃ es w', w.record (warmUps hint w.tallies.length) = .ok (es, w')) ∧
    (∀ es w', w.record (warmUps hint w.tallies.length) = .ok (es, w') →
      w.step (.warmUpAll hint) = (w', .ok .done) ∧
      w'.tallies = w.tallies.map Tally.warmed ∧
      w'.pass.draft.stmts = w.pass.draft.stmts ++ emittedBy es) ∧
    ((w.step (.warmUpAll hint)).2 ≠ .ok .done → ∃ before t after es w₁ ss e w',
      w.step (.warmUpAll hint) = (w', .error e) ∧
      EndedBy w hint before t after es w₁ ss e w') ∧
    ∀ w' t rest, w.step (.warmUpAll hint) = (w', .ok .done) → w.tallies = t :: rest →
      ∀ p hint', (Workspace.mk p w'.tallies).step (.warmUpAll hint') =
        (⟨p, w'.tallies⟩, .error (.outOfOrder t.signature.name .warmUp .warmedUp)) := by
  have hsuccess : (w.step (.warmUpAll hint)).2 = .ok .done →
      ∃ es w', w.record (warmUps hint w.tallies.length) = .ok (es, w') := by
    intro hdone
    rcases record_warmUps_or_fails w hint w.tallies.length with h | ⟨k, hk, es, w₁, e, w₂, h, hstep⟩
    · exact h
    · rw [(endedBy_of_fails hk h hstep).1] at hdone
      cases hdone
  refine ⟨⟨hsuccess, ?_⟩, ?_, ?_, ?_⟩
  · rintro ⟨es, w', h⟩
    rw [(warmUpAll_of_record h).1]
  · intro es w' h
    exact ⟨(warmUpAll_of_record h).1, (warmUpAll_of_record h).2, record_extends h⟩
  · intro hnot
    rcases record_warmUps_or_fails w hint w.tallies.length with
      ⟨es, w', h⟩ | ⟨k, hk, es, w₁, e, w₂, h, hstep⟩
    · rw [(warmUpAll_of_record h).1] at hnot
      exact absurd rfl hnot
    · obtain ⟨hend, before, t, after, ss, hended⟩ := endedBy_of_fails hk h hstep
      exact ⟨before, t, after, es, w₁, ss, e, w₂, hend, hended⟩
  · intro w' t rest hdone hcalls p hint'
    obtain ⟨es, w'', h⟩ := hsuccess (by rw [hdone])
    obtain ⟨hend, htallies⟩ := warmUpAll_of_record h
    rw [hdone] at hend
    obtain ⟨rfl, _⟩ := Prod.mk.inj hend
    rw [hcalls, List.map_cons] at htallies
    simp only [step, htallies, Tally.warmUpAll_cons_error (Tally.warmUp_warmed t hint' p)]
    rfl

/-- Two slots, of which a reset forgets the second. -/
def forgetful : Aggregate where
  name := "forgetful"
  typing _ := .ok (.int, false)
  layout _ := [.int, .int]
  reset c := do
    let x ← c.slot 0
    .assign x (.int 0)
  add _ _ := return
  result c := c.read 0

def besideForgetful : List Instruction :=
  [.create ⟨"count", [], .int, false, false⟩ .count,
    .create ⟨"forgetful", [], .int, false, false⟩ forgetful,
    .create ⟨"count", [], .int, false, false⟩ .count]

/-- Between two counts it is the second warm-up that fails, with what it has emitted left behind.
A count alone is warmed up once. -/
theorem warmUpAll_stops_at_forgetful :
    (∃ es w w' t u v, (start (.strict "agg")).record besideForgetful = .ok (es, w) ∧
      w.tallies = [t, u, v] ∧
      w.step (.warmUpAll .null) = (w', .error (.slotCount "forgetful" 2 1)) ∧
      w'.tallies = [t.warmed, u, v] ∧
      w'.pass.draft.stmts = [.assign ⟨0⟩ (.int 0), .assign ⟨1⟩ (.int 0)] ∧
      ∃ before s after es₁ w₁ ss, EndedBy w .null before s after es₁ w₁ ss
        (.slotCount "forgetful" 2 1) w') ∧
    ∃ es w w', (start (.strict "agg")).record
        [.create ⟨"count", [], .int, false, false⟩ .count] = .ok (es, w) ∧
      w.step (.warmUpAll .null) = (w', .ok .done) ∧
      w'.step (.warmUpAll .null) = (w', .error (.outOfOrder "count" .warmUp .warmedUp)) := by
  constructor
  · obtain ⟨es, w, w', t, u, v, hrecord, hw, hstep, hw', hstmts⟩ :
        ∃ es w w' t u v, (start (.strict "agg")).record besideForgetful = .ok (es, w) ∧
        w.tallies = [t, u, v] ∧
        w.step (.warmUpAll .null) = (w', .error (.slotCount "forgetful" 2 1)) ∧
        w'.tallies = [t.warmed, u, v] ∧
        w'.pass.draft.stmts = [.assign ⟨0⟩ (.int 0), .assign ⟨1⟩ (.int 0)] :=
      ⟨_, _, _, _, _, _, rfl, rfl, rfl, rfl, rfl⟩
    obtain ⟨_, _, hends, _⟩ := warmUpAll_in_order w .null
    obtain ⟨before, s, after, es₁, w₁, ss, e, w₂, hstep', hended⟩ := hends (by simp [hstep])
    rw [hstep] at hstep'
    obtain ⟨rfl, he⟩ := Prod.mk.inj hstep'
    obtain rfl := Except.error.inj he
    exact ⟨es, w, w', t, u, v, hrecord, hw, hstep, hw', hstmts, before, s, after, es₁, w₁, ss,
      hended⟩
  · obtain ⟨es, w, w', t, hrecord, hw, hname, hstep⟩ :
        ∃ es w w' t, (start (.strict "agg")).record
          [.create ⟨"count", [], .int, false, false⟩ .count] = .ok (es, w) ∧
        w.tallies = [t] ∧ t.signature.name = "count" ∧
        w.step (.warmUpAll .null) = (w', .ok .done) :=
      ⟨_, _, _, _, rfl, rfl, rfl, rfl⟩
    obtain ⟨_, _, _, hagain⟩ := warmUpAll_in_order w .null
    have hrefused := hagain w' t [] hstep hw w'.pass .null
    rw [hname] at hrefused
    exact ⟨es, w, w', hrecord, hstep, hrefused⟩

end Workspace
end WindowFold
