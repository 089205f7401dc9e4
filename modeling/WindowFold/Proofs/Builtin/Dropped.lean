import WindowFold.Proofs.Builtin.Totals

/-!
# Totals that are dropped

The total of `sum` is NULL for as long as nothing has been added.  But it also becomes NULL when an
addition leaves the finite doubles, and then the next value is taken for the first one.  So the
total is NULL exactly if all values are, or if all values after such an addition are
(`sum_null_iff`), and it is the total of what follows the addition alone.
-/

namespace WindowFold

namespace Builtin

open Workspace

/-- The two are added as doubles, and what comes out is not a finite one. -/
def LeavesDoubles (total v : Value) : Prop :=
  ∃ x y, total.float? = some x ∧ v.float? = some y ∧ (total.word? = none ∨ v.word? = none) ∧
    (x + y).isFinite = false

/-- The value is added to a total that was there, and the total is lost. -/
def DroppedBy (before : List Value) (v : Value) : Prop :=
  ∃ t, before.foldlM accrue .null = .ok t ∧ t ≠ .null ∧ v ≠ .null ∧ LeavesDoubles t v

/-- The values in the first column of the rows added since the last reset. -/
def valuesSince (rows : List (List Value)) (events : List Event) : List Value :=
  (Event.sinceReset events).map (headOf rows)

/-! ## One value -/

theorem add_eq_null {t v : Value} (ht : t ≠ .null) (hv : v ≠ .null) :
    ArithOp.add.apply t v = .ok .null ↔ LeavesDoubles t v := by
  unfold ArithOp.apply
  split
  · exact absurd rfl ht
  · exact absurd rfl hv
  · split
    · rename_i m n hm hn
      have hword : ArithOp.add.words m n ≠ .ok .null := by
        rw [ArithOp.words, wordResult]
        split <;> simp
      refine ⟨fun h => absurd h hword, ?_⟩
      rintro ⟨_, _, _, _, hnone, _⟩
      rw [hm, hn] at hnone
      rcases hnone with hnone | hnone <;> cases hnone
    · rename_i hwords
      have hnone : t.word? = none ∨ v.word? = none := by
        cases hm : t.word? with
        | none => exact .inl rfl
        | some m =>
          cases hn : v.word? with
          | none => exact .inr rfl
          | some n => exact absurd hn (hwords m n hm)
      split
      · rename_i x y hx hy
        have hnull : Value.ofFloat (x + y) = .null ↔ (x + y).isFinite = false := by
          rw [Value.ofFloat]
          cases (x + y).isFinite <;> simp
        rw [ArithOp.floats, Except.ok.injEq, hnull]
        refine ⟨fun h => ⟨x, y, hx, hy, hnone, h⟩, ?_⟩
        rintro ⟨x', y', hx', hy', _, h⟩
        rw [hx] at hx'
        rw [hy] at hy'
        rwa [Option.some.inj hx', Option.some.inj hy']
      · rename_i hfloats
        constructor
        · intro h
          cases h
        · rintro ⟨x, y, hx, hy, _⟩
          exact absurd hy (hfloats x y hx)

theorem accrue_null (t : Value) : accrue t .null = .ok t := if_pos rfl

theorem null_accrue (v : Value) : accrue .null v = .ok v := by
  rw [accrue]
  by_cases hv : v.isNull = true
  · rw [if_pos hv, Value.isNull_iff.mp hv]
  · rw [if_neg hv]
    rfl

theorem accrue_of_ne {t v : Value} (ht : t ≠ .null) (hv : v ≠ .null) :
    accrue t v = ArithOp.add.apply t v := by
  rw [accrue, if_neg (Value.isNull_iff.not.mpr hv), if_neg (Value.isNull_iff.not.mpr ht)]

/-! ## Many values -/

/-- After a total has been dropped the values that follow are added up by themselves. -/
theorem total_of_dropped {before after : List Value} {v : Value} (h : DroppedBy before v) :
    (before ++ v :: after).foldlM accrue .null = after.foldlM accrue .null := by
  obtain ⟨t, ht, htnull, hv, hleaves⟩ := h
  have hnull : accrue t v = .ok .null := by
    rw [accrue_of_ne htnull hv]
    exact (add_eq_null htnull hv).mpr hleaves
  rw [List.foldlM_append, ht]
  show (v :: after).foldlM accrue t = _
  rw [List.foldlM_cons, hnull]
  rfl

theorem total_of_nulls {vs : List Value} (h : ∀ v ∈ vs, v = .null) :
    vs.foldlM accrue .null = .ok .null := by
  induction vs with
  | nil => rfl
  | cons v rest ih =>
    obtain ⟨rfl, hrest⟩ := List.forall_mem_cons.mp h
    rw [List.foldlM_cons, accrue_null]
    exact ih hrest

/-- NULL is the total of NULLs, after what has been dropped if anything has. -/
theorem total_null_iff {vs : List Value} {t : Value} (h : vs.foldlM accrue .null = .ok t) :
    t = .null ↔ (∀ v ∈ vs, v = .null) ∨ ∃ before v after,
      vs = before ++ v :: after ∧ DroppedBy before v ∧ ∀ u ∈ after, u = .null := by
  constructor
  · rintro rfl
    induction vs using List.reverseRecOn with
    | nil => exact .inl nofun
    | append_singleton vs v ih =>
      rw [foldlM_snoc] at h
      cases ht : vs.foldlM accrue .null with
      | error err =>
        rw [ht] at h
        cases h
      | ok t =>
        rw [ht] at h
        have h : accrue t v = .ok .null := h
        by_cases hv : v = .null
        · -- The value adds nothing, and the total was NULL before.
          subst hv
          rw [accrue_null] at h
          obtain rfl := Except.ok.inj h
          rcases ih ht with hall | ⟨before, w, after, rfl, hdrop, hafter⟩
          · left
            intro u hu
            rcases List.mem_append.mp hu with hu | hu
            · exact hall u hu
            · exact List.mem_singleton.mp hu
          · right
            refine ⟨before, w, after ++ [.null], by simp, hdrop, fun u hu => ?_⟩
            rcases List.mem_append.mp hu with hu | hu
            · exact hafter u hu
            · exact List.mem_singleton.mp hu
        · -- The value is what makes the total NULL.
          have htnull : t ≠ .null := by
            rintro rfl
            rw [null_accrue] at h
            exact hv (Except.ok.inj h)
          rw [accrue_of_ne htnull hv] at h
          right
          exact ⟨vs, v, [], rfl, ⟨t, ht, htnull, hv, (add_eq_null htnull hv).mp h⟩, nofun⟩
  · rintro (hall | ⟨before, v, after, rfl, hdrop, hafter⟩)
    · rw [total_of_nulls hall] at h
      exact (Except.ok.inj h).symm
    · rw [total_of_dropped hdrop, total_of_nulls hafter] at h
      exact (Except.ok.inj h).symm

/-! ## Runs -/

section

variable {rows : List (List Value)} {events : List Event}

/-- The state is the total of the values since the last reset. -/
theorem total_of_reach {t : Value} (h : sumAccrual.reach (headOf rows) events = .ok t) :
    (valuesSince rows events).foldlM accrue .null = .ok t := by
  induction events using List.reverseRecOn generalizing t with
  | nil => exact h
  | append_singleton events e ih =>
    obtain ⟨x, hx, hfollow⟩ := (Accrual.reach_snoc_ok _ _).mp h
    rw [valuesSince, Event.sinceReset_snoc]
    cases e with
    | reset => exact hfollow
    | report name =>
      obtain rfl := Except.ok.inj hfollow
      exact ih hx
    | add r =>
      show ((Event.sinceReset events ++ [r]).map (headOf rows)).foldlM accrue .null = _
      rw [List.map_append, List.map_singleton, foldlM_snoc]
      show ((valuesSince rows events).foldlM accrue .null).bind _ = _
      rw [ih hx]
      exact hfollow

end

/-- A call of `sum` over values of any kind, after its reset taken through resets, adds and reports
in any order, so that the block runs to its end.  At each point on the way the slot holds the total
of the values since the last reset, and so does the expression that the result phase replies there.
That is NULL exactly if all of them are or a total has been dropped and all values after it are
NULL; and a total that has been dropped does not count. -/
theorem sum_null_iff {types : List DataType} {returns : DataType} {nullable : Bool}
    (htyping : sum.aggregate.typing types = .ok (returns, nullable)) (distinct : Bool)
    (config : Config) {rows : List (List Value)} (hlen : IsWord rows.length)
    (hcols : ∀ row ∈ rows, 1 ≤ row.length) (frame : Option FrameFacts) {events : List Event}
    (hrows : ∀ r, .add r ∈ events → r < rows.length) (st : Store) :
    let sig := Signature.of sum.aggregate.name types returns nullable distinct
    let block := fun events => (sum.tried config sig events).pass.draft.stmts
    let run := Stmt.runAll ⟨rows, frame⟩ st
    (start config).BindsReplies (sum.traced sig events) ∧
    ((∃ st', run (block events) = (st', .ok ())) →
    ∀ before, before <+: events →
      let w := sum.tried config sig before
      let values := valuesSince rows before
      ∃ st' t, run (block before) = (st', .ok ()) ∧ st'.slots ⟨0⟩ = some t ∧
        (∃ v, w.step (.result 0) = (w, .ok (.value v)) ∧ v.eval ⟨rows, frame⟩ st' = .ok t) ∧
        (t = .null ↔ (∀ v ∈ values, v = .null) ∨ ∃ vs v ws, values = vs ++ v :: ws ∧
          DroppedBy vs v ∧ ∀ w ∈ ws, w = .null) ∧
        ∀ vs v ws, values = vs ++ v :: ws → DroppedBy vs v → ws.foldlM accrue .null = .ok t) := by
  intro sig block run
  have hsig : sum.Admits sig.arity := admits_of_typing htyping
  have hanswered : Answered (start config) (sum.traced sig events) :=
    tried_answered hsig rfl events
  refine ⟨hanswered.bound, ?_⟩
  intro hrun before hbefore w values
  obtain ⟨after, rfl⟩ := hbefore
  have hone : sig.arity = 1 := hsig
  have hreads : Reads ⟨rows, frame⟩ (headOf rows) (before ++ after) :=
    fun r hr st => argument_eval hlen hcols (hrows r hr) frame st
  cases hreach : sumAccrual.reach (headOf rows) before with
  | error err =>
    -- Then the whole block would have stopped.
    have hstop : sumAccrual.reach (headOf rows) (before ++ after) = .error err := by
      rw [Accrual.reach, List.foldlM_append]
      show Except.bind (sumAccrual.reach (headOf rows) before) _ = _
      rw [hreach]
      rfl
    obtain ⟨_, _, _, _, _, _, _, _, _, _, hstop⟩ :=
      sumAccrual.stops config hsig rfl hone hreads hstop st
    obtain ⟨st', hrun⟩ := hrun
    rw [show run (block (before ++ after)) = _ from hstop] at hrun
    cases (Prod.mk.inj hrun).2
  | ok t =>
    obtain ⟨st', hrun, hcarries, _⟩ :=
      sumAccrual.runs config hsig rfl hone hreads.of_append hreach st
    have htotal := total_of_reach hreach
    have hresult : w.step (.result 0) = (w, .ok (.value (sum.resultExpr SlotId.mk))) :=
      (tried_drives hsig rfl before).result rfl
    refine ⟨st', t, hrun, carries_singleton.mp hcarries,
      ⟨_, hresult, sumAccrual.result _ _ _ _ hcarries⟩, total_null_iff htotal,
      fun vs v ws hsplit hdrop => ?_⟩
    have hvalues : valuesSince rows before = vs ++ v :: ws := hsplit
    rw [hvalues, total_of_dropped hdrop] at htotal
    exact htotal

/-- A double of about ten to the power of 308, which is finite, but not if it is doubled. -/
def large : Float := .ofBits 0x7fe1ccf385ebc8a0

def largeAndSmall : List (List Value) := [[.float large], [.float 5.0]]

theorem large_dropped : DroppedBy [.float large] (.float large) := by
  refine ⟨.float large, rfl, nofun, nofun, large, large, rfl, rfl, .inl rfl, ?_⟩
  decide +kernel

theorem largeAndSmall_reads (events : List Event) (hrows : ∀ r, .add r ∈ events → r < 2) :
    Reads ⟨largeAndSmall, none⟩ (headOf largeAndSmall) events :=
  fun r hr st => argument_eval (by decide) (by decide) (hrows r hr) none st

/-- The large number added twice is dropped, and what follows is the total. -/
theorem small_after_large :
    let w := sum.tried (.strict "agg") (.of sum.aggregate.name [.float] .float true false)
      [.add 0, .add 0, .add 1]
    let env : Env := ⟨largeAndSmall, none⟩
    ∃ st v, Stmt.runAll env .fresh w.pass.draft.stmts = (st, .ok ()) ∧
      st.slots ⟨0⟩ = some (.float 5.0) ∧
      w.step (.result 0) = (w, .ok (.value v)) ∧ v.eval env st = .ok (.float 5.0) := by
  intro w env
  have htyping : sum.aggregate.typing [.float] = .ok (.float, true) := rfl
  have hrows : ∀ r, .add r ∈ [Event.add 0, .add 0, .add 1] → r < largeAndSmall.length := by
    intro r hr
    simp only [List.mem_cons, Event.add.injEq, List.not_mem_nil, or_false] at hr
    simp only [largeAndSmall, List.length_cons, List.length_nil]
    omega
  have hreach : sumAccrual.reach (headOf largeAndSmall) [.add 0, .add 0, .add 1] =
      .ok (.float 5.0) := rfl
  have hsig : sum.Admits (Signature.of sum.aggregate.name [.float] .float true false).arity := rfl
  obtain ⟨st, hrun, _⟩ := sumAccrual.runs (.strict "agg") hsig rfl rfl
    (largeAndSmall_reads _ hrows) hreach .fresh
  obtain ⟨_, htotals⟩ := sum_null_iff htyping false (.strict "agg") (by decide) (by decide) none
    hrows .fresh
  obtain ⟨st, t, hrun, hslot, ⟨v, hresult, heval⟩, _, htotal⟩ :=
    htotals ⟨st, hrun⟩ _ (List.prefix_refl _)
  have ht : [Value.float 5.0].foldlM accrue .null = .ok t := htotal _ _ _ rfl large_dropped
  obtain rfl : Value.float 5.0 = t := Except.ok.inj ht
  exact ⟨st, v, hrun, hslot, hresult, heval⟩

/-- No value is NULL, all are finite, and the total is NULL. -/
theorem nothing_of_large :
    (∀ v ∈ valuesSince largeAndSmall [.add 0, .add 0], ∃ x, v = .float x ∧ x.isFinite = true) ∧
    let w := sum.tried (.strict "agg") (.of sum.aggregate.name [.float] .float true false)
      [.add 0, .add 0]
    let env : Env := ⟨largeAndSmall, none⟩
    ∃ st v, Stmt.runAll env .fresh w.pass.draft.stmts = (st, .ok ()) ∧
      st.slots ⟨0⟩ = some .null ∧
      w.step (.result 0) = (w, .ok (.value v)) ∧ v.eval env st = .ok .null := by
  have hfinite : large.isFinite = true := by decide +kernel
  constructor
  · intro v hv
    have hv : v ∈ [Value.float large, .float large] := hv
    simp only [List.mem_cons, List.not_mem_nil, or_false, or_self] at hv
    exact ⟨large, hv, hfinite⟩
  intro w env
  have hrows : ∀ r, .add r ∈ [Event.add 0, .add 0] → r < 2 := by
    intro r hr
    simp only [List.mem_cons, Event.add.injEq, List.not_mem_nil, or_false] at hr
    omega
  have hreach : sumAccrual.reach (headOf largeAndSmall) [.add 0, .add 0] = .ok .null := rfl
  have hsig : sum.Admits (Signature.of sum.aggregate.name [.float] .float true false).arity := rfl
  obtain ⟨st, hrun, hcarries, _⟩ := sumAccrual.runs (.strict "agg") hsig rfl rfl
    (largeAndSmall_reads _ hrows) hreach .fresh
  exact ⟨st, _, hrun, carries_singleton.mp hcarries, (tried_drives hsig rfl _).result rfl,
    sumAccrual.result _ _ _ _ hcarries⟩

end Builtin
end WindowFold
