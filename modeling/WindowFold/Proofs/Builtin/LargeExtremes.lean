import WindowFold.Proofs.Builtin.Dropped
import WindowFold.Proofs.Builtin.Extremes
import WindowFold.Proofs.Machine.Numbers

/-!
# The least and the greatest of large numbers

`min` and `max` keep a value until a better one comes.  What an add does to the slot is `improve`,
for values of every kind.

Numbers beyond the words are read as doubles when they are compared.  So two of them that are near
each other may be seen as equal, and then the one that came first is kept.  What is better is still
a matter of an order, as equal doubles have nothing else between them; hence no value is better than
the one kept, whatever the order in which they have come (`extremum_of_long`).
-/

namespace WindowFold

namespace Builtin

open Workspace

/-- Keep the value held, or take a better one.  NULL is no better than anything. -/
def improve (better : CompareOp) (held v : Value) : Except RunError Value :=
  if v.isNull then .ok held
  else if held.isNull then .ok v
  else (v.order held).map fun o => if better.holds o then v else held

def IsLongOrNull (v : Value) : Prop := v = .null ∨ ∃ n, v = .int n ∧ Double.IsLong n

/-- Every row starts with a whole number of 64 bits or NULL. -/
structure LongColumn (rows : List (List Value)) : Prop where
  columns : ∀ row ∈ rows, 1 ≤ row.length
  head : ∀ r, IsLongOrNull (headOf rows r)

/-! ## What an add does -/

section

variable {better : CompareOp} {s : Nat → SlotId} {env : Env} {st : Store} {e : Expr}
  {held v : Value}

/-- There is nothing held, or the value is better than what is. -/
theorem test_improves (hst : st.slots (s 0) = some held) (he : e.eval env st = .ok v)
    (hv : v.isNull = false) :
    ((Expr.slot (s 0)).isNull.or (.binary (.compare better) e (.slot (s 0)))).test env st =
      if held.isNull then .ok (some true)
      else (v.order held).map fun o => some (better.holds o) := by
  have hslot : (Expr.slot (s 0)).eval env st = .ok held := eval_slot hst
  have hempty := test_isNull hslot
  cases hheld : held.isNull with
  | true =>
    rw [hheld] at hempty
    exact test_or hempty nofun (y := true)
  | false =>
    rw [hheld] at hempty
    have hcompare : better.apply v held = (v.order held).map fun o => .bool (better.holds o) :=
      compare_not_null better hv hheld
    rw [test_or_false hempty, if_neg Bool.false_ne_true]
    simp only [Expr.test, Expr.eval, he, hst, bind, Except.bind, hcompare]
    cases v.order held <;> rfl

theorem improveCode_runs (hst : st.slots (s 0) = some held) (he : e.eval env st = .ok v) :
    Stmt.runAll env st (improveCode s better e) =
      proceed st (improve better held v) fun kept => (st.setSlot (s 0) kept, .ok ()) := by
  have hkept : ((st, .ok ()) : Outcome) = (st.setSlot (s 0) held, .ok ()) := by
    rw [Store.setSlot_same hst]
  have htaken : Stmt.runAll env st [.assign (s 0) e] = (st.setSlot (s 0) v, .ok ()) := by
    rw [runAll_singleton, Stmt.run, he, proceed_ok]
  rw [improveCode, runAll_singleton, run_branch (test_isNotNull he), improve]
  cases hv : v.isNull with
  | true => exact hkept
  | false =>
    rw [Bool.not_false, if_pos rfl, runAll_singleton, Stmt.run, test_improves hst he hv, htaken,
      if_neg Bool.false_ne_true]
    cases hheld : held.isNull with
    | true => rfl
    | false =>
      rw [if_neg Bool.false_ne_true, if_neg Bool.false_ne_true]
      cases v.order held with
      | error err => rfl
      | ok o =>
        show (if some (better.holds o) = some true then _ else _) =
          (st.setSlot (s 0) (if better.holds o = true then v else held), _)
        cases better.holds o with
        | true => rfl
        | false => exact hkept

/-- A function that takes a value in where it is better than the one held. -/
def improveAccrual {b : Builtin} (better : CompareOp)
    (hreset : ∀ s, b.resetCode s = [.assign (s 0) .null])
    (hadd : ∀ s e, b.addValueCode s e = improveCode s better e)
    (hresult : ∀ s, b.resultExpr s = .slot (s 0)) : Accrual b Value where
  initial := .null
  take := improve better
  contents t := [t]
  answer t := t
  reset s env st _ := by
    rw [hreset]
    exact (assign_completes rfl).mono fun _ h => carries_singleton.mpr h
  result s env st t h := by
    rw [hresult]
    exact eval_slot (carries_singleton.mp h)
  add_ok := by
    intro s env st held kept e v _ hst he hkept
    rw [hadd, improveCode_runs (carries_singleton.mp hst) he, hkept, proceed_ok]
    exact ⟨_, rfl, carries_singleton.mpr (if_pos rfl)⟩
  add_error := by
    intro s env st held e v err _ hst he herr
    rw [hadd, improveCode_runs (carries_singleton.mp hst) he, herr, proceed_error]

end

/-! ## Which one is kept -/

/-- How one of the two functions works: a value is better than another if it is `ahead` of it. -/
structure Judges (b : Builtin) (rel : Value → Value → Prop) (better : CompareOp)
    (ahead : Int → Int → Prop) : Prop where
  reset : ∀ s, b.resetCode s = [.assign (s 0) .null]
  add : ∀ s e, b.addValueCode s e = improveCode s better e
  result : ∀ s, b.resultExpr s = .slot (s 0)
  seen : ∀ m n, Double.IsLong m → Double.IsLong n →
    (better.holds (seenOrder m n) = true ↔ ahead m n)
  irrefl : ∀ m, ¬ahead m m
  trans : ∀ m n p, ahead m n → ahead n p → Double.IsLong m → Double.IsLong n → Double.IsLong p →
    ahead m p
  rel_of_not : ∀ m n, Double.IsLong m → Double.IsLong n → ¬ahead n m →
    rel (.int m) (.int n) ∨ Alike m n

variable {b : Builtin} {rel : Value → Value → Prop} {better : CompareOp} {ahead : Int → Int → Prop}

theorem Extreme.judges (hb : Extreme b rel) : ∃ better ahead, b.Judges rel better ahead := by
  cases hb with
  | min =>
    refine ⟨.lt, Below, fun _ => rfl, fun _ _ => rfl, fun _ => rfl, ?_, ?_, ?_, ?_⟩
    · exact fun m n _ _ => holds_lt
    · exact fun m h => Int.lt_irrefl m h.1
    · exact fun m n p h h' hm hn hp => h.trans h' hm hn hp
    · intro m n hm hn h
      by_cases hle : m ≤ n
      · exact .inl hle
      · refine .inr (by_contra fun hnot => h ⟨by omega, fun halike => ?_⟩)
        exact hnot (halike.symm hn hm)
  | max =>
    refine ⟨.gt, fun m n => Below n m, fun _ => rfl, fun _ _ => rfl, fun _ => rfl, ?_, ?_, ?_, ?_⟩
    · exact fun m n hm hn => holds_gt hm hn
    · exact fun m h => Int.lt_irrefl m h.1
    · exact fun m n p h h' hm hn hp => h'.trans h hp hn hm
    · intro m n hm hn h
      by_cases hle : n ≤ m
      · exact .inl hle
      · exact .inr (by_contra fun hnot => h ⟨by omega, hnot⟩)

/-- NULL where there is nothing else, and else one of the values that no other is ahead of. -/
structure Foremost (ahead : Int → Int → Prop) (values : List Value) (t : Value) : Prop where
  null : t = .null ↔ ∀ v ∈ values, v = .null
  member : t ≠ .null → t ∈ values
  first : ∀ m n, t = .int m → .int n ∈ values → ¬ahead n m

section

variable {values : List Value} {held v : Value} {m n : Int}

theorem Foremost.nothing : Foremost ahead [] .null :=
  ⟨⟨nofun, fun _ => rfl⟩, fun hne => absurd rfl hne, nofun⟩

theorem Foremost.skip (h : Foremost ahead values held) :
    Foremost ahead (values ++ [.null]) held where
  null := by
    rw [h.null, List.forall_mem_append, List.forall_mem_singleton]
    exact (and_iff_left rfl).symm
  member hne := List.mem_append_left _ (h.member hne)
  first m p hm hp := by
    refine h.first m p hm ((List.mem_append.mp hp).resolve_right fun hlast => ?_)
    cases List.mem_singleton.mp hlast

theorem mem_snoc_int {p : Int} :
    .int p ∈ values ++ [.int n] ↔ .int p ∈ values ∨ p = n := by
  rw [List.mem_append, List.mem_singleton, Value.int.injEq]

theorem not_all_null : ¬∀ w ∈ values ++ [.int n], w = .null := by
  intro hall
  cases hall (.int n) (mem_snoc_int.mpr (.inr rfl))

/-- A value that none is ahead of. -/
theorem Foremost.taken (h : ∀ p, .int p ∈ values → ¬ahead p n) (hself : ¬ahead n n) :
    Foremost ahead (values ++ [.int n]) (.int n) where
  null := ⟨nofun, fun hall => absurd hall not_all_null⟩
  member _ := mem_snoc_int.mpr (.inr rfl)
  first m p hm hp := by
    obtain rfl := Value.int.inj hm
    rcases mem_snoc_int.mp hp with hp | rfl
    · exact h p hp
    · exact hself

/-- A value that is not ahead. -/
theorem Foremost.kept (h : Foremost ahead values (.int m)) (hn : ¬ahead n m) :
    Foremost ahead (values ++ [.int n]) (.int m) where
  null := ⟨nofun, fun hall => absurd hall not_all_null⟩
  member _ := List.mem_append_left _ (h.member nofun)
  first m' p hm hp := by
    obtain rfl := Value.int.inj hm
    rcases mem_snoc_int.mp hp with hp | rfl
    · exact h.first m p rfl hp
    · exact hn

theorem improve_ints (hm : Double.IsLong m) (hn : Double.IsLong n) :
    improve better (.int m) (.int n) =
      .ok (if better.holds (seenOrder n m) = true then .int n else .int m) := by
  show ((Value.int n).order (.int m)).map _ = _
  rw [order_whole hn hm]
  rfl

/-- One more value is taken in.  What no value was ahead of has none ahead that is not ahead of the
new one as well. -/
theorem Judges.takes (hj : b.Judges rel better ahead) (h : Foremost ahead values held)
    (hvalues : ∀ w ∈ values, IsLongOrNull w) (hv : IsLongOrNull v) :
    ∃ kept, improve better held v = .ok kept ∧ Foremost ahead (values ++ [v]) kept := by
  rcases hv with rfl | ⟨n, rfl, hn⟩
  · exact ⟨held, rfl, h.skip⟩
  by_cases hheld : held = .null
  · -- The first value that is not NULL.
    subst hheld
    refine ⟨.int n, rfl, .taken (fun p hp => ?_) (hj.irrefl n)⟩
    cases h.null.mp rfl _ hp
  obtain ⟨m, rfl, hm⟩ := (hvalues _ (h.member hheld)).resolve_left hheld
  by_cases hahead : ahead n m
  · rw [improve_ints hm hn, if_pos ((hj.seen n m hn hm).mpr hahead)]
    refine ⟨_, rfl, .taken (fun p hp hbetter => ?_) (hj.irrefl n)⟩
    obtain ⟨_, heq, hlong⟩ := (hvalues _ hp).resolve_left nofun
    obtain rfl := Value.int.inj heq
    exact h.first m p rfl hp (hj.trans p n m hbetter hahead hlong hn hm)
  · rw [improve_ints hm hn, if_neg ((hj.seen n m hn hm).not.mpr hahead)]
    exact ⟨_, rfl, h.kept hahead⟩

end

theorem LongColumn.since {rows : List (List Value)} (h : LongColumn rows) (events : List Event) :
    ∀ v ∈ valuesSince rows events, IsLongOrNull v := by
  intro v hv
  obtain ⟨r, _, rfl⟩ := List.mem_map.mp hv
  exact h.head r

/-- What the function works by. -/
def Judges.accrual (hj : b.Judges rel better ahead) : Accrual b Value :=
  improveAccrual better hj.reset hj.add hj.result

/-- The adds never fail, and one of the values since the last reset is kept. -/
theorem Judges.reach (hj : b.Judges rel better ahead) {rows : List (List Value)}
    (hcol : LongColumn rows) (events : List Event) : ∃ t,
    hj.accrual.reach (headOf rows) events = .ok t ∧
      Foremost ahead (valuesSince rows events) t := by
  induction events using List.reverseRecOn with
  | nil => exact ⟨.null, rfl, .nothing⟩
  | append_singleton events e ih =>
    obtain ⟨t, ht, hforemost⟩ := ih
    rw [valuesSince, Event.sinceReset_snoc, Accrual.reach_snoc, ht]
    cases e with
    | reset => exact ⟨.null, rfl, .nothing⟩
    | report name => exact ⟨t, rfl, hforemost⟩
    | add r =>
      obtain ⟨kept, hkept, hnext⟩ := hj.takes hforemost (hcol.since events) (hcol.head r)
      refine ⟨kept, hkept, ?_⟩
      show Foremost ahead ((Event.sinceReset events ++ [r]).map (headOf rows)) kept
      rw [List.map_append, List.map_singleton]
      exact hnext

/-- Whole numbers of 64 bits are always comparable.  They compare as the numbers that they are, but
for numbers that are read as one double, of which one at least is no word and which differ by 2048
at most; these are seen as equal.  A call of `min` or `max` over a column of such numbers and NULLs,
after its reset taken through resets, adds and reports in any order, runs to its end.  Nothing is
refused but names of results, and what is bound is always what the result phase has replied.  Each
bound local is NULL if all values since the last reset are, and else it is one of them that is at
most, or at least, every other, but for those that are seen as equal to it. -/
theorem extremum_of_long (hb : Extreme b rel) {types : List DataType} {returns : DataType}
    {nullable : Bool} (htyping : b.aggregate.typing types = .ok (returns, nullable))
    (distinct : Bool) (config : Config) {rows : List (List Value)} (hlen : IsWord rows.length)
    (hcol : LongColumn rows) (frame : Option FrameFacts) {events : List Event}
    (hrows : ∀ r, .add r ∈ events → r < rows.length) (st : Store) :
    let sig := Signature.of b.aggregate.name types returns nullable distinct
    (∀ m n, Double.IsLong m → Double.IsLong n →
      (∀ (op : CompareOp) env st l r, l.eval env st = .ok (.int m) → r.eval env st = .ok (.int n) →
        (Expr.binary (.compare op) l r).eval env st =
          .ok (.bool (op.holds (if Alike m n then .eq else compare m n)))) ∧
      (Alike m n → ¬(IsWord m ∧ IsWord n) ∧ (m - n).natAbs ≤ 2048)) ∧
    OnlyNamesRefused (b.traced sig events) ((start config).attempts (b.traced sig events)).1 ∧
    (start config).BindsReplies (b.traced sig events) ∧
    ∃ st', Stmt.runAll ⟨rows, frame⟩ st (b.tried config sig events).pass.draft.stmts =
        (st', .ok ()) ∧
      ∀ before x, b.Binds config sig events before x →
        ∃ t, st'.locals x.id = some t ∧ (t = .null ↔ ∀ v ∈ valuesSince rows before, v = .null) ∧
          (t ≠ .null → ∃ m, t = .int m ∧ .int m ∈ valuesSince rows before ∧
            ∀ n, .int n ∈ valuesSince rows before → rel (.int m) (.int n) ∨ Alike m n) := by
  intro sig
  obtain ⟨better, ahead, hj⟩ := hb.judges
  have hsig : b.Admits sig.arity := admits_of_typing htyping
  have hw : b.aggregate.windowOnly = false := by cases hb <;> rfl
  have hone : sig.arity = 1 := by cases hb <;> exact hsig
  have hreads : Reads ⟨rows, frame⟩ (headOf rows) events :=
    fun r hr st => argument_eval hlen hcol.columns (hrows r hr) frame st
  have hanswered : Answered (start config) (b.traced sig events) :=
    tried_answered hsig hw events
  refine ⟨fun m n hm hn => ⟨fun op env st l r hl hr => compare_whole op hl hr hm hn, fun h => ?_⟩,
    hanswered.refused, hanswered.bound, ?_⟩
  · exact ⟨h.1, h.near hm hn⟩
  · obtain ⟨_, ht, _⟩ := hj.reach hcol events
    obtain ⟨st', hrun, _, hbound⟩ := hj.accrual.runs config hsig hw hone hreads ht st
    refine ⟨st', hrun, fun before x hx => ?_⟩
    obtain ⟨_, t, ht, hlocal⟩ := hbound before x hx
    obtain ⟨t', ht', hforemost⟩ := hj.reach hcol before
    obtain rfl : t = t' := Except.ok.inj (ht.symm.trans ht')
    refine ⟨t, hlocal, hforemost.null, fun hne => ?_⟩
    have hmem := hforemost.member hne
    obtain ⟨m, rfl, hm⟩ := (hcol.since before t hmem).resolve_left hne
    refine ⟨m, rfl, hmem, fun n hn => ?_⟩
    obtain ⟨_, heq, hlongn⟩ := (hcol.since before _ hn).resolve_left nofun
    obtain rfl := Value.int.inj heq
    exact hj.rel_of_not m n hm hlongn (hforemost.first m n rfl hn)

/-- A word, NULL and two numbers beyond the words. -/
def farApart : List (List Value) :=
  [[.int 7], [.null], [.int 0xffffffffffffffff], [.int 0x8000000000000000]]

def fourAdds : List Event := [.add 0, .add 1, .add 2, .add 3]

/-- The greatest whole number of all is also that of these. -/
theorem greatest_of_long : ∃ st, ∃ x : LocalId,
    Stmt.runAll ⟨farApart, none⟩ .fresh (max.tried (.strict "agg")
      (.of max.aggregate.name [.int] .int true false)
      (fourAdds ++ [.report "a"])).pass.draft.stmts = (st, .ok ()) ∧
    st.locals x = some (.int 0xffffffffffffffff) := by
  have htyping : max.aggregate.typing [.int] = .ok (.int, true) := rfl
  have hsig : max.Admits (Signature.of max.aggregate.name [.int] .int true false).arity := rfl
  have hcol : LongColumn farApart := by
    refine ⟨by decide, fun r => ?_⟩
    match r with
    | 0 | 2 | 3 => exact .inr ⟨_, rfl, by decide⟩
    | 1 => exact .inl rfl
    | _ + 4 => exact .inl rfl
  have hrows : ∀ r, .add r ∈ fourAdds ++ [.report "a"] → r < farApart.length := by
    intro r hr
    simp only [fourAdds, List.cons_append, List.nil_append, List.mem_cons, Event.add.injEq,
      reduceCtorEq, List.not_mem_nil, or_false] at hr
    simp only [farApart, List.length_cons, List.length_nil]
    omega
  obtain ⟨hcompare, _, _, st, hrun, hbound⟩ :=
    extremum_of_long .max htyping false (.strict "agg") (by decide) hcol none hrows .fresh
  have hnames : (Config.strict "agg").Names "a" := ⟨.inr (by decide), by decide⟩
  obtain ⟨x, hx⟩ := binds_of_names hsig rfl hnames fourAdds []
  obtain ⟨t, hlocal, hnull, hgreatest⟩ := hbound fourAdds x hx
  have hvalues : valuesSince farApart fourAdds =
    [.int 7, .null, .int 0xffffffffffffffff, .int 0x8000000000000000] := rfl
  rw [hvalues] at hnull hgreatest
  have hne : t ≠ .null := fun h => nomatch hnull.mp h _ List.mem_cons_self
  obtain ⟨m, rfl, hmem, hbeyond⟩ := hgreatest hne
  have htop := hbeyond 0xffffffffffffffff (by simp)
  refine ⟨st, x.id, hrun, ?_⟩
  rw [hlocal]
  have hm : m = 0xffffffffffffffff := by
    have hlong : Double.IsLong 0xffffffffffffffff := by decide
    simp only [List.mem_cons, Value.int.injEq, reduceCtorEq, List.not_mem_nil, or_false,
      false_or] at hmem
    have hfar (hm : Double.IsLong m) (hlt : m + 2048 < 0xffffffffffffffff) : False := by
      rcases htop with htop | halike
      · have hle : (0xffffffffffffffff : Int) ≤ m := htop
        omega
      · obtain ⟨_, hnear⟩ := (hcompare m _ hm hlong).2 halike
        omega
    rcases hmem with rfl | rfl | rfl
    · exact (hfar (by decide) (by decide)).elim
    · rfl
    · exact (hfar (by decide) (by decide)).elim
  rw [hm]

theorem neighbours_alike : Alike 0x8000000000000000 0x8000000000000001 := by decide +kernel

def neighbours : List (List Value) := [[.int 0x8000000000000001], [.int 0x8000000000000000]]

/-- The least number beyond the words is not seen to be less than the next one, and if that one
comes first `min` keeps it. -/
theorem least_of_neighbours :
    (Expr.binary (.compare .lt) (.argument 0 (.int 0)) (.argument 1 (.int 0))).eval
      ⟨[[.int 0x8000000000000000, .int 0x8000000000000001]], none⟩ .fresh = .ok (.bool false) ∧
    let w := min.tried (.strict "agg") (.of min.aggregate.name [.int] .int true false)
      [.add 0, .add 1]
    let env : Env := ⟨neighbours, none⟩
    ∃ st v, Stmt.runAll env .fresh w.pass.draft.stmts = (st, .ok ()) ∧
      st.slots ⟨0⟩ = some (.int 0x8000000000000001) ∧
      w.step (.result 0) = (w, .ok (.value v)) ∧
      v.eval env st = .ok (.int 0x8000000000000001) := by
  constructor
  · rw [compare_whole .lt (m := 0x8000000000000000) (n := 0x8000000000000001) rfl rfl (by decide)
      (by decide), seenOrder, if_pos neighbours_alike]
    rfl
  · intro w env
    have hrows : ∀ r, .add r ∈ [Event.add 0, .add 1] → r < neighbours.length := by
      intro r hr
      simp only [List.mem_cons, Event.add.injEq, List.not_mem_nil, or_false] at hr
      simp only [neighbours, List.length_cons, List.length_nil]
      omega
    have hreads : Reads ⟨neighbours, none⟩ (headOf neighbours) [.add 0, .add 1] :=
      fun r hr st => argument_eval (by decide) (by decide) (hrows r hr) none st
    let a : Accrual min Value :=
      improveAccrual .lt (fun _ => rfl) (fun _ _ => rfl) fun _ => rfl
    have hkept : improve .lt (.int 0x8000000000000001) (.int 0x8000000000000000) =
        .ok (.int 0x8000000000000001) := by
      rw [improve_ints (by decide) (by decide), seenOrder, if_pos neighbours_alike]
      rfl
    have hreach : a.reach (headOf neighbours) ([.add 0] ++ [.add 1]) =
        .ok (.int 0x8000000000000001) :=
      (a.reach_snoc_ok (headOf neighbours)).mpr ⟨_, rfl, hkept⟩
    have hsig : min.Admits (Signature.of min.aggregate.name [.int] .int true false).arity := rfl
    obtain ⟨st, hrun, hcarries, _⟩ :=
      a.runs (.strict "agg") hsig rfl rfl hreads hreach .fresh
    exact ⟨st, _, hrun, carries_singleton.mp hcarries, (tried_drives hsig rfl _).result rfl,
      a.result _ _ _ _ hcarries⟩

end Builtin
end WindowFold
