import Mathlib.Logic.Function.Basic
import WindowFold.Proofs.Builtin.Turns
import WindowFold.Proofs.Machine.Numbers

/-!
# Means of numbers

A call of `avg` holds a total and a number in two slots, which are assigned one after the other.
Over a column of numbers and NULLs the two stay in step however several calls are reset, fed, merged
and asked for results (`means_run`).  The total is that of the values, added up as doubles from the
left, the number says how many they are, and a result is their quotient (`avg_of_turns`).

A total that leaves the finite doubles is NULL from then on, while the number goes on.  Nothing but
the number can stop a run, by growing beyond the signed words.
-/

namespace WindowFold

/-- A number as a total of doubles may take it in, or NULL. -/
def IsNumberOrNull (v : Value) : Prop := v = .null ∨ (∃ n, v = .int n) ∨ ∃ x, v = .float x

/-- A total of doubles.  It is NULL if it has left the finite ones. -/
def IsTotal (v : Value) : Prop := v = .null ∨ ∃ x, v = .float x

theorem IsTotal.isNumberOrNull {v : Value} (h : IsTotal v) : IsNumberOrNull v := h.imp_right .inr

theorem isTotal_ofFloat (x : Float) : IsTotal (.ofFloat x) := by
  rw [Value.ofFloat]
  split
  · exact .inr ⟨x, rfl⟩
  · exact .inl rfl

/-- A number is added to a total as a double. -/
theorem IsTotal.add_ok {t v : Value} (ht : IsTotal t) (hv : IsNumberOrNull v) :
    ∃ t', ArithOp.add.apply t v = .ok t' := by
  rcases ht with rfl | ⟨x, rfl⟩
  · exact ⟨.null, rfl⟩
  · rcases hv with rfl | ⟨n, rfl⟩ | ⟨y, rfl⟩
    · exact ⟨.null, rfl⟩
    · exact ⟨.ofFloat (x + wordToFloat n), rfl⟩
    · exact ⟨.ofFloat (x + y), rfl⟩

theorem IsTotal.of_add {t v t' : Value} (ht : IsTotal t) (h : ArithOp.add.apply t v = .ok t') :
    IsTotal t' := by
  rcases ht with rfl | ⟨x, rfl⟩
  · obtain rfl := Except.ok.inj h
    exact .inl rfl
  · cases v with
    | null =>
      obtain rfl := Except.ok.inj h
      exact .inl rfl
    | int n =>
      obtain rfl := Except.ok.inj h
      exact isTotal_ofFloat _
    | float y =>
      obtain rfl := Except.ok.inj h
      exact isTotal_ofFloat _
    | bool | string | array | object => cases h

/-- A total divided by the number of its values, and NULL if there are none. -/
def quotient (total : Value) (number : Nat) : Except RunError Value :=
  if number = 0 then .ok .null else ArithOp.div.apply total (.int number)

theorem quotient_float (x : Float) {k : Nat} (hzero : k ≠ 0) (hk : k < 0x8000000000000000) :
    quotient (.float x) k = .ok (.ofFloat (x / wordToFloat k)) := by
  have hlong : Double.IsLong k := ⟨by omega, by omega⟩
  have hne : ¬(wordToFloat k == 0) = true :=
    (wordToFloat_beq_zero hlong).not.mpr (Int.natCast_ne_zero.mpr hzero)
  rw [quotient, if_neg hzero]
  exact if_neg hne

theorem IsTotal.divide {t : Value} (ht : IsTotal t) {k : Nat} (hk : k < 0x8000000000000000) :
    ∃ q, quotient t k = .ok q := by
  by_cases hzero : k = 0
  · exact ⟨.null, if_pos hzero⟩
  · rcases ht with rfl | ⟨x, rfl⟩
    · exact ⟨.null, if_neg hzero⟩
    · exact ⟨_, quotient_float x hzero hk⟩

/-- The run comes to its end in a store that satisfies `P`, but if `c` fails it overflows. -/
def CompletesIff (c : Prop) (o : Outcome) (P : Store → Prop) : Prop :=
  (c → Completes o P) ∧ (¬c → ∃ st, o = (st, .error .arithmeticOverflow))

namespace CompletesIff

variable {c d : Prop} {o : Outcome} {P Q : Store → Prop}

theorem mono (h : CompletesIff c o P) (hPQ : ∀ st, P st → Q st) : CompletesIff c o Q :=
  ⟨fun hc => (h.1 hc).mono hPQ, h.2⟩

theorem congr (h : CompletesIff c o P) (hcd : d ↔ c) : CompletesIff d o P :=
  ⟨fun hd => h.1 (hcd.mp hd), fun hd => h.2 (hcd.not.mp hd)⟩

theorem of_completes (h : Completes o P) (hc : c) : CompletesIff c o P :=
  ⟨fun _ => h, fun hnot => absurd hc hnot⟩

theorem iff (h : CompletesIff c o P) : (∃ st, o = (st, .ok ())) ↔ c := by
  refine ⟨?_, fun hc => ?_⟩
  · rintro ⟨st, ho⟩
    by_contra hc
    obtain ⟨st', hstop⟩ := h.2 hc
    rw [ho] at hstop
    cases (Prod.mk.inj hstop).2
  · obtain ⟨st, ho, _⟩ := h.1 hc
    exact ⟨st, ho⟩

theorem append {env : Env} {st : Store} {a b : List Stmt}
    (ha : CompletesIff c (Stmt.runAll env st a) P)
    (hb : c → ∀ st', P st' → CompletesIff d (Stmt.runAll env st' b) Q) :
    CompletesIff (c ∧ d) (Stmt.runAll env st (a ++ b)) Q := by
  rw [Stmt.runAll_append]
  constructor
  · rintro ⟨hc, hd⟩
    exact (ha.1 hc).andThen fun st' h => (hb hc st' h).1 hd
  · intro hnot
    by_cases hc : c
    · obtain ⟨st', hrun, hP⟩ := ha.1 hc
      rw [hrun, andThen_ok]
      exact (hb hc st' hP).2 fun hd => hnot ⟨hc, hd⟩
    · obtain ⟨st', hrun⟩ := ha.2 hc
      rw [hrun, andThen_error]
      exact ⟨st', rfl⟩

end CompletesIff

/-- A total and the number of values in it. -/
structure Mean where
  total : Value
  number : Nat
  sound : IsTotal total

namespace Mean

/-- Nothing has been added. -/
def start : Mean := ⟨.float 0.0, 0, .inr ⟨_, rfl⟩⟩

/-- The total with a value added to it. -/
def plus (m : Mean) (v : Value) : Value := (ArithOp.add.apply m.total v).toOption.getD .null

theorem isTotal_plus (m : Mean) (v : Value) : IsTotal (m.plus v) := by
  rw [plus]
  cases h : ArithOp.add.apply m.total v with
  | error e => exact .inl rfl
  | ok t => exact m.sound.of_add h

theorem add_eq_plus (m : Mean) {v : Value} (hv : IsNumberOrNull v) :
    ArithOp.add.apply m.total v = .ok (m.plus v) := by
  obtain ⟨t, ht⟩ := m.sound.add_ok hv
  rw [plus, ht]
  rfl

/-- Take in one more value.  NULL is passed over. -/
def take (m : Mean) (v : Value) : Mean :=
  if v.isNull then m else ⟨m.plus v, m.number + 1, m.isTotal_plus v⟩

/-- Take in what another one has taken in. -/
def join (m n : Mean) : Mean := ⟨m.plus n.total, m.number + n.number, m.isTotal_plus n.total⟩

/-- What the slots of a call hold. -/
def contents (m : Mean) : List Value := [m.total, .int m.number]

/-- The number fits its slot. -/
def Fits (m : Mean) : Prop := m.number < 0x8000000000000000

end Mean

namespace Builtin

open Workspace

/-! ## The code of a call -/

section

variable {s s' : Nat → SlotId} {env : Env} {st : Store} {m n : Mean}

/-- Something is added to the total, and then to the number. -/
theorem pair_runs (hs : s.Injective) {a c : Expr} {t v t' : Value} {k l : Nat}
    (hst : st.Carries s [t, .int k]) (hk : k < 0x8000000000000000) (hl : l < 0x8000000000000000)
    (ha : a.eval env st = .ok v) (hadd : ArithOp.add.apply t v = .ok t')
    (hc : c.eval env (st.setSlot (s 0) t') = .ok (.int l)) :
    CompletesIff (k + l < 0x8000000000000000) (Stmt.runAll env st
      [.assign (s 0) (.add (.slot (s 0)) a), .assign (s 1) (.add (.slot (s 1)) c)])
      fun st' => st'.Carries s [t', .int ((k + l : Nat) : Int)] := by
  obtain ⟨htotal, hnumber⟩ := carries_pair.mp hst
  have hne : s 1 ≠ s 0 := fun h => Nat.one_ne_zero (hs h)
  -- The second statement runs when the total has been written already.
  have hnumber' : (st.setSlot (s 0) t').slots (s 1) = some (.int k) := by
    rw [Store.setSlot_slots, if_neg hne, hnumber]
  have hfirst : ((Expr.slot (s 0)).add a).eval env st = .ok t' := by
    simp only [Expr.add, Expr.eval, htotal, ha, bind, Except.bind, hadd]
  have hsecond : ((Expr.slot (s 1)).add c).eval env (st.setSlot (s 0) t') = wordResult (k + l) :=
    eval_words (eval_slot hnumber') hc ⟨by omega, by omega⟩ ⟨by omega, by omega⟩
  have hword : IsWord (k + l) ↔ k + l < 0x8000000000000000 := by
    unfold IsWord
    omega
  rw [Stmt.runAll, Stmt.run, hfirst, proceed_ok, andThen_ok, runAll_singleton, Stmt.run, hsecond,
    wordResult]
  refine ⟨fun h => ?_, fun h => ?_⟩
  · rw [if_pos (hword.mpr h), proceed_ok]
    refine ⟨_, rfl, carries_pair.mpr ⟨?_, ?_⟩⟩
    · rw [Store.setSlot_slots, if_neg hne.symm, Store.setSlot_slots, if_pos rfl]
    · rw [Store.setSlot_slots, if_pos rfl, Int.natCast_add]
  · rw [if_neg (hword.not.mpr h)]
    exact ⟨_, rfl⟩

theorem avg_reset (hs : s.Injective) (env : Env) (st : Store) :
    Completes (Stmt.runAll env st (avg.resetCode s))
      fun st' => st'.Carries s Mean.start.contents := by
  have hne : s 0 ≠ s 1 := fun h => Nat.zero_ne_one (hs h)
  refine ⟨(st.setSlot (s 0) (.float 0.0)).setSlot (s 1) (.int 0), rfl, carries_pair.mpr ⟨?_, ?_⟩⟩
  · rw [Store.setSlot_slots, if_neg hne, Store.setSlot_slots, if_pos rfl]
    rfl
  · rw [Store.setSlot_slots, if_pos rfl]
    rfl

/-- An add goes through as long as the number fits. -/
theorem avg_add (hs : s.Injective) (hst : st.Carries s m.contents) (hm : m.Fits) {e : Expr}
    {v : Value} (he : e.eval env st = .ok v) (hv : IsNumberOrNull v) :
    CompletesIff (m.take v).Fits (Stmt.runAll env st (avg.addValueCode s e))
      fun st' => st'.Carries s (m.take v).contents := by
  rw [addValueCode, runAll_singleton, run_branch (test_isNotNull he), Mean.take]
  cases v.isNull with
  | true => exact .of_completes ⟨st, rfl, hst⟩ hm
  | false => exact pair_runs hs hst hm (by decide) he (m.add_eq_plus hv) rfl

/-- A merge goes through as long as the number fits. -/
theorem avg_merge (env : Env) (hs : s.Injective) (hne : s' 1 ≠ s 0) (hst : st.Carries s m.contents)
    (hst' : st.Carries s' n.contents) (hm : m.Fits) (hn : n.Fits) :
    CompletesIff (m.join n).Fits (Stmt.runAll env st (avg.mergeCode s s'))
      fun st' => st'.Carries s (m.join n).contents := by
  obtain ⟨htotal, hnumber⟩ := carries_pair.mp hst'
  refine pair_runs hs hst hm hn (eval_slot htotal) (m.add_eq_plus n.sound.isNumberOrNull) ?_
  refine eval_slot ?_
  rw [Store.setSlot_slots, if_neg hne, hnumber]

theorem avg_result (hst : st.Carries s m.contents) (hm : m.Fits) (env : Env) :
    (avg.resultExpr s).eval env st = quotient m.total m.number := by
  obtain ⟨htotal, hnumber⟩ := carries_pair.mp hst
  have hm : m.number < 0x8000000000000000 := hm
  have htest : ((Expr.slot (s 1)).eq (.int 0)).test env st =
      .ok (some (CompareOp.eq.holds (compare (m.number : Int) 0))) :=
    test_compare_words (eval_slot hnumber) rfl ⟨by omega, by omega⟩ (by decide)
  rw [resultExpr, eval_choose htest, quotient]
  by_cases hzero : m.number = 0
  · rw [if_pos hzero, hzero]
    rfl
  · have hne : (m.number : Int) ≠ 0 := Int.natCast_ne_zero.mpr hzero
    have hholds : ¬CompareOp.eq.holds (compare (m.number : Int) 0) = true := by
      rw [CompareOp.holds, Ordering.isEq_iff_eq_eq, compare_eq_iff_eq]
      exact hne
    rw [if_neg hzero, if_neg hholds]
    simp only [Expr.div, Expr.eval, htotal, hnumber, bind, Except.bind]

end

/-! ## The means of the calls -/

section

variable {values : Nat → Value} {turns : List Turn} {t : Turn} {u : Nat}

/-- What a turn makes of the means of the calls, the rows having these values. -/
def told (values : Nat → Value) (ms : Nat → Mean) : Turn → Nat → Mean
  | .create | .report _ _ => ms
  | .reset u => Function.update ms u .start
  | .add u r => Function.update ms u ((ms u).take (values r))
  | .merge u v => Function.update ms u ((ms u).join (ms v))

def meansOf (values : Nat → Value) (turns : List Turn) : Nat → Mean :=
  turns.foldl (told values) fun _ => .start

theorem meansOf_snoc (turns : List Turn) (t : Turn) :
    meansOf values (turns ++ [t]) = told values (meansOf values turns) t := List.foldl_append

/-- No call ever counts too many values. -/
def NumbersFit (values : Nat → Value) (turns : List Turn) : Prop :=
  ∀ before, before <+: turns → ∀ u, (meansOf values before u).Fits

theorem numbersFit_nil : NumbersFit values [] := by
  intro before hbefore u
  rw [List.prefix_nil.mp hbefore]
  show 0 < 0x8000000000000000
  decide

theorem NumbersFit.last (h : NumbersFit values turns) (u : Nat) : (meansOf values turns u).Fits :=
  h turns (List.prefix_refl _) u

theorem numbersFit_snoc : NumbersFit values (turns ++ [t]) ↔
    NumbersFit values turns ∧ ∀ u, (told values (meansOf values turns) t u).Fits := by
  rw [← meansOf_snoc]
  constructor
  · intro h
    exact ⟨fun before hbefore => h before (hbefore.trans (List.prefix_append _ _)), h.last⟩
  · rintro ⟨h, hlast⟩ before hbefore
    rcases List.prefix_concat_iff.mp hbefore with rfl | hbefore
    · exact hlast
    · exact h before hbefore

/-- An add counts one more value, and a merge counts no more than twice as many. -/
theorem number_le (turns : List Turn) (u : Nat) : (meansOf values turns u).number ≤
    turns.countP Turn.isAdd * 2 ^ turns.countP Turn.isMerge := by
  induction turns using List.reverseRecOn generalizing u with
  | nil => exact Nat.zero_le _
  | append_singleton turns t ih =>
    rw [meansOf_snoc, List.countP_append, List.countP_append]
    cases t with
    | create => exact ih u
    | report => exact ih u
    | reset v =>
      rw [told, Function.update_apply]
      split
      · exact Nat.zero_le _
      · exact ih u
    | add v r =>
      have hpos : 1 ≤ 2 ^ turns.countP Turn.isMerge := Nat.one_le_two_pow
      have hmore : turns.countP Turn.isAdd * 2 ^ turns.countP Turn.isMerge + 1 ≤
          (turns.countP Turn.isAdd + 1) * 2 ^ turns.countP Turn.isMerge := by
        rw [Nat.add_mul, Nat.one_mul]
        exact Nat.add_le_add_left hpos _
      refine Nat.le_trans ?_ hmore
      rw [told, Function.update_apply]
      split
      · rw [Mean.take]
        split
        · exact Nat.le_add_right_of_le (ih v)
        · exact Nat.add_le_add_right (ih v) 1
      · exact Nat.le_add_right_of_le (ih u)
    | merge v w =>
      have htwice : turns.countP Turn.isAdd * 2 ^ (turns.countP Turn.isMerge + 1) =
          turns.countP Turn.isAdd * 2 ^ turns.countP Turn.isMerge +
            turns.countP Turn.isAdd * 2 ^ turns.countP Turn.isMerge := by
        rw [Nat.pow_succ, ← Nat.mul_assoc, Nat.mul_two]
      show _ ≤ turns.countP Turn.isAdd * 2 ^ (turns.countP Turn.isMerge + 1)
      rw [htwice, told, Function.update_apply]
      split
      · exact Nat.add_le_add (ih v) (ih w)
      · exact Nat.le_add_right_of_le (ih u)

theorem numbersFit_of_few (hfew : turns.countP Turn.isAdd * 2 ^ turns.countP Turn.isMerge <
    0x8000000000000000) : NumbersFit values turns := by
  intro before hbefore u
  have hadds := hbefore.sublist.countP_le (p := Turn.isAdd)
  have hmerges := hbefore.sublist.countP_le (p := Turn.isMerge)
  have hpow := Nat.pow_le_pow_right Nat.two_pos hmerges
  exact ((number_le before u).trans (Nat.mul_le_mul hadds hpow)).trans_lt hfew

/-- The values that turns add to a call, NULL being left out. -/
def valuesFor (values : Nat → Value) (u : Nat) (turns : List Turn) : List Value :=
  ((Turn.rowsFor u turns).map values).filter (!·.isNull)

theorem valuesFor_snoc (values : Nat → Value) (u : Nat) (turns : List Turn) (t : Turn) :
    valuesFor values u (turns ++ [t]) = valuesFor values u turns ++
      ((Turn.rowFor u t).toList.map values).filter (!·.isNull) := by
  rw [valuesFor, Turn.rowsFor_snoc, List.map_append, List.filter_append]
  rfl

/-- One more value at the right. -/
theorem take_snoc {vs : List Value} {m : Mean} {v : Value}
    (h : vs.foldlM ArithOp.add.apply (.float 0.0) = .ok m.total ∧ vs.length = m.number)
    (hv : IsNumberOrNull v) :
    let vs' := vs ++ [v].filter (!·.isNull)
    vs'.foldlM ArithOp.add.apply (.float 0.0) = .ok (m.take v).total ∧
      vs'.length = (m.take v).number := by
  intro vs'
  rw [Mean.take]
  cases hnull : v.isNull with
  | true =>
    have hvs' : vs' = vs := by simp [vs', hnull]
    rw [hvs']
    exact h
  | false =>
    have hvs' : vs' = vs ++ [v] := by simp [vs', hnull]
    rw [hvs', foldlM_snoc, h.1, List.length_append, h.2]
    exact ⟨m.add_eq_plus hv, rfl⟩

/-- Only what is done with a call itself changes its mean. -/
theorem told_other {ms : Nat → Mean} (hreset : t ≠ .reset u) (hadd : ∀ r, t ≠ .add u r)
    (hmerge : ∀ v, t ≠ .merge u v) : told values ms t u = ms u := by
  cases t with
  | create | report => rfl
  | reset v => exact Function.update_of_ne (fun huv : u = v => hreset (huv ▸ rfl)) _ _
  | add v r => exact Function.update_of_ne (fun huv : u = v => hadd r (huv ▸ rfl)) _ _
  | merge v w => exact Function.update_of_ne (fun huv : u = v => hmerge w (huv ▸ rfl)) _ _

/-- Since its last reset a call that nothing has been merged into has taken in what it was fed. -/
theorem mean_since {earlier later : List Turn}
    (hlater : ∀ t ∈ later, t ≠ .reset u ∧ ∀ v, t ≠ .merge u v)
    (hvalues : ∀ r, .add u r ∈ later → IsNumberOrNull (values r)) :
    let vs := valuesFor values u later
    let m := meansOf values (earlier ++ .reset u :: later) u
    vs.foldlM ArithOp.add.apply (.float 0.0) = .ok m.total ∧ vs.length = m.number := by
  induction later using List.reverseRecOn with
  | nil =>
    intro vs m
    have hm : m = .start := by
      show meansOf values (earlier ++ [.reset u]) u = _
      rw [meansOf_snoc, told, Function.update_self]
    rw [hm]
    exact ⟨rfl, rfl⟩
  | append_singleton later t ih =>
    have ih := ih (fun t ht => hlater t (List.mem_append_left _ ht))
      fun r hr => hvalues r (List.mem_append_left _ hr)
    obtain ⟨hreset, hmerge⟩ := hlater t (List.mem_append_right _ List.mem_cons_self)
    intro vs m
    have hm : m = told values (meansOf values (earlier ++ .reset u :: later)) t u := by
      rw [← meansOf_snoc, List.append_assoc]
      rfl
    rw [hm, show vs = _ from valuesFor_snoc values u later t]
    by_cases hadd : ∃ r, t = .add u r
    · obtain ⟨r, rfl⟩ := hadd
      have hv := hvalues r (List.mem_append_right _ List.mem_cons_self)
      rw [Turn.rowFor_add, told, Function.update_self]
      exact take_snoc ih hv
    · have hadd : ∀ r, t ≠ .add u r := fun r ht => hadd ⟨r, ht⟩
      rw [told_other hreset hadd hmerge, Turn.rowFor_other hadd]
      show (_ ++ []).foldlM _ _ = _ ∧ (_ ++ []).length = _
      rw [List.append_nil]
      exact ih

end

/-! ## The run of the turns -/

section

variable {values : Nat → Value} {turns : List Turn} {t : Turn} {u : Nat} {ready ready' : List Bool}
  {ms : Nat → Mean} {m : Mean} {env : Env} {st : Store} {config : Config} {sig : Signature}

/-- Every call that has been reset holds its mean. -/
def HoldsMeans (ready : List Bool) (ms : Nat → Mean) (st : Store) : Prop :=
  ∀ u, ready[u]? = some true → st.Carries (avg.unitSlots u) (ms u).contents

/-- The rows that are added have these values in their first column. -/
def Feed (env : Env) (values : Nat → Value) (turns : List Turn) : Prop :=
  ∀ u r, .add u r ∈ turns → IsNumberOrNull (values r) ∧
    ∀ st, (Expr.argument 0 (.int r)).eval env st = .ok (values r)

theorem fits_update (hms : ∀ v, (ms v).Fits) :
    (∀ v, (Function.update ms u m v).Fits) ↔ m.Fits := by
  rw [Function.forall_update_iff ms fun _ x => x.Fits]
  exact and_iff_left fun v _ => hms v

/-- Code that writes slots of one call changes the mean of that one. -/
theorem HoldsMeans.update (h : HoldsMeans ready ms st) {ss : List Stmt}
    (hother : ∀ v, u ≠ v → ready'[v]? = some true → ready[v]? = some true)
    (hss : ∀ x ∈ Stmt.writtenAll ss, avg.Own (avg.unitSlots u) x)
    (hrun : Completes (Stmt.runAll env st ss)
      fun st' => st'.Carries (avg.unitSlots u) m.contents) :
    Completes (Stmt.runAll env st ss) (HoldsMeans ready' (Function.update ms u m)) := by
  obtain ⟨st', hrun, hcarries⟩ := hrun
  refine ⟨st', hrun, ?_⟩
  intro v hv
  by_cases huv : u = v
  · subst huv
    rw [Function.update_self]
    exact hcarries
  · have hkept := carries_of_apart env huv hss rfl (h v (hother v huv hv))
    rw [hrun] at hkept
    rw [Function.update_of_ne (Ne.symm huv)]
    exact hkept

theorem HoldsMeans.runs (h : HoldsMeans ready ms st) (hms : ∀ v, (ms v).Fits) {ss : List Stmt}
    (hother : ∀ v, u ≠ v → ready'[v]? = some true → ready[v]? = some true)
    (hss : ∀ x ∈ Stmt.writtenAll ss, avg.Own (avg.unitSlots u) x) (hlocals : Stmt.localsAll ss = [])
    (hrun : CompletesIff m.Fits (Stmt.runAll env st ss)
      fun st' => st'.Carries (avg.unitSlots u) m.contents) :
    CompletesIff (∀ v, (Function.update ms u m v).Fits) (Stmt.runAll env st ss) fun st' =>
      HoldsMeans ready' (Function.update ms u m) st' ∧ st'.locals = st.locals := by
  refine CompletesIff.congr ⟨fun hm => ?_, hrun.2⟩ (fits_update hms)
  exact (h.update hother hss (hrun.1 hm)).keepsLocals hlocals

/-- One turn: locals handed out before are kept, and a report binds one more. -/
theorem turn_runs (ht : Turn.Follows ready t ready') (hfeed : Feed env values [t])
    (h : HoldsMeans ready ms st) (hms : ∀ v, (ms v).Fits) (p : Pass) :
    CompletesIff (∀ v, (told values ms t v).Fits) (Stmt.runAll env st (avg.turnCode 1 p t))
      fun st' => HoldsMeans ready' (told values ms t) st' ∧
        (∀ z : LocalId, z.index < p.draft.declared.length → st'.locals z = st.locals z) ∧
        ∀ u name, t = .report u name → validName (p.bindingName name) = true →
          ∃ q, quotient (ms u).total (ms u).number = .ok q ∧
            st'.locals (p.nextLocal name).id = some q := by
  have hinj := unitSlots_injective avg
  cases ht with
  | create =>
    refine .of_completes ⟨st, rfl, fun u hu => ?_, fun _ _ => rfl, nofun⟩ hms
    refine h u ?_
    rcases Nat.lt_or_ge u ready.length with hlt | hge
    · rwa [List.getElem?_append_left hlt] at hu
    · rw [List.getElem?_append_right hge, List.getElem?_singleton] at hu
      split at hu <;> simp at hu
  | @reset u hu =>
    have hreset := CompletesIff.of_completes (c := Mean.start.Fits) (avg_reset (hinj u) env st)
      (by unfold Mean.Fits Mean.start; decide)
    refine (h.runs hms (fun v huv hv => ?_) (fun x hx => ?_) rfl hreset).mono
      fun st' h => ⟨h.1, fun z _ => by rw [h.2], nofun⟩
    · rwa [List.getElem?_set_ne huv] at hv
    · exact resetCode_touched x (Stmt.writtenAll_subset_touchedAll _ hx)
  | @add u r hu =>
    obtain ⟨hv, heval⟩ := hfeed u r List.mem_cons_self
    have hadd := avg_add (hinj u) (h u hu) (hms u) (heval st) hv
    rw [← addCode_column] at hadd
    exact (h.runs hms (fun _ _ hv => hv) (addCode_written _) rfl hadd).mono
      fun st' h => ⟨h.1, fun z _ => by rw [h.2], nofun⟩
  | @merge u v hne hu hv =>
    have hapart : avg.unitSlots v 1 ≠ avg.unitSlots u 0 :=
      unitSlots_apart hne.symm Nat.one_lt_two Nat.zero_lt_two
    have hmerge := avg_merge env (hinj u) hapart (h u hu) (h v hv) (hms u) (hms v)
    exact (h.runs hms (fun _ _ hv => hv) mergeCode_written rfl hmerge).mono
      fun st' h => ⟨h.1, fun z _ => by rw [h.2], nofun⟩
  | @report u name hu =>
    obtain ⟨q, hq⟩ := (ms u).sound.divide (hms u)
    have heval := (avg_result (h u hu) (hms u) env).trans hq
    refine .of_completes ((bindCode_runs heval p name).mono fun st' hst' => ?_) hms
    obtain ⟨hslots, hkept, hlocal⟩ := hst'
    refine ⟨fun v hv => (h v hv).congr fun _ _ => by rw [hslots], hkept, ?_⟩
    intro u' name' hreport hvalid
    obtain ⟨rfl, rfl⟩ := Turn.report.inj hreport
    exact ⟨q, hq, hlocal hvalid⟩

/-- The block of the turns runs to its end exactly if all numbers fit.  Then the calls hold their
means, and each bound local the quotient of the one that it was bound in. -/
theorem means_run (hone : sig.arity = 1) (hturns : Turn.followAll turns = some ready)
    (hfeed : Feed env values turns) (config : Config) (st : Store) :
    CompletesIff (NumbersFit values turns)
      (Stmt.runAll env st (avg.taken config sig turns).pass.draft.stmts) fun st' =>
        HoldsMeans ready (meansOf values turns) st' ∧
        ∀ before u x, avg.BindsIn config sig turns before u x →
          ∃ q, quotient (meansOf values before u).total (meansOf values before u).number = .ok q ∧
            st'.locals x.id = some q := by
  have hn : avg.Admits sig.arity := hone
  induction turns using List.reverseRecOn generalizing ready with
  | nil =>
    obtain rfl := Option.some.inj hturns
    refine .of_completes ⟨st, rfl, nofun, ?_⟩ numbersFit_nil
    rintro before u x ⟨name, after, hsplit, _⟩
    simp at hsplit
  | append_singleton turns t ih =>
    obtain ⟨ready₁, h₁, ht⟩ := Turn.followAll_snoc.mp hturns
    have hbefore := ih h₁ fun u r hr => hfeed u r (List.mem_append_left _ hr)
    have hlast : Feed env values [t] := fun u r hr => hfeed u r (List.mem_append_right _ hr)
    rw [taken_snoc_stmts rfl hn hturns, hone]
    refine (hbefore.append fun hfits st₁ hst₁ => ?_).congr numbersFit_snoc
    obtain ⟨hholds, hbound⟩ := hst₁
    refine (turn_runs (Turn.follows_of_follow ht) hlast hholds hfits.last _).mono fun st' h => ?_
    obtain ⟨hholds', hkept, hreport⟩ := h
    rw [meansOf_snoc]
    refine ⟨hholds', fun before u x hx => ?_⟩
    -- A result was bound by this turn, or its local has a number that the pass has already used.
    rcases hx.cases rfl hn hturns with ⟨rfl, name, ht, hvalid, rfl⟩ | hx
    · exact hreport u name ht hvalid
    · obtain ⟨q, hq, hlocal⟩ := hbound before u x hx
      exact ⟨q, hq, (hkept x.id (hx.declared rfl hn h₁)).trans hlocal⟩

/-- What has been reached on the way. -/
theorem means_before (hone : sig.arity = 1) {after : List Turn}
    (hturns : Turn.followAll (turns ++ after) = some ready)
    (hfeed : Feed env values (turns ++ after)) (hfits : NumbersFit values (turns ++ after))
    (config : Config) (st : Store) : ∃ ready₁, Turn.followAll turns = some ready₁ ∧
      Completes (Stmt.runAll env st (avg.taken config sig turns).pass.draft.stmts)
        (HoldsMeans ready₁ (meansOf values turns)) := by
  obtain ⟨ready₁, h₁, _⟩ := Turn.followAll_append.mp hturns
  have hrun := means_run hone h₁ (fun u r hr => hfeed u r (List.mem_append_left _ hr)) config st
  refine ⟨ready₁, h₁, (hrun.1 fun before hbefore => ?_).mono fun _ h => h.1⟩
  exact hfits before (hbefore.trans (List.prefix_append _ _))

end

/-- Every row starts with a number or NULL. -/
structure NumberColumn (rows : List (List Value)) : Prop where
  columns : ∀ row ∈ rows, 1 ≤ row.length
  head : ∀ r, IsNumberOrNull (headOf rows r)

/-- Calls of `avg` over a column of numbers and NULLs that take turns.  Nothing is refused but names
of results, and what is bound is always what the result phase has replied.  Nothing but an overflow
stops the block, and that takes many adds or merges.

Wherever the run has got to, each call that has been reset holds a total and a number.  If nothing
has been merged into it since then, these are the values that it has been fed, added up as doubles
from the left, and how many they are, NULL being left out of both.  A result that is bound is NULL
if the number is zero, and else the total divided by the number.  A merge adds up the totals and the
numbers of two calls, and the second one keeps its own. -/
theorem avg_of_turns {types : List DataType} {returns : DataType} {nullable : Bool}
    (htyping : avg.aggregate.typing types = .ok (returns, nullable)) (distinct : Bool)
    (config : Config) {rows : List (List Value)} (hlen : IsWord rows.length)
    (hcol : NumberColumn rows) (frame : Option FrameFacts) {turns : List Turn} {ready : List Bool}
    (hturns : Turn.followAll turns = some ready)
    (hrows : ∀ u r, .add u r ∈ turns → r < rows.length) (st : Store) :
    let sig := Signature.of avg.aggregate.name types returns nullable distinct
    let run := fun turns =>
      Stmt.runAll ⟨rows, frame⟩ st (avg.taken config sig turns).pass.draft.stmts
    let fed := valuesFor (headOf rows)
    OnlyNamesRefused (turns.flatMap (avg.turnInstructions sig))
      ((start config).attempts (turns.flatMap (avg.turnInstructions sig))).1 ∧
    (start config).BindsReplies (turns.flatMap (avg.turnInstructions sig)) ∧
    (turns.countP Turn.isAdd * 2 ^ turns.countP Turn.isMerge < 0x8000000000000000 →
      ∃ st', run turns = (st', .ok ())) ∧
    (∀ st' e, run turns = (st', .error e) → e = .arithmeticOverflow) ∧
    ∀ st', run turns = (st', .ok ()) → ∀ before after, turns = before ++ after →
      ∃ st₁, run before = (st₁, .ok ()) ∧ ∀ u, .reset u ∈ before → ∃ (total : Value) (k : Nat),
        st₁.Carries (avg.unitSlots u) [total, .int k] ∧
        (∀ earlier later, before = earlier ++ .reset u :: later →
          (∀ t ∈ later, t ≠ .reset u ∧ ∀ v, t ≠ .merge u v) →
          (fed u later).foldlM ArithOp.add.apply (.float 0.0) = .ok total ∧
            (fed u later).length = k) ∧
        (∀ x, avg.BindsIn config sig turns before u x →
          ∃ q, quotient total k = .ok q ∧ st'.locals x.id = some q) ∧
        ∀ v rest, after = .merge u v :: rest → ∃ (total' : Value) (k' : Nat), ∃ sum st₂,
          st₁.Carries (avg.unitSlots v) [total', .int k'] ∧
          ArithOp.add.apply total total' = .ok sum ∧
          run (before ++ [.merge u v]) = (st₂, .ok ()) ∧
          st₂.Carries (avg.unitSlots u) [sum, .int ((k + k' : Nat) : Int)] ∧
          st₂.Carries (avg.unitSlots v) [total', .int k'] := by
  intro sig run fed
  have hone : sig.arity = 1 := admits_of_typing htyping
  have hfeed : Feed ⟨rows, frame⟩ (headOf rows) turns := fun u r hr =>
    ⟨hcol.head r, fun st => argument_eval hlen hcol.columns (hrows u r hr) frame st⟩
  have hmeans := means_run hone hturns hfeed config st
  have hanswered : Answered (start config) (turns.flatMap (avg.turnInstructions sig)) :=
    taken_answered rfl hone hturns
  refine ⟨hanswered.refused, hanswered.bound, fun hfew => ?_, fun st' e hrun => ?_, ?_⟩
  · exact hmeans.iff.mpr (numbersFit_of_few hfew)
  · by_cases hfits : NumbersFit (headOf rows) turns
    · obtain ⟨st₁, hrun₁, _⟩ := hmeans.1 hfits
      cases (Prod.mk.inj (hrun.symm.trans hrun₁)).2
    · obtain ⟨st₁, hrun₁⟩ := hmeans.2 hfits
      exact Except.error.inj (Prod.mk.inj (hrun.symm.trans hrun₁)).2
  · rintro st' hrun before after rfl
    have hfits := hmeans.iff.mp ⟨st', hrun⟩
    obtain ⟨st₀, hrun₀, _, hbound⟩ := hmeans.1 hfits
    obtain rfl : st₀ = st' := (Prod.mk.inj (hrun₀.symm.trans hrun)).1
    obtain ⟨ready₁, h₁, st₁, hrun₁, hholds⟩ := means_before hone hturns hfeed hfits config st
    refine ⟨st₁, hrun₁, fun u hu => ?_⟩
    have hready := Turn.ready_of_reset h₁ hu
    refine ⟨_, _, hholds u hready, ?_, fun x hx => hbound before u x hx, ?_⟩
    · rintro earlier later rfl hlater
      exact mean_since hlater fun r _ => hcol.head r
    · rintro v rest rfl
      rw [List.append_cons] at hturns hfeed hfits
      obtain ⟨ready₂, h₂, st₂, hrun₂, hholds₂⟩ := means_before hone hturns hfeed hfits config st
      obtain ⟨ready₃, h₃, ht⟩ := Turn.followAll_snoc.mp h₂
      obtain rfl : ready₁ = ready₃ := Option.some.inj (h₁.symm.trans h₃)
      rw [meansOf_snoc, told] at hholds₂
      cases Turn.follows_of_follow ht with
      | merge hne _ hv =>
        have hu₂ := hholds₂ u hready
        have hv₂ := hholds₂ v hv
        rw [Function.update_self] at hu₂
        rw [Function.update_of_ne hne.symm] at hv₂
        exact ⟨_, _, _, st₂, hholds v hv, Mean.add_eq_plus _ (Mean.sound _).isNumberOrNull, hrun₂,
          hu₂, hv₂⟩

/-- Two numbers, with NULL in between. -/
def oneNull : List (List Value) := [[.float 1.5], [.null], [.int 4]]

def separateMeans : List Turn :=
  [.create, .create, .reset 0, .reset 1, .add 0 0, .report 0 "a", .add 1 1, .report 1 "b", .add 1 2]

theorem quotient_one_and_half : quotient (.float 1.5) 1 = .ok (.float 1.5) := by
  have hfinite : ((1.5 : Float) / wordToFloat (1 : Nat)).isFinite = true := by decide +kernel
  have hvalue : (1.5 : Float) / wordToFloat (1 : Nat) = 1.5 := by decide +kernel
  rw [quotient_float 1.5 Nat.one_ne_zero (by decide), Value.ofFloat, if_pos hfinite, hvalue]

/-- The mean of one number and that of none, and then both calls merged. -/
theorem merged_means :
    let run := fun turns => Stmt.runAll ⟨oneNull, none⟩ .fresh (avg.taken (.strict "agg")
      (.of avg.aggregate.name [.float] .float true false) turns).pass.draft.stmts
    ∃ st, run (separateMeans ++ [.merge 0 1]) = (st, .ok ()) ∧
      (∃ a b : LocalId, st.locals a = some (.float 1.5) ∧ st.locals b = some .null) ∧
      st.Carries (avg.unitSlots 0) [.float 5.5, .int 2] ∧
      st.Carries (avg.unitSlots 1) [.float 4.0, .int 1] := by
  intro run
  have htyping : avg.aggregate.typing [.float] = .ok (.float, true) := rfl
  have hlen : IsWord oneNull.length := by decide
  have hcol : NumberColumn oneNull := by
    refine ⟨by decide, fun r => ?_⟩
    match r with
    | 0 => exact .inr (.inr ⟨1.5, rfl⟩)
    | 1 => exact .inl rfl
    | 2 => exact .inr (.inl ⟨4, rfl⟩)
    | r + 3 => exact .inl rfl
  have hsig : avg.Admits (Signature.of avg.aggregate.name [.float] .float true false).arity := rfl
  have hturns : Turn.followAll (separateMeans ++ [.merge 0 1]) = some [true, true] := rfl
  have hrows : ∀ u r, .add u r ∈ separateMeans ++ [.merge 0 1] → r < oneNull.length := by
    intro u r hr
    simp only [separateMeans, List.cons_append, List.nil_append, List.mem_cons, Turn.add.injEq,
      reduceCtorEq, List.not_mem_nil, or_false, false_or] at hr
    simp only [oneNull, List.length_cons, List.length_nil]
    omega
  obtain ⟨_, _, hcompletes, _, hmeans⟩ :=
    avg_of_turns htyping false (.strict "agg") hlen hcol none hturns hrows .fresh
  obtain ⟨st, hrun⟩ := hcompletes (by decide)
  refine ⟨st, hrun, ?_, ?_⟩
  · have hlocal (u : Nat) (name : String) (hname : name.toList.all wordChar = true)
        (earlier later after : List Turn) (hsplit : separateMeans ++ [.merge 0 1] =
          earlier ++ .reset u :: later ++ .report u name :: after)
        (hlater : ∀ t ∈ later, t ≠ .reset u ∧ ∀ v, t ≠ .merge u v) {total q : Value}
        (htotal : (valuesFor (headOf oneNull) u later).foldlM ArithOp.add.apply (.float 0.0) =
          .ok total)
        (hq : quotient total (valuesFor (headOf oneNull) u later).length = .ok q) :
        ∃ x : LocalId, st.locals x = some q := by
      obtain ⟨_, _, hheld⟩ := hmeans st hrun (earlier ++ .reset u :: later) _ hsplit
      obtain ⟨total', k, _, hfold, hbound, _⟩ :=
        hheld u (List.mem_append_right _ List.mem_cons_self)
      obtain ⟨htotal', rfl⟩ := hfold earlier later rfl hlater
      obtain rfl : total = total' := Except.ok.inj (htotal.symm.trans htotal')
      have hnames : (Config.strict "agg").Names name := ⟨.inr (by decide), hname⟩
      obtain ⟨x, hx⟩ := bindsIn_of_names rfl hsig hnames (hsplit ▸ hturns)
      rw [← hsplit] at hx
      obtain ⟨q', hq', hlocal⟩ := hbound x hx
      obtain rfl : q = q' := Except.ok.inj (hq.symm.trans hq')
      exact ⟨x.id, hlocal⟩
    obtain ⟨a, ha⟩ := hlocal 0 "a" (by decide) [.create, .create] [.reset 1, .add 0 0] _ rfl
      (by simp) rfl quotient_one_and_half
    obtain ⟨b, hb⟩ := hlocal 1 "b" (by decide) [.create, .create, .reset 0]
      [.add 0 0, .report 0 "a", .add 1 1] _ rfl (by simp) rfl rfl
    exact ⟨a, b, ha, hb⟩
  · obtain ⟨st₁, _, hheld⟩ := hmeans st hrun separateMeans [.merge 0 1] rfl
    obtain ⟨total, k, _, hfold, _, hmerge⟩ := hheld 0 (by simp [separateMeans])
    obtain ⟨total', k', hcarries', hfold', _⟩ := hheld 1 (by simp [separateMeans])
    obtain ⟨htotal, rfl⟩ := hfold [.create, .create] _ rfl (by simp)
    obtain ⟨htotal', rfl⟩ := hfold' [.create, .create, .reset 0] _ rfl (by simp)
    obtain ⟨total'', k'', sum, st₂, hcarries'', hsum, hrun₂, h₀, h₁⟩ := hmerge 1 [] rfl
    obtain rfl : st = st₂ := (Prod.mk.inj (hrun.symm.trans hrun₂)).1
    obtain ⟨hslot, hslot'⟩ := carries_pair.mp hcarries'
    obtain ⟨htotal'', hk''⟩ := carries_pair.mp hcarries''
    obtain rfl : total' = total'' := Option.some.inj (hslot.symm.trans htotal'')
    obtain rfl : 1 = k'' :=
      Int.ofNat.inj (Value.int.inj (Option.some.inj (hslot'.symm.trans hk'')))
    obtain rfl : Value.float 1.5 = total := Except.ok.inj htotal
    obtain rfl : Value.float 4.0 = total' := Except.ok.inj htotal'
    obtain rfl : Value.float 5.5 = sum := Except.ok.inj hsum
    exact ⟨h₀, h₁⟩

end Builtin
end WindowFold
