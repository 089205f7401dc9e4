import WindowFold.Proofs.Double.Whole
import WindowFold.Proofs.Machine.Steps

/-!
# Operators on whole numbers

Words are computed with exactly, or else with an error.  Whole numbers beyond the words are read as
doubles, and then so is the result, even if there is a whole number of that size
(`arithmetic_of_whole`).  It is always finite, so that it is never NULL.

Such numbers are also compared as doubles (`compare_whole`).  That can make different ones equal if
they are near each other (`Alike.near`), but it never turns them round.
-/

namespace WindowFold

open Double

/-- The outcome in whole numbers.  Division drops the fraction. -/
def ArithOp.exact (op : ArithOp) (m n : Int) : Int :=
  match op with
  | .add => m + n
  | .sub => m - n
  | .mul => m * n
  | .div => m.tdiv n

/-- The outcome in doubles. -/
def ArithOp.rounded (op : ArithOp) (x y : Float) : Float :=
  match op with
  | .add => x + y
  | .sub => x - y
  | .mul => x * y
  | .div => x / y

/-- Two numbers that are read as one double. -/
def Alike (m n : Int) : Prop := ¬(IsWord m ∧ IsWord n) ∧ (wordToFloat m == wordToFloat n) = true

instance (m n : Int) : Decidable (Alike m n) := inferInstanceAs (Decidable (_ ∧ _))

/-- The order in which two whole numbers are seen. -/
def seenOrder (m n : Int) : Ordering := if Alike m n then .eq else compare m n

variable {op : ArithOp} {m n : Int}

/-! ## Computing -/

theorem ArithOp.words_eq (op : ArithOp) (m n : Int) : op.words m n =
    if op = .div ∧ n = 0 then .error .divisionByZero else wordResult (op.exact m n) := by
  cases op with
  | add => exact (if_neg fun h => nomatch h.1).symm
  | sub => exact (if_neg fun h => nomatch h.1).symm
  | mul => exact (if_neg fun h => nomatch h.1).symm
  | div => simp only [ArithOp.words, ArithOp.exact, true_and]

theorem whole_zero : Whole (0 : Float).toModel.unpack 0 := Whole.zero .positive

theorem wordToFloat_beq_zero (hn : IsLong n) : (wordToFloat n == 0) = true ↔ n = 0 := by
  rw [(unpack_wordToFloat hn).beq_iff whole_zero, nearestInt_eq_zero]

theorem ArithOp.isFinite_rounded (hm : IsLong m) (hn : IsLong n) (h : ¬(op = .div ∧ n = 0)) :
    (op.rounded (wordToFloat m) (wordToFloat n)).isFinite = true := by
  have hx := unpack_wordToFloat hm
  have hy := unpack_wordToFloat hn
  cases op with
  | add => exact isFinite_add hx hy
  | sub => exact isFinite_sub hx hy
  | mul => exact isFinite_mul hx hy
  | div => exact isFinite_div hx hy fun hzero => h ⟨rfl, nearestInt_eq_zero.mp hzero⟩

theorem ArithOp.floats_eq (hm : IsLong m) (hn : IsLong n) :
    op.floats (wordToFloat m) (wordToFloat n) =
      if op = .div ∧ n = 0 then .error .divisionByZero
      else .ok (.float (op.rounded (wordToFloat m) (wordToFloat n))) := by
  by_cases h : op = .div ∧ n = 0
  · obtain ⟨rfl, hzero⟩ := h
    rw [if_pos ⟨rfl, hzero⟩, ArithOp.floats, if_pos ((wordToFloat_beq_zero hn).mpr hzero)]
  · have hfinite := ArithOp.isFinite_rounded hm hn h
    have hvalue : Value.ofFloat (op.rounded (wordToFloat m) (wordToFloat n)) =
        .float (op.rounded (wordToFloat m) (wordToFloat n)) := by
      rw [Value.ofFloat, if_pos hfinite]
    rw [if_neg h, ← hvalue]
    cases op with
    | add => rfl
    | sub => rfl
    | mul => rfl
    | div =>
      have hzero : ¬(wordToFloat n == 0) = true :=
        (wordToFloat_beq_zero hn).not.mpr fun hzero => h ⟨rfl, hzero⟩
      rw [ArithOp.floats, if_neg hzero]
      rfl

theorem word?_whole (n : Int) : (Value.int n).word? = if IsWord n then some n else none := rfl

theorem ArithOp.apply_words (hm : IsWord m) (hn : IsWord n) :
    op.apply (.int m) (.int n) = op.words m n := by
  simp only [ArithOp.apply, word?_whole, if_pos hm, if_pos hn]

/-- Two whole numbers are words, or they are both read as doubles. -/
theorem ArithOp.apply_whole (hm : IsLong m) (hn : IsLong n) : op.apply (.int m) (.int n) =
    if op = .div ∧ n = 0 then .error .divisionByZero
    else if IsWord m ∧ IsWord n then wordResult (op.exact m n)
    else .ok (.float (op.rounded (wordToFloat m) (wordToFloat n))) := by
  by_cases hwords : IsWord m ∧ IsWord n
  · rw [ArithOp.apply_words hwords.1 hwords.2, ArithOp.words_eq, if_pos hwords]
  · have happly : op.apply (.int m) (.int n) = op.floats (wordToFloat m) (wordToFloat n) := by
      simp only [ArithOp.apply, word?_whole]
      by_cases hword : IsWord m
      · rw [if_pos hword, if_neg fun h => hwords ⟨hword, h⟩]
        rfl
      · rw [if_neg hword]
        rfl
    rw [happly, ArithOp.floats_eq hm hn, if_neg hwords]

theorem negate_whole (hm : IsLong m) : negate (.int m) =
    if IsWord m then if IsWord (-m) then .ok (.int (-m)) else .error .negationOverflow
    else .ok (.float (-wordToFloat m)) := by
  by_cases hword : IsWord m
  · rw [if_pos hword, negate, word?_whole, if_pos hword]
  · have hfinite : (-wordToFloat m).isFinite = true := isFinite_neg (unpack_wordToFloat hm)
    rw [if_neg hword, negate, word?_whole, if_neg hword]
    show Except.ok (Value.ofFloat (-wordToFloat m)) = _
    rw [Value.ofFloat, if_pos hfinite]

/-- Computing with whole numbers of 64 bits.  Division by zero is an error whatever is divided.
Otherwise words come to the exact result if that is a word, and else to an overflow; and as soon as
one operand is beyond the words the result is a finite double.  The same holds for the opposite of a
number.  So nothing ever comes to NULL, and what comes to a whole number is exact. -/
theorem arithmetic_of_whole (op : ArithOp) {env : Env} {st : Store} {l r : Expr}
    (hl : l.eval env st = .ok (.int m)) (hr : r.eval env st = .ok (.int n)) (hm : IsLong m)
    (hn : IsLong n) :
    let result := (Expr.binary (.arith op) l r).eval env st
    let double := op.rounded (wordToFloat m) (wordToFloat n)
    let opposite := (Expr.unary .neg l).eval env st
    (result = .error .divisionByZero ↔ op = .div ∧ n = 0) ∧
    (¬(op = .div ∧ n = 0) →
      (IsWord m ∧ IsWord n → result = if IsWord (op.exact m n) then .ok (.int (op.exact m n))
        else .error .arithmeticOverflow) ∧
      (¬(IsWord m ∧ IsWord n) → result = .ok (.float double) ∧ double.isFinite = true)) ∧
    (IsWord m → opposite = if IsWord (-m) then .ok (.int (-m)) else .error .negationOverflow) ∧
    (¬IsWord m → opposite = .ok (.float (-wordToFloat m)) ∧
      (-wordToFloat m).isFinite = true) := by
  intro result double opposite
  have hresult : result = op.apply (.int m) (.int n) := by
    simp only [result, Expr.eval, hl, hr, bind, Except.bind]
  have hopposite : opposite = negate (.int m) := by
    simp only [opposite, Expr.eval, hl, bind, Except.bind]
    rfl
  rw [hresult, hopposite, ArithOp.apply_whole hm hn, negate_whole hm]
  refine ⟨⟨fun h => ?_, fun h => if_pos h⟩, fun hdiv => ⟨fun hwords => ?_, fun hbeyond => ?_⟩,
    fun hword => if_pos hword, fun hbeyond => ⟨if_neg hbeyond, ?_⟩⟩
  · by_contra hdiv
    rw [if_neg hdiv] at h
    by_cases hwords : IsWord m ∧ IsWord n
    · rw [if_pos hwords, wordResult] at h
      split at h <;> cases h
    · rw [if_neg hwords] at h
      cases h
  · rw [if_neg hdiv, if_pos hwords, wordResult]
  · rw [if_neg hdiv, if_neg hbeyond]
    exact ⟨rfl, ArithOp.isFinite_rounded hm hn hdiv⟩
  · exact isFinite_neg (unpack_wordToFloat hm)

/-- The least number beyond the words, and one. -/
def beyondWords : Env := ⟨[[.int 0x8000000000000000, .int 1]], none⟩

/-- The difference of the two is a word, and still it is a double. -/
theorem greatest_word_rounded : ∃ x, x.isFinite = true ∧
    (Expr.binary (.arith .sub) (.argument 0 (.int 0)) (.argument 1 (.int 0))).eval beyondWords
      .fresh = .ok (.float x) := by
  have hleast : (Expr.argument 0 (.int 0)).eval beyondWords .fresh =
      .ok (.int 0x8000000000000000) := rfl
  have hone : (Expr.argument 1 (.int 0)).eval beyondWords .fresh = .ok (.int 1) := rfl
  obtain ⟨_, hresult, _⟩ := arithmetic_of_whole .sub hleast hone (by decide) (by decide)
  obtain ⟨_, hdouble⟩ := hresult (by decide)
  obtain ⟨heval, hfinite⟩ := hdouble (by decide)
  exact ⟨_, hfinite, heval⟩

/-- One more than the greatest whole number there is comes to a double, and is no error. -/
theorem greatest_plus_one :
    (Value.int 0xffffffffffffffff).dataType = .int ∧ (Value.int 1).dataType = .int ∧
    ∃ x, (Expr.binary (.arith .add) (.argument 0 (.int 0)) (.int 1)).eval
      ⟨[[.int 0xffffffffffffffff]], none⟩ .fresh = .ok (.float x) := by
  refine ⟨rfl, rfl, ArithOp.add.rounded (wordToFloat 0xffffffffffffffff) (wordToFloat 1), ?_⟩
  show ArithOp.add.apply (.int 0xffffffffffffffff) (.int 1) = _
  rw [ArithOp.apply_whole (by decide) (by decide), if_neg (by decide), if_neg (by decide)]

/-! ## Comparing -/

theorem beq_wordToFloat (hm : IsLong m) (hn : IsLong n) :
    (wordToFloat m == wordToFloat n) = true ↔ nearestInt m = nearestInt n :=
  (unpack_wordToFloat hm).beq_iff (unpack_wordToFloat hn)

/-- Numbers that are read as one double are near each other. -/
theorem Alike.near (h : Alike m n) (hm : IsLong m) (hn : IsLong n) : (m - n).natAbs ≤ 2048 := by
  have heq := (beq_wordToFloat hm hn).mp h.2
  have hm := nearestInt_near (show m.natAbs < 2 ^ 64 by omega)
  have hn := nearestInt_near (show n.natAbs < 2 ^ 64 by omega)
  omega

theorem Alike.symm (h : Alike m n) (hm : IsLong m) (hn : IsLong n) : Alike n m :=
  ⟨fun hwords => h.1 hwords.symm,
    (beq_wordToFloat hn hm).mpr ((beq_wordToFloat hm hn).mp h.2).symm⟩

/-- Rounding may make numbers equal, but does not turn them round. -/
theorem compare_nearestInt (h : nearestInt m ≠ nearestInt n) :
    compare (nearestInt m) (nearestInt n) = compare m n := by
  rcases Int.lt_trichotomy m n with hlt | rfl | hlt
  · have hle := nearestInt_mono (Int.le_of_lt hlt)
    rw [compare_lt_iff_lt.mpr hlt, compare_lt_iff_lt.mpr (by omega)]
  · exact absurd rfl h
  · have hle := nearestInt_mono (Int.le_of_lt hlt)
    rw [compare_gt_iff_gt.mpr hlt, compare_gt_iff_gt.mpr (by omega)]

theorem order_whole (hm : IsLong m) (hn : IsLong n) :
    (Value.int m).order (.int n) = .ok (seenOrder m n) := by
  by_cases hwords : IsWord m ∧ IsWord n
  · rw [seenOrder, if_neg fun h => h.1 hwords]
    simp only [Value.order, word?_whole, if_pos hwords.1, if_pos hwords.2]
  · have horder : (Value.int m).order (.int n) =
        compareFloats (wordToFloat m) (wordToFloat n) := by
      simp only [Value.order, word?_whole]
      by_cases hword : IsWord m
      · rw [if_pos hword, if_neg fun h => hwords ⟨hword, h⟩]
        rfl
      · rw [if_neg hword]
        rfl
    rw [horder, compareFloats_whole (unpack_wordToFloat hm) (unpack_wordToFloat hn), seenOrder]
    by_cases heq : nearestInt m = nearestInt n
    · rw [if_pos ⟨hwords, (beq_wordToFloat hm hn).mpr heq⟩, compare_eq_iff_eq.mpr heq]
    · rw [if_neg fun h => heq ((beq_wordToFloat hm hn).mp h.2), compare_nearestInt heq]

/-- A comparison of whole numbers succeeds, and tells how they are seen. -/
theorem compare_whole (op : CompareOp) {env : Env} {st : Store} {l r : Expr}
    (hl : l.eval env st = .ok (.int m)) (hr : r.eval env st = .ok (.int n)) (hm : IsLong m)
    (hn : IsLong n) : (Expr.binary (.compare op) l r).eval env st =
      .ok (.bool (op.holds (seenOrder m n))) := by
  simp only [Expr.eval, hl, hr, bind, Except.bind]
  show ((Value.int m).order (.int n)).map _ = _
  rw [order_whole hm hn]
  rfl

/-- The first is seen to be less than the second. -/
def Below (m n : Int) : Prop := m < n ∧ ¬Alike m n

theorem holds_lt : CompareOp.lt.holds (seenOrder m n) = true ↔ Below m n := by
  rw [CompareOp.holds, Ordering.isLT_iff_eq_lt, seenOrder, Below]
  by_cases h : Alike m n
  · rw [if_pos h]
    exact ⟨Ordering.noConfusion, fun hbelow => absurd h hbelow.2⟩
  · rw [if_neg h, compare_lt_iff_lt]
    exact ⟨fun hlt => ⟨hlt, h⟩, fun hbelow => hbelow.1⟩

theorem holds_gt (hm : IsLong m) (hn : IsLong n) :
    CompareOp.gt.holds (seenOrder m n) = true ↔ Below n m := by
  rw [CompareOp.holds, Ordering.isGT_iff_eq_gt, seenOrder, Below]
  by_cases h : Alike m n
  · rw [if_pos h]
    exact ⟨Ordering.noConfusion, fun hbelow => absurd (h.symm hm hn) hbelow.2⟩
  · rw [if_neg h, compare_gt_iff_gt]
    exact ⟨fun hlt => ⟨hlt, fun halike => h (halike.symm hn hm)⟩, fun hbelow => hbelow.1⟩

/-- Equal doubles have nothing but equal doubles between them. -/
theorem Below.trans {p : Int} (h : Below m n) (h' : Below n p) (hm : IsLong m) (hn : IsLong n)
    (hp : IsLong p) : Below m p := by
  refine ⟨Int.lt_trans h.1 h'.1, fun halike => ?_⟩
  have hends := (beq_wordToFloat hm hp).mp halike.2
  have hleft := nearestInt_mono (Int.le_of_lt h.1)
  have hright := nearestInt_mono (Int.le_of_lt h'.1)
  -- All three are read as one double, so that only words can have been told apart.
  have hwords (hequal : nearestInt m = nearestInt n) : IsWord m ∧ IsWord n := by
    by_contra hnot
    exact h.2 ⟨hnot, (beq_wordToFloat hm hn).mpr hequal⟩
  have hwords' (hequal : nearestInt n = nearestInt p) : IsWord n ∧ IsWord p := by
    by_contra hnot
    exact h'.2 ⟨hnot, (beq_wordToFloat hn hp).mpr hequal⟩
  exact halike.1 ⟨(hwords (by omega)).1, (hwords' (by omega)).2⟩

end WindowFold
