import Mathlib.Algebra.Order.Ring.Int
import Mathlib.Data.Nat.Log
import Mathlib.Order.Compare

/-!
# Rounding to the nearest double

A double has 53 binary digits.  A whole number with more of them is rounded to the nearest multiple
of the unit that its first digit leaves, half a unit to the even one (`nearest`).  Rounding keeps
the order of numbers (`nearest_mono`), though it may make different ones equal, and it moves a
number of 64 bits by 1024 at most (`nearest_near`).

The digits are dropped one at a time, with two bits that tell how what has been dropped stands to
half a unit (`shiftRight_exact`).
-/

namespace WindowFold
namespace Double

open Float.Model.UnpackedFloat (ExtendedMantissa)

/-! ## To a whole number of units -/

/-- How many units there are in a number, to the nearest, and to the even one of two that are
equally near. -/
def roundEven (n u : Nat) : Nat :=
  match compare (2 * (n % u)) u with
  | .lt => n / u
  | .eq => n / u + n / u % 2
  | .gt => n / u + 1

theorem roundEven_cases (n u : Nat) :
    (2 * (n % u) < u ∧ roundEven n u = n / u) ∨
      (2 * (n % u) = u ∧ roundEven n u = n / u + n / u % 2) ∨
      (u < 2 * (n % u) ∧ roundEven n u = n / u + 1) := by
  rw [roundEven]
  rcases Nat.lt_trichotomy (2 * (n % u)) u with h | h | h
  · rw [compare_lt_iff_lt.mpr h]
    exact .inl ⟨h, rfl⟩
  · rw [compare_eq_iff_eq.mpr h]
    exact .inr (.inl ⟨h, rfl⟩)
  · rw [compare_gt_iff_gt.mpr h]
    exact .inr (.inr ⟨h, rfl⟩)

theorem roundEven_bounds (n u : Nat) : n / u ≤ roundEven n u ∧ roundEven n u ≤ n / u + 1 := by
  rcases roundEven_cases n u with ⟨_, h⟩ | ⟨_, h⟩ | ⟨_, h⟩ <;> rw [h] <;> omega

theorem roundEven_mul {u : Nat} (hu : 0 < u) (q : Nat) : roundEven (q * u) u = q := by
  have hrest : q * u % u = 0 := Nat.mul_mod_left q u
  have hquot : q * u / u = q := Nat.mul_div_cancel q hu
  rcases roundEven_cases (q * u) u with ⟨_, h⟩ | ⟨h, _⟩ | ⟨h, _⟩
  · rw [h, hquot]
  · omega
  · omega

theorem roundEven_one (n : Nat) : roundEven n 1 = n := by
  have h := roundEven_mul Nat.one_pos n
  rwa [Nat.mul_one] at h

theorem roundEven_mono {n m : Nat} (u : Nat) (h : n ≤ m) : roundEven n u ≤ roundEven m u := by
  rcases Nat.lt_or_eq_of_le (Nat.div_le_div_right h : n / u ≤ m / u) with hlt | heq
  · have hn := (roundEven_bounds n u).2
    have hm := (roundEven_bounds m u).1
    omega
  · have hrest : n % u ≤ m % u := by
      have hn := Nat.div_add_mod n u
      have hm := Nat.div_add_mod m u
      rw [heq] at hn
      omega
    rcases roundEven_cases n u with ⟨hc, hr⟩ | ⟨hc, hr⟩ | ⟨hc, hr⟩ <;>
      rcases roundEven_cases m u with ⟨hc', hr'⟩ | ⟨hc', hr'⟩ | ⟨hc', hr'⟩ <;>
      rw [hr, hr', heq] <;> omega

/-- No more than half a unit is added or taken away. -/
theorem roundEven_near {u : Nat} (hu : 0 < u) (n : Nat) :
    2 * (roundEven n u * u) ≤ 2 * n + u ∧ 2 * n ≤ 2 * (roundEven n u * u) + u := by
  have hsplit := Nat.div_add_mod n u
  have hrest := Nat.mod_lt n hu
  rw [Nat.mul_comm] at hsplit
  rcases roundEven_cases n u with ⟨hc, hr⟩ | ⟨hc, hr⟩ | ⟨hc, hr⟩
  · rw [hr]
    omega
  · rw [hr, Nat.add_mul]
    rcases Nat.mod_two_eq_zero_or_one (n / u) with h | h <;> rw [h] <;> omega
  · rw [hr, Nat.add_mul]
    omega

/-! ## Digit by digit -/

/-- The bits kept beside a number that has lost some digits: the last digit lost, and whether any
before it was not zero. -/
theorem shiftRight_exact (n k : Nat) : (⟨n, false, false⟩ : ExtendedMantissa) >>> (k + 1) =
    ⟨n / 2 ^ (k + 1), n / 2 ^ k % 2 != 0, n % 2 ^ k != 0⟩ := by
  induction k with
  | zero =>
    show ExtendedMantissa.shiftRightOne _ = _
    rw [ExtendedMantissa.shiftRightOne, Nat.pow_zero, Nat.div_one, Nat.mod_one]
    rfl
  | succ k ih =>
    have hstep : (⟨n, false, false⟩ : ExtendedMantissa) >>> (k + 1 + 1) =
        ((⟨n, false, false⟩ : ExtendedMantissa) >>> (k + 1)).shiftRightOne := rfl
    have hquot : n / 2 ^ (k + 1) / 2 = n / 2 ^ (k + 1 + 1) := by
      rw [Nat.div_div_eq_div_mul, ← Nat.pow_succ]
    have hrest : n % 2 ^ (k + 1) = n % 2 ^ k + 2 ^ k * (n / 2 ^ k % 2) := by
      rw [Nat.pow_succ, Nat.mod_mul]
    rw [hstep, ih, ExtendedMantissa.shiftRightOne, hquot, hrest]
    congr 1
    rcases Nat.mod_two_eq_zero_or_one (n / 2 ^ k) with h | h <;> simp [h]

theorem roundedMantissa_shiftRight (n k : Nat) :
    ((⟨n, false, false⟩ : ExtendedMantissa) >>> k).roundedMantissa = roundEven n (2 ^ k) := by
  cases k with
  | zero => exact (roundEven_one n).symm
  | succ k =>
    -- The two bits tell how what is lost stands to half of a unit.
    have hunit : 2 ^ (k + 1) = 2 * 2 ^ k := by rw [Nat.pow_succ, Nat.mul_comm]
    have hrest : n % 2 ^ (k + 1) = n % 2 ^ k + 2 ^ k * (n / 2 ^ k % 2) := by
      rw [Nat.pow_succ, Nat.mod_mul]
    have hlt : n % 2 ^ k < 2 ^ k := Nat.mod_lt _ (Nat.two_pow_pos k)
    rw [shiftRight_exact, ExtendedMantissa.roundedMantissa]
    rcases Nat.mod_two_eq_zero_or_one (n / 2 ^ k) with hbit | hbit
    · rw [hbit, Nat.mul_zero, Nat.add_zero] at hrest
      rw [roundEven, compare_lt_iff_lt.mpr (by omega), hbit]
      cases n % 2 ^ k != 0 <;> rfl
    · rw [hbit, Nat.mul_one] at hrest
      by_cases hzero : n % 2 ^ k = 0
      · rw [roundEven, compare_eq_iff_eq.mpr (by omega), hbit, hzero]
        rfl
      · have hsome : (n % 2 ^ k != 0) = true := bne_iff_ne.mpr hzero
        rw [roundEven, compare_gt_iff_gt.mpr (show 2 ^ (k + 1) < _ by omega), hbit, hsome]
        rfl

/-! ## To the nearest double -/

theorem log2_le {n k : Nat} (h : n < 2 ^ (k + 1)) : n.log2 ≤ k := by
  by_cases hzero : n = 0
  · subst hzero
    exact Nat.zero_le k
  · exact Nat.le_of_lt_succ ((Nat.log2_lt hzero).mpr h)

/-- What the last of 53 digits of a number stands for. -/
def unit (n : Nat) : Nat := 2 ^ (n.log2 - 52)

/-- The double nearest to a number, as a number. -/
def nearest (n : Nat) : Nat := roundEven n (unit n) * unit n

theorem unit_pos (n : Nat) : 0 < unit n := Nat.two_pow_pos _

theorem unit_of_log2_le {n : Nat} (h : n.log2 ≤ 52) : unit n = 1 := by
  rw [unit, Nat.sub_eq_zero_of_le h, Nat.pow_zero]

theorem nearest_of_log2_le {n : Nat} (h : n.log2 ≤ 52) : nearest n = n := by
  rw [nearest, unit_of_log2_le h, roundEven_one, Nat.mul_one]

/-- A multiple of the unit is not passed by. -/
theorem nearest_le {n q : Nat} (h : n ≤ q * unit n) : nearest n ≤ q * unit n := by
  have hround := roundEven_mono (unit n) h
  rw [roundEven_mul (unit_pos n)] at hround
  exact Nat.mul_le_mul_right _ hround

theorem le_nearest {n q : Nat} (h : q * unit n ≤ n) : q * unit n ≤ nearest n := by
  have hround := roundEven_mono (unit n) h
  rw [roundEven_mul (unit_pos n)] at hround
  exact Nat.mul_le_mul_right _ hround

/-- A power of two that is large enough is a multiple of the unit. -/
theorem two_pow_eq_mul_unit {n l : Nat} (h : n.log2 - 52 ≤ l) :
    2 ^ l = 2 ^ (l - (n.log2 - 52)) * unit n := by
  rw [unit, ← Nat.pow_add, Nat.sub_add_cancel h]

/-- The powers of two around a number are not passed by. -/
theorem nearest_bounds {n : Nat} (hn : n ≠ 0) :
    2 ^ n.log2 ≤ nearest n ∧ nearest n ≤ 2 ^ (n.log2 + 1) := by
  constructor
  · have hlow := Nat.log2_self_le hn
    rw [two_pow_eq_mul_unit (show n.log2 - 52 ≤ n.log2 by omega)] at hlow ⊢
    exact le_nearest hlow
  · have hhigh := Nat.le_of_lt (Nat.lt_log2_self (n := n))
    rw [two_pow_eq_mul_unit (show n.log2 - 52 ≤ n.log2 + 1 by omega)] at hhigh ⊢
    exact nearest_le hhigh

theorem nearest_mono {n m : Nat} (h : n ≤ m) : nearest n ≤ nearest m := by
  by_cases hzero : n = 0
  · subst hzero
    exact Nat.zero_le _
  have hm : m ≠ 0 := by omega
  have hlog : n.log2 ≤ m.log2 := by
    rw [Nat.log2_eq_log_two, Nat.log2_eq_log_two]
    exact Nat.log_mono_right h
  rcases Nat.lt_or_eq_of_le hlog with hlt | heq
  · -- A power of two lies between them.
    exact calc nearest n
        ≤ 2 ^ (n.log2 + 1) := (nearest_bounds hzero).2
      _ ≤ 2 ^ m.log2 := Nat.pow_le_pow_right Nat.two_pos hlt
      _ ≤ nearest m := (nearest_bounds hm).1
  · have hunit : unit n = unit m := by rw [unit, unit, heq]
    rw [nearest, nearest, hunit]
    exact Nat.mul_le_mul_right _ (roundEven_mono _ h)

theorem nearest_near {n : Nat} (h : n < 2 ^ 64) : nearest n ≤ n + 1024 ∧ n ≤ nearest n + 1024 := by
  have hlog : n.log2 ≤ 63 := log2_le h
  have hunit : unit n ≤ 2 ^ 11 := Nat.pow_le_pow_right Nat.two_pos (by omega)
  obtain ⟨hhigh, hlow⟩ := roundEven_near (unit_pos n) n
  constructor <;> rw [nearest] <;> omega

/-! ## Numbers with a sign -/

/-- The double nearest to a number with a sign, as a number. -/
def nearestInt (n : Int) : Int := if n < 0 then -(nearest n.natAbs) else nearest n.natAbs

theorem nearestInt_mono {m n : Int} (h : m ≤ n) : nearestInt m ≤ nearestInt n := by
  rw [nearestInt, nearestInt]
  by_cases hm : m < 0
  · rw [if_pos hm]
    by_cases hn : n < 0
    · have habs : n.natAbs ≤ m.natAbs := by omega
      have hle := nearest_mono habs
      rw [if_pos hn]
      omega
    · rw [if_neg hn]
      omega
  · have habs : m.natAbs ≤ n.natAbs := by omega
    have hle := nearest_mono habs
    rw [if_neg hm, if_neg (by omega)]
    omega

theorem nearestInt_near {n : Int} (h : n.natAbs < 2 ^ 64) :
    nearestInt n ≤ n + 1024 ∧ n ≤ nearestInt n + 1024 := by
  have hnear := nearest_near h
  rw [nearestInt]
  by_cases hn : n < 0
  · rw [if_pos hn]
    omega
  · rw [if_neg hn]
    omega

theorem nearestInt_eq_zero {n : Int} : nearestInt n = 0 ↔ n = 0 := by
  constructor
  · intro h
    by_cases hzero : n.natAbs = 0
    · omega
    · have hlow := (nearest_bounds hzero).1
      have hpos := Nat.two_pow_pos n.natAbs.log2
      rw [nearestInt] at h
      by_cases hn : n < 0
      · rw [if_pos hn] at h
        omega
      · rw [if_neg hn] at h
        omega
  · rintro rfl
    rfl

end Double
end WindowFold
