import WindowFold.Machine.Operators
import WindowFold.Proofs.Double.Packing

/-!
# Whole numbers as doubles

A whole number of 64 bits is read as the double nearest to it (`unpack_wordToFloat`).
Two such doubles compare as the numbers that they are (`compareFloats_whole`), and what comes of
adding, subtracting, multiplying or dividing them is finite (`isFinite_add` and so on).
-/

namespace WindowFold
namespace Double

open Float.Model (Format UnpackedFloat)
open Float.Model.UnpackedFloat (Accuracy ExtendedMantissa Sign)

/-- A double that is a whole number, with all its 53 binary digits written out. -/
inductive Whole : UnpackedFloat → Int → Prop
  | zero (s : Sign) : Whole (.zero s) 0
  | finite (s : Sign) {m : Nat} {e : Int} (h : 0 < m) {k n : Nat} (low : 2 ^ 52 ≤ m)
    (high : m < 2 ^ 53) (room : k ≤ 64) (exponent : e = k - 52) (value : n * 2 ^ 52 = m * 2 ^ k) :
    Whole (.finite s m e h) (s.apply n)

variable {s : Sign} {m : Nat} {e : Int} {f g : UnpackedFloat} {x y : Float} {a b : Int}

/-! ## The nearest double -/

theorem roundWithAccuracy_eq {accuracy : Accuracy} {d r d' : Nat}
    (hd : (max ((m.log2 : Int) + 1 + e - 53) (-1074) - e).toNat = d)
    (hr : (ExtendedMantissa.ofMantissaAndAccuracy m accuracy >>> d).roundedMantissa = r)
    (hd' : (max ((r.log2 : Int) + 1 + (e + d) - 53) (-1074) - (e + d)).toNat = d')
    (h : 0 < r / 2 ^ d') : UnpackedFloat.roundWithAccuracy .binary64 s m e accuracy =
      .finite s (r / 2 ^ d') (e + d + d') h := by
  have hlast : (ExtendedMantissa.ofMantissaAndAccuracy r .exact >>> d').mantissa = r / 2 ^ d' :=
    shiftRight_mantissa _ _
  simp only [UnpackedFloat.roundWithAccuracy, UnpackedFloat.shiftToTargetExponent,
    UnpackedFloat.shiftToExponent, targetExponent_eq, Float.Model.totalExponent, hd, hr, hd', hlast]
  rw [dif_neg h.ne']

/-- The 53 digits, rounded, of a number that may have more or fewer. -/
theorem digits_nearest {n r : Nat} (hn : n ≠ 0)
    (hr : roundEven (n * 2 ^ (52 - n.log2)) (2 ^ (n.log2 - 52)) = r) :
    nearest n * 2 ^ 52 = r * 2 ^ n.log2 ∧ 2 ^ 52 ≤ r ∧ r ≤ 2 ^ 53 := by
  have hvalue : nearest n * 2 ^ 52 = r * 2 ^ n.log2 := by
    rcases Nat.le_total n.log2 52 with hlog | hlog
    · rw [Nat.sub_eq_zero_of_le hlog, Nat.pow_zero, roundEven_one] at hr
      rw [nearest_of_log2_le hlog, ← hr, Nat.mul_assoc, ← Nat.pow_add, Nat.sub_add_cancel hlog]
    · rw [Nat.sub_eq_zero_of_le hlog, Nat.pow_zero, Nat.mul_one] at hr
      rw [nearest, unit, hr, Nat.mul_assoc, ← Nat.pow_add, Nat.sub_add_cancel hlog]
  obtain ⟨hlow, hhigh⟩ := nearest_bounds hn
  have hpow := Nat.two_pow_pos n.log2
  refine ⟨hvalue, Nat.le_of_mul_le_mul_right ?_ hpow, Nat.le_of_mul_le_mul_right ?_ hpow⟩
  · rw [← hvalue, Nat.mul_comm]
    exact Nat.mul_le_mul_right _ hlow
  · rw [← hvalue]
    calc nearest n * 2 ^ 52
        ≤ 2 ^ (n.log2 + 1) * 2 ^ 52 := Nat.mul_le_mul_right _ hhigh
      _ = 2 ^ 53 * 2 ^ n.log2 := by
        rw [← Nat.pow_add, ← Nat.pow_add, show n.log2 + 1 + 52 = 53 + n.log2 by omega]

/-- Digits are added until there are 53, and then what is too much is dropped. -/
theorem round_eq {n r d : Nat} (hn : n ≠ 0)
    (hr : roundEven (n * 2 ^ (52 - n.log2)) (2 ^ (n.log2 - 52)) = r)
    (hd : (max ((r.log2 : Int) + n.log2 - 104) (-1074) - (n.log2 - 52)).toNat = d)
    (h : 0 < r / 2 ^ d) : UnpackedFloat.round .binary64 .positive n 0 =
      .finite .positive (r / 2 ^ d) (n.log2 - 52 + d) h := by
  have hup : (0 - max ((n.log2 : Int) + 1 + 0 - 53) (-1074)).toNat = 52 - n.log2 := by omega
  have hdown : (max (((n <<< (52 - n.log2)).log2 : Int) + 1 + (0 - (52 - n.log2 : Nat)) - 53)
      (-1074) - (0 - (52 - n.log2 : Nat))).toNat = n.log2 - 52 := by
    rw [log2_shiftLeft hn]
    omega
  have hdigits : (ExtendedMantissa.ofMantissaAndAccuracy (n <<< (52 - n.log2)) .exact >>>
      (n.log2 - 52)).roundedMantissa = r := by
    rw [← hr, Nat.shiftLeft_eq]
    exact roundedMantissa_shiftRight _ _
  have hplace : (0 : Int) - (52 - n.log2 : Nat) + (n.log2 - 52 : Nat) = n.log2 - 52 := by omega
  have hlast : (max ((r.log2 : Int) + 1 + (0 - (52 - n.log2 : Nat) + (n.log2 - 52 : Nat)) - 53)
      (-1074) - (0 - (52 - n.log2 : Nat) + (n.log2 - 52 : Nat))).toNat = d := by
    rw [hplace, ← hd]
    omega
  rw [UnpackedFloat.round, targetExponent_eq, Float.Model.totalExponent,
    UnpackedFloat.decreaseExponent, hup]
  simp only
  rw [roundWithAccuracy_eq hdown hdigits hlast h, hplace]

theorem whole_round {n : Nat} (hn : n ≠ 0) (hlog : n.log2 ≤ 63) :
    Whole (UnpackedFloat.round .binary64 .positive n 0) (nearest n) := by
  obtain ⟨r, hr⟩ : ∃ r, roundEven (n * 2 ^ (52 - n.log2)) (2 ^ (n.log2 - 52)) = r := ⟨_, rfl⟩
  obtain ⟨hvalue, hlow, hhigh⟩ := digits_nearest hn hr
  rcases Nat.lt_or_eq_of_le hhigh with hlt | rfl
  · have hrlog : r.log2 = 52 := (Nat.log2_eq_iff (by omega)).mpr ⟨hlow, hlt⟩
    have hpow : r / 2 ^ 0 = r := Nat.div_one r
    rw [round_eq hn hr (d := 0) (by omega) (by omega)]
    refine .finite .positive _ (k := n.log2) ?_ ?_ (by omega) (by omega) ?_ <;> rw [hpow]
    · exact hlow
    · exact hlt
    · exact hvalue
  · -- The carry has made one digit too many.
    have hrlog : (2 ^ 53).log2 = 53 := Nat.log2_two_pow
    rw [round_eq hn hr (d := 1) (by omega) (by decide)]
    refine .finite .positive _ (k := n.log2 + 1) (by decide) (by decide) (by omega) (by omega) ?_
    rw [hvalue, Nat.pow_succ]
    omega

theorem whole_ofNat {n : Nat} (hn : n < 2 ^ 64) :
    Whole (UnpackedFloat.ofNat .binary64 n) (nearest n) := by
  rw [UnpackedFloat.ofNat, UnpackedFloat.ofInt, UnpackedFloat.normalize]
  by_cases hzero : n = 0
  · subst hzero
    exact .zero .positive
  · rw [compare_gt_iff_gt.mpr (show (n : Int) > 0 by omega)]
    exact whole_round hzero (log2_le hn)

theorem Whole.neg (h : Whole f a) : Whole f.neg (-a) := by
  cases h with
  | zero s => exact .zero _
  | @finite s m e h k n low high room exponent value =>
    have hneg : -(s.apply n) = (-s).apply n := by
      cases s
      · exact Int.neg_neg _
      · rfl
    rw [hneg]
    exact .finite _ h low high room exponent value

theorem Whole.atMost (h : Whole f a) : AtMost 971 f := by
  cases h with
  | zero s => trivial
  | @finite s m e h k n low high room exponent value =>
    show e ≤ 971
    omega

/-- Such a double is stored as it is. -/
theorem Whole.unpack_pack (h : Whole f a) : (Float.Model.pack f).unpack = f := by
  cases h with
  | zero s => exact unpack_pack_zero s
  | @finite s m e h k n low high room exponent value =>
    exact unpack_pack_finite h low high (by omega) (by omega)

/-- A whole number of 64 bits, with a sign or without one. -/
abbrev IsLong (n : Int) : Prop := -0x8000000000000000 ≤ n ∧ n < 0x10000000000000000

theorem unpack_wordToFloat (h : IsLong a) :
    Whole (wordToFloat a).toModel.unpack (nearestInt a) := by
  have hlt : a.natAbs < 2 ^ 64 := by omega
  have hnat : a.natAbs.toUInt64.toNat = a.natAbs := Nat.mod_eq_of_lt hlt
  have hwhole := whole_ofNat hlt
  have hunpack : a.natAbs.toUInt64.toFloat.toModel.unpack =
      UnpackedFloat.ofNat .binary64 a.natAbs := by
    show (Float.Model.pack (UnpackedFloat.ofNat .binary64 a.natAbs.toUInt64.toNat)).unpack = _
    rw [hnat, hwhole.unpack_pack]
  rw [wordToFloat, nearestInt]
  by_cases hneg : a < 0
  · rw [if_pos hneg, if_pos hneg]
    show Whole (Float.Model.pack a.natAbs.toUInt64.toFloat.toModel.unpack.neg).unpack _
    rw [hunpack, hwhole.neg.unpack_pack]
    exact hwhole.neg
  · rw [if_neg hneg, if_neg hneg, hunpack]
    exact hwhole

/-! ## Comparing -/

/-- A double with fewer digits before the point is smaller. -/
theorem lt_of_digits {m₁ m₂ k₁ k₂ n₁ n₂ : Nat} (high₁ : m₁ < 2 ^ 53)
    (value₁ : n₁ * 2 ^ 52 = m₁ * 2 ^ k₁) (low₂ : 2 ^ 52 ≤ m₂)
    (value₂ : n₂ * 2 ^ 52 = m₂ * 2 ^ k₂) (hk : k₁ < k₂) : n₁ < n₂ := by
  refine Nat.lt_of_mul_lt_mul_right (a := 2 ^ 52) ?_
  calc n₁ * 2 ^ 52
      = m₁ * 2 ^ k₁ := value₁
    _ < 2 ^ 53 * 2 ^ k₁ := Nat.mul_lt_mul_of_pos_right high₁ (Nat.two_pow_pos k₁)
    _ = 2 ^ 52 * 2 ^ (k₁ + 1) := by
        rw [← Nat.pow_add, ← Nat.pow_add, show 53 + k₁ = 52 + (k₁ + 1) by omega]
    _ ≤ 2 ^ 52 * 2 ^ k₂ := Nat.mul_le_mul_left _ (Nat.pow_le_pow_right Nat.two_pos hk)
    _ ≤ m₂ * 2 ^ k₂ := Nat.mul_le_mul_right _ low₂
    _ = n₂ * 2 ^ 52 := value₂.symm

/-- Exponents come first, and digits second. -/
theorem compare_magnitudes {m₁ m₂ k₁ k₂ n₁ n₂ : Nat} {e₁ e₂ : Int} (low₁ : 2 ^ 52 ≤ m₁)
    (high₁ : m₁ < 2 ^ 53) (exponent₁ : e₁ = k₁ - 52) (value₁ : n₁ * 2 ^ 52 = m₁ * 2 ^ k₁)
    (low₂ : 2 ^ 52 ≤ m₂) (high₂ : m₂ < 2 ^ 53) (exponent₂ : e₂ = k₂ - 52)
    (value₂ : n₂ * 2 ^ 52 = m₂ * 2 ^ k₂) :
    (compare e₁ e₂).then (compare m₁ m₂) = compare (n₁ : Int) n₂ := by
  rcases Nat.lt_trichotomy k₁ k₂ with hk | rfl | hk
  · have hn := lt_of_digits high₁ value₁ low₂ value₂ hk
    rw [compare_lt_iff_lt.mpr (show e₁ < e₂ by omega),
      compare_lt_iff_lt.mpr (show (n₁ : Int) < n₂ by omega)]
    rfl
  · have hpow := Nat.two_pow_pos k₁
    rw [compare_eq_iff_eq.mpr (show e₁ = e₂ by omega)]
    show compare m₁ m₂ = _
    rcases Nat.lt_trichotomy m₁ m₂ with hm | rfl | hm
    · have hn := Nat.mul_lt_mul_of_pos_right hm hpow
      rw [compare_lt_iff_lt.mpr hm, compare_lt_iff_lt.mpr (show (n₁ : Int) < n₂ by omega)]
    · rw [compare_eq_iff_eq.mpr rfl, compare_eq_iff_eq.mpr (show (n₁ : Int) = n₂ by omega)]
    · have hn := Nat.mul_lt_mul_of_pos_right hm hpow
      rw [compare_gt_iff_gt.mpr hm, compare_gt_iff_gt.mpr (show (n₁ : Int) > n₂ by omega)]
  · have hn := lt_of_digits high₂ value₂ low₁ value₁ hk
    rw [compare_gt_iff_gt.mpr (show e₁ > e₂ by omega),
      compare_gt_iff_gt.mpr (show (n₁ : Int) > n₂ by omega)]
    rfl

theorem pos_of_digits {k n : Nat} (low : 2 ^ 52 ≤ m) (value : n * 2 ^ 52 = m * 2 ^ k) :
    (0 : Int) < n := by
  have hpos : 0 < m * 2 ^ k := Nat.mul_pos (by omega) (Nat.two_pow_pos k)
  omega

theorem compare_neg (a b : Int) : compare (-a) (-b) = (compare a b).swap := by
  rcases Int.lt_trichotomy a b with h | rfl | h
  · rw [compare_lt_iff_lt.mpr h, compare_gt_iff_gt.mpr (Int.neg_lt_neg h)]
    rfl
  · rw [compare_eq_iff_eq.mpr rfl, compare_eq_iff_eq.mpr rfl]
    rfl
  · rw [compare_gt_iff_gt.mpr h, compare_lt_iff_lt.mpr (Int.neg_lt_neg h)]
    rfl

theorem Whole.compare (hf : Whole f a) (hg : Whole g b) : f.compare g = some (compare a b) := by
  cases hf with
  | zero s =>
    cases hg with
    | zero t => rfl
    | @finite t m₂ e₂ h₂ k₂ n₂ low₂ high₂ room₂ exponent₂ value₂ =>
      have hpos := pos_of_digits low₂ value₂
      cases t
      · exact congrArg some (compare_gt_iff_gt.mpr (show (0 : Int) > -n₂ by omega)).symm
      · exact congrArg some (compare_lt_iff_lt.mpr hpos).symm
  | @finite s m₁ e₁ h₁ k₁ n₁ low₁ high₁ room₁ exponent₁ value₁ =>
    have hpos := pos_of_digits low₁ value₁
    cases hg with
    | zero t =>
      cases s
      · exact congrArg some (compare_lt_iff_lt.mpr (show -(n₁ : Int) < 0 by omega)).symm
      · exact congrArg some (compare_gt_iff_gt.mpr hpos).symm
    | @finite t m₂ e₂ h₂ k₂ n₂ low₂ high₂ room₂ exponent₂ value₂ =>
      have hpos₂ := pos_of_digits low₂ value₂
      have hsize := compare_magnitudes low₁ high₁ exponent₁ value₁ low₂ high₂ exponent₂ value₂
      cases s <;> cases t
      · refine congrArg some ?_
        show ((compare e₁ e₂).then (compare m₁ m₂)).swap = compare (-(n₁ : Int)) (-n₂)
        rw [hsize, compare_neg]
      · exact congrArg some (compare_lt_iff_lt.mpr (show -(n₁ : Int) < n₂ by omega)).symm
      · exact congrArg some (compare_gt_iff_gt.mpr (show (n₁ : Int) > -n₂ by omega)).symm
      · exact congrArg some hsize

theorem lt_iff (x y : Float) : x < y ↔ x.toModel.unpack.compare y.toModel.unpack = some .lt := by
  show (decide (x.toModel < y.toModel)) = true ↔ _
  rw [decide_eq_true_iff]
  exact beq_iff_eq

theorem beq_iff (x y : Float) :
    (x == y) = true ↔ x.toModel.unpack.compare y.toModel.unpack = some .eq := by
  show (x.toModel.unpack.compare y.toModel.unpack == some .eq) = true ↔ _
  exact beq_iff_eq

section

variable (hx : Whole x.toModel.unpack a) (hy : Whole y.toModel.unpack b)
include hx hy

theorem Whole.beq_iff : (x == y) = true ↔ a = b := by
  rw [Double.beq_iff, hx.compare hy, Option.some.injEq, compare_eq_iff_eq]

theorem compareFloats_whole : compareFloats x y = .ok (Ord.compare a b) := by
  have hlt : x < y ↔ a < b := by
    rw [lt_iff, hx.compare hy, Option.some.injEq, compare_lt_iff_lt]
  have hgt : y < x ↔ b < a := by
    rw [lt_iff, hy.compare hx, Option.some.injEq, compare_lt_iff_lt]
  have heq : (x == y) = true ↔ a = b := hx.beq_iff hy
  rw [compareFloats]
  rcases Int.lt_trichotomy a b with h | h | h
  · rw [if_pos (hlt.mpr h), compare_lt_iff_lt.mpr h]
  · rw [if_neg (hlt.not.mpr (by omega)), if_pos (heq.mpr h), compare_eq_iff_eq.mpr h]
  · rw [if_neg (hlt.not.mpr (by omega)), if_neg (heq.not.mpr (by omega)), if_pos (hgt.mpr h),
      compare_gt_iff_gt.mpr h]

end

/-! ## Computing -/

theorem natAbs_apply (s : Sign) (n : Int) : (s.apply n).natAbs = n.natAbs := by
  cases s
  · exact Int.natAbs_neg n
  · rfl

/-- Digits added to reach the exponent of another such double. -/
theorem shiftLeft_lt {d : Nat} (h : m < 2 ^ 53) (hd : d ≤ 64) : m <<< d < 2 ^ 117 := by
  rw [Nat.shiftLeft_eq]
  calc m * 2 ^ d
      < 2 ^ 53 * 2 ^ d := Nat.mul_lt_mul_of_pos_right h (Nat.two_pow_pos d)
    _ ≤ 2 ^ 53 * 2 ^ 64 := Nat.mul_le_mul_left _ (Nat.pow_le_pow_right Nat.two_pos hd)

/-- What comes of two such doubles of which one has been brought to the exponent of the other. -/
theorem aligned_atMost {m₁ m₂ : Nat} {e₁ e₂ z : Int} (high₁ : m₁ < 2 ^ 53) (high₂ : m₂ < 2 ^ 53)
    (he₁ : -52 ≤ e₁ ∧ e₁ ≤ 12) (he₂ : -52 ≤ e₂ ∧ e₂ ≤ 12)
    (hz : z.natAbs ≤ m₁ <<< (e₁ - min e₁ e₂).toNat + m₂ <<< (e₂ - min e₁ e₂).toNat) :
    AtMost 971 (UnpackedFloat.normalize .binary64 z (min e₁ e₂) s) := by
  have hleft := shiftLeft_lt high₁ (show (e₁ - min e₁ e₂).toNat ≤ 64 by omega)
  have hright := shiftLeft_lt high₂ (show (e₂ - min e₁ e₂).toNat ≤ 64 by omega)
  have hlog : z.natAbs.log2 ≤ 117 := log2_le (by omega)
  exact normalize_atMost (B := 970) (by omega) (by omega)

section

variable (hf : Whole f a) (hg : Whole g b)
include hf hg

theorem Whole.add : AtMost 971 (f.add .binary64 g) := by
  cases hf with
  | zero s =>
    cases hg with
    | zero t =>
      show AtMost 971 (if s == t then _ else _)
      split <;> trivial
    | finite t h₂ low₂ high₂ room₂ exponent₂ value₂ =>
      show (_ : Int) ≤ 971
      omega
  | @finite s m₁ e₁ h₁ k₁ n₁ low₁ high₁ room₁ exponent₁ value₁ =>
    cases hg with
    | zero t =>
      show e₁ ≤ 971
      omega
    | @finite t m₂ e₂ h₂ k₂ n₂ low₂ high₂ room₂ exponent₂ value₂ =>
      refine aligned_atMost high₁ high₂ (by omega) (by omega) ?_
      refine Nat.le_trans (Int.natAbs_add_le _ _) ?_
      rw [natAbs_apply, natAbs_apply, Int.natAbs_natCast, Int.natAbs_natCast]

theorem Whole.sub : AtMost 971 (f.sub .binary64 g) := by
  cases hf with
  | zero s =>
    cases hg with
    | zero t =>
      show AtMost 971 (if s == -t then _ else _)
      split <;> trivial
    | finite t h₂ low₂ high₂ room₂ exponent₂ value₂ =>
      show (_ : Int) ≤ 971
      omega
  | @finite s m₁ e₁ h₁ k₁ n₁ low₁ high₁ room₁ exponent₁ value₁ =>
    cases hg with
    | zero t =>
      show e₁ ≤ 971
      omega
    | @finite t m₂ e₂ h₂ k₂ n₂ low₂ high₂ room₂ exponent₂ value₂ =>
      refine aligned_atMost high₁ high₂ (by omega) (by omega) ?_
      refine Nat.le_trans (Int.natAbs_sub_le _ _) ?_
      rw [natAbs_apply, natAbs_apply, Int.natAbs_natCast, Int.natAbs_natCast]

theorem Whole.mul : AtMost 971 (f.mul .binary64 g) := by
  cases hf with
  | zero s => cases hg <;> trivial
  | @finite s m₁ e₁ h₁ k₁ n₁ low₁ high₁ room₁ exponent₁ value₁ =>
    cases hg with
    | zero t => trivial
    | @finite t m₂ e₂ h₂ k₂ n₂ low₂ high₂ room₂ exponent₂ value₂ =>
      have hlog : (m₁ * m₂).log2 ≤ 105 := by
        refine log2_le ?_
        calc m₁ * m₂
            < 2 ^ 53 * 2 ^ 53 := Nat.mul_lt_mul'' high₁ high₂
          _ = 2 ^ 106 := by rw [← Nat.pow_add]
      exact rounded_atMost (B := 970) (by omega) (by omega) (by omega) .exact

theorem Whole.div (hb : b ≠ 0) : AtMost 971 (f.div .binary64 g) := by
  cases hf with
  | zero s =>
    cases hg with
    | zero t => exact absurd rfl hb
    | finite t h₂ low₂ high₂ room₂ exponent₂ value₂ => trivial
  | @finite s m₁ e₁ h₁ k₁ n₁ low₁ high₁ room₁ exponent₁ value₁ =>
    cases hg with
    | zero t => exact absurd rfl hb
    | @finite t m₂ e₂ h₂ k₂ n₂ low₂ high₂ room₂ exponent₂ value₂ =>
      obtain ⟨r, hr⟩ : ∃ r, min (e₁ - e₂) (Format.binary64.targetExponent
        (Float.Model.totalExponent m₁ e₁ - Float.Model.totalExponent m₂ e₂)) = r := ⟨_, rfl⟩
      have hlog := log2_shiftLeft h₁.ne' (e₁ - e₂ - r).toNat
      have hquot : (m₁ <<< (e₁ - e₂ - r).toNat / m₂).log2 ≤ _ :=
        log2_le (Nat.lt_of_le_of_lt (Nat.div_le_self _ m₂) Nat.lt_log2_self)
      have hm₁ : m₁.log2 ≤ 52 := log2_le high₁
      simp only [UnpackedFloat.div, UnpackedFloat.divCore, hr]
      exact rounded_atMost (B := 970) (by omega) (by omega) (by omega) _

end

/-! ## Doubles that are computed are finite -/

section

variable (hx : Whole x.toModel.unpack a) (hy : Whole y.toModel.unpack b)
include hx hy

theorem isFinite_add : (x + y).isFinite = true := isFinite_pack (hx.add hy)

theorem isFinite_sub : (x - y).isFinite = true := isFinite_pack (hx.sub hy)

theorem isFinite_mul : (x * y).isFinite = true := isFinite_pack (hx.mul hy)

theorem isFinite_div (hb : b ≠ 0) : (x / y).isFinite = true := isFinite_pack (hx.div hy hb)

end

theorem isFinite_neg (hx : Whole x.toModel.unpack a) : (-x).isFinite = true :=
  isFinite_pack hx.neg.atMost

end Double
end WindowFold
