import Mathlib
import WindowFold.Proofs.Double.Rounding

/-!
# Doubles and their bits

What is put into the 64 bits of a double is read back as it was, if the bits have room for it
(`unpack_pack_finite`).  A result is rounded before it is put there.  Its exponent is then at most
one larger than the numbers that it was computed from ask for (`rounded_atMost`), and as long as
that is at most 971 the double is finite (`isFinite_pack`).
-/

namespace WindowFold
namespace Double

open Float.Model (Format UnpackedFloat)
open Float.Model.UnpackedFloat (Accuracy ExtendedMantissa Sign packComponents unpackExponent)

variable {s : Sign} {m : Nat} {e : Int}

/-! ## Reading back -/

/-- The exponent has bits of its own unless the first digit is missing. -/
theorem pack_finite (h : 0 < m) (he : e ≤ 971) :
    UnpackedFloat.pack .binary64 (.finite s m e h) = packComponents .binary64 s
      (if m.log2 = 52 then BitVec.ofNat 11 (e + 1075).toNat else 0#11) (BitVec.ofNat 52 m) := by
  have hbias : (e + (Format.binary64.exponentBias : Nat) + (52 : Nat)).toNat =
      (e + 1075).toNat := by
    rw [Int.add_assoc]
    rfl
  have hmax : ¬2 ^ Format.binary64.exponentBits ≤ (e + 1075).toNat + 1 := by
    show ¬2048 ≤ _
    omega
  have hbits : m.log2 + 1 = Format.binary64.mantissaBits ↔ m.log2 = 52 := by
    show m.log2 + 1 = 53 ↔ _
    omega
  rw [UnpackedFloat.pack, hbias, if_neg hmax]
  by_cases hlog : m.log2 = 52
  · rw [if_pos (hbits.mpr hlog), if_pos hlog]
  · rw [if_neg (hbits.not.mpr hlog), if_neg hlog]

/-- The largest exponent is that of no finite double. -/
theorem exponent_ne {b : Nat} (h : b < 2047) : BitVec.ofNat 11 b ≠ -1#11 := by
  intro heq
  have hnat : b % 2 ^ 11 = 2047 := congrArg BitVec.toNat heq
  omega

theorem unpack_pack_zero (s : Sign) : (Float.Model.pack (.zero s)).unpack = .zero s :=
  UnpackedFloat.unpack_packedZero

theorem unpack_pack_finite (h : 0 < m) (hlow : 2 ^ 52 ≤ m) (hhigh : m < 2 ^ 53) (he : -1074 ≤ e)
    (he' : e ≤ 971) : (Float.Model.pack (.finite s m e h)).unpack = .finite s m e h := by
  have hlog : m.log2 = 52 := (Nat.log2_eq_iff (by omega)).mpr ⟨hlow, hhigh⟩
  obtain ⟨b, hb⟩ : ∃ b : Nat, (e + 1075).toNat = b := ⟨_, rfl⟩
  have hexponent : (BitVec.ofNat 11 b).toNat = b := Nat.mod_eq_of_lt (by omega)
  have hzero : BitVec.ofNat 11 b ≠ 0#11 := by
    intro heq
    rw [heq] at hexponent
    have hexponent : 0 = b := hexponent
    omega
  have hmantissa : (1#1 ++ BitVec.ofNat 52 m).toNat = m := by
    have hlt : m % 2 ^ 52 < 2 ^ 52 := Nat.mod_lt _ (Nat.two_pow_pos 52)
    rw [BitVec.toNat_append, BitVec.toNat_ofNat, BitVec.toNat_ofNat,
      ← Nat.shiftLeft_add_eq_or_of_lt hlt, Nat.shiftLeft_eq]
    omega
  show UnpackedFloat.unpack .binary64 (UnpackedFloat.pack .binary64 (.finite s m e h)) = _
  rw [pack_finite h he', if_pos hlog, hb, UnpackedFloat.unpack]
  simp only [UnpackedFloat.unpackExponent_packComponents,
    UnpackedFloat.unpackMantissa_packComponents, UnpackedFloat.unpackSign_packComponents,
    Sign.ofBitVec_toBitVec]
  rw [if_neg (exponent_ne (by omega)), if_neg hzero]
  simp only [hmantissa, hexponent]
  congr 1
  show (b : Int) - (1023 + 52) = e
  omega

/-! ## Finite results -/

/-- A finite double whose exponent is not beyond the bound. -/
def AtMost (bound : Int) : UnpackedFloat → Prop
  | .zero _ => True
  | .finite _ _ e _ => e ≤ bound
  | _ => False

theorem isFinite_unpack {b : BitVec 64} (h : @unpackExponent .binary64 b ≠ -1#11) :
    (UnpackedFloat.unpack .binary64 b).isFinite = true := by
  rw [UnpackedFloat.unpack, if_neg h]
  split
  · split <;> rfl
  · rfl

theorem isFinite_pack {f : UnpackedFloat} (h : AtMost 971 f) :
    (Float.Model.pack f).isFinite = true := by
  cases f with
  | infinity s => exact h.elim
  | notANumber => exact h.elim
  | zero s =>
    show (Float.Model.pack (.zero s)).unpack.isFinite = true
    rw [unpack_pack_zero]
    rfl
  | finite s m e hm =>
    have he : e ≤ 971 := h
    refine isFinite_unpack ?_
    show @unpackExponent .binary64 (UnpackedFloat.pack .binary64 (.finite s m e hm)) ≠ _
    rw [pack_finite hm he, UnpackedFloat.unpackExponent_packComponents]
    split
    · exact exponent_ne (by omega)
    · decide

theorem shiftRight_mantissa (x : ExtendedMantissa) (k : Nat) :
    (x >>> k).mantissa = x.mantissa / 2 ^ k := by
  induction k with
  | zero => exact (Nat.div_one _).symm
  | succ k ih =>
    show (x >>> k).mantissa / 2 = _
    rw [ih, Nat.div_div_eq_div_mul, ← Nat.pow_succ]

theorem roundedMantissa_le (x : ExtendedMantissa) : x.roundedMantissa ≤ x.mantissa + 1 := by
  obtain ⟨m, round, sticky⟩ := x
  have heven : m + m % 2 ≤ m + 1 := by omega
  cases round <;> cases sticky
  · exact Nat.le_succ m
  · exact Nat.le_succ m
  · exact heven
  · exact Nat.le_refl _

theorem ofMantissaAndAccuracy_mantissa (m : Nat) (accuracy : Accuracy) :
    (ExtendedMantissa.ofMantissaAndAccuracy m accuracy).mantissa = m := by
  rcases accuracy with _ | order
  · rfl
  · cases order <;> rfl

/-- The exponent that leaves 53 digits, or the least one there is. -/
theorem targetExponent_eq (t : Int) : Format.binary64.targetExponent t = max (t - 53) (-1074) :=
  rfl

/-- Rounding may carry into one digit more, and then one is dropped. -/
theorem rounded_atMost {B : Int} (hB : -1074 ≤ B) (he : e ≤ B)
    (hm : m.log2 + e ≤ B + 52) (accuracy : Accuracy) :
    AtMost (B + 1) (UnpackedFloat.roundWithAccuracy .binary64 s m e accuracy) := by
  obtain ⟨d, hd⟩ : ∃ d, (max ((m.log2 : Int) + 1 + e - 53) (-1074) - e).toNat = d := ⟨_, rfl⟩
  obtain ⟨r, hr⟩ : ∃ r, (ExtendedMantissa.ofMantissaAndAccuracy m accuracy >>>
    d).roundedMantissa = r := ⟨_, rfl⟩
  have hlog : r.log2 ≤ 53 := by
    have hle := roundedMantissa_le (ExtendedMantissa.ofMantissaAndAccuracy m accuracy >>> d)
    rw [hr, shiftRight_mantissa, ofMantissaAndAccuracy_mantissa] at hle
    have hlt : m / 2 ^ d < 2 ^ 53 := by
      refine Nat.div_lt_of_lt_mul ?_
      rw [← Nat.pow_add]
      exact Nat.lt_of_lt_of_le Nat.lt_log2_self (Nat.pow_le_pow_right Nat.two_pos (by omega))
    exact log2_le (by omega)
  simp only [UnpackedFloat.roundWithAccuracy, UnpackedFloat.shiftToTargetExponent,
    UnpackedFloat.shiftToExponent, targetExponent_eq, Float.Model.totalExponent, hd, hr]
  split
  · trivial
  · show (_ : Int) ≤ B + 1
    omega

theorem log2_shiftLeft (h : m ≠ 0) (k : Nat) : (m <<< k).log2 = m.log2 + k := by
  induction k with
  | zero => rfl
  | succ k ih =>
    have hne : m <<< k ≠ 0 := by
      rw [Nat.shiftLeft_eq]
      exact Nat.mul_ne_zero h (Nat.two_pow_pos k).ne'
    rw [Nat.shiftLeft_succ, Nat.log2_two_mul hne, ih, Nat.add_assoc]

theorem log2_shiftLeft_le (m k : Nat) : (m <<< k).log2 ≤ m.log2 + k := by
  by_cases hzero : m = 0
  · subst hzero
    rw [Nat.zero_shiftLeft]
    exact Nat.zero_le _
  · exact Nat.le_of_eq (log2_shiftLeft hzero k)

theorem round_atMost {B : Int} (hB : -1074 ≤ B) (hm : m.log2 + e ≤ B + 52) :
    AtMost (B + 1) (UnpackedFloat.round .binary64 s m e) := by
  rw [UnpackedFloat.round, targetExponent_eq, Float.Model.totalExponent,
    UnpackedFloat.decreaseExponent]
  have hlog := log2_shiftLeft_le m (e - max ((m.log2 : Int) + 1 + e - 53) (-1074)).toNat
  exact rounded_atMost hB (by omega) (by omega) .exact

theorem normalize_atMost {B z : Int} (hB : -1074 ≤ B)
    (hz : z.natAbs.log2 + e ≤ B + 52) :
    AtMost (B + 1) (UnpackedFloat.normalize .binary64 z e s) := by
  rw [UnpackedFloat.normalize]
  split
  · have hneg : (-z).toNat.log2 + e ≤ B + 52 := by
      rename_i h
      have hlt := compare_lt_iff_lt.mp h
      rwa [show (-z).toNat = z.natAbs by omega]
    exact round_atMost hB hneg
  · trivial
  · have hpos : z.toNat.log2 + e ≤ B + 52 := by
      rename_i h
      have hgt := compare_gt_iff_gt.mp h
      rwa [show z.toNat = z.natAbs by omega]
    exact round_atMost hB hpos

end Double
end WindowFold
