import Mathlib.Tactic.Ring
import TwoSorted.Number.Decimal

/-!
# Rounding to binary64

The number nearest to a quotient depends on the value of the quotient only, and
a number of the format is the one nearest to itself. So a decimal is read by its
value (`Decimal.toBinary64_mul_pow`), and a decimal that has the very value of a
finite number reads back as it (`Decimal.toBinary64_exact`).
-/

namespace TwoSorted

theorem roundDiv_mul (n d : Nat) {c : Nat} (hc : 0 < c) :
    roundDiv (n * c) (d * c) = roundDiv n d := by
  have hdiv : n * c / (d * c) = n / d := Nat.mul_div_mul_right n d hc
  have hmod : n * c % (d * c) = n % d * c := Nat.mul_mod_mul_right c n d
  have hbelow : 2 * (n % d * c) < d * c ↔ 2 * (n % d) < d := by
    rw [← Nat.mul_assoc]
    exact Nat.mul_lt_mul_right hc
  have habove : d * c < 2 * (n % d * c) ↔ d < 2 * (n % d) := by
    rw [← Nat.mul_assoc]
    exact Nat.mul_lt_mul_right hc
  simp only [roundDiv, hdiv, hmod, hbelow, habove]

/-- A whole quotient is not rounded. -/
theorem roundDiv_mul_self (n : Nat) {d : Nat} (hd : 0 < d) : roundDiv (n * d) d = n := by
  simp [roundDiv, Nat.mul_div_cancel n hd, hd]

theorem roundDiv_le (n d : Nat) : roundDiv n d ≤ n / d + 1 := by
  simp only [roundDiv]
  split
  · omega
  · split <;> omega

namespace Binary64

theorem infinityBits_eq : infinityBits = 0x7FF * 2 ^ 52 := by
  decide

theorem nearestPattern_eq (n d : Nat) :
    nearestPattern n d =
      min (excess (n / d) * 2 ^ 52 + roundDiv n (d * 2 ^ excess (n / d))) infinityBits := by
  simp only [nearestPattern, Nat.shiftLeft_eq]

theorem nearestPattern_mul (n d : Nat) {c : Nat} (hc : 0 < c) :
    nearestPattern (n * c) (d * c) = nearestPattern n d := by
  have hdiv : n * c / (d * c) = n / d := Nat.mul_div_mul_right n d hc
  have hround (k : Nat) : roundDiv (n * c) (d * c * 2 ^ k) = roundDiv n (d * 2 ^ k) := by
    rw [Nat.mul_right_comm, roundDiv_mul _ _ hc]
  simp only [nearestPattern_eq, hdiv, hround]

theorem nearestPattern_mul_self (n : Nat) {c : Nat} (hc : 0 < c) :
    nearestPattern (n * c) c = nearestPattern n 1 := by
  simpa using nearestPattern_mul n 1 hc

theorem shiftLeft_mul (n c k : Nat) : (n * c) <<< k = n <<< k * c := by
  simp only [Nat.shiftLeft_eq, Nat.mul_right_comm]

/-- Equal quotients have the same nearest number. -/
theorem ofRatio_congr {n d n' d' : Nat} (hd : 0 < d) (hd' : 0 < d')
    (h : n * d' = n' * d) : ofRatio n d = ofRatio n' d' := by
  have hpattern : nearestPattern (n <<< scale) d = nearestPattern (n' <<< scale) d' := by
    rw [← nearestPattern_mul _ d hd', ← nearestPattern_mul _ d' hd, ← shiftLeft_mul,
      ← shiftLeft_mul, h, Nat.mul_comm d]
  rw [ofRatio, ofRatio, hpattern]

/-! ### A number of the format is nearest to itself -/

/-- The bits of a number without a sign are its pattern. -/
theorem toNat_bits_of_not_isNegative {v : Binary64} (h : v.isNegative = false) :
    v.bits.toNat = v.pattern := by
  have hlt : v.bits.toNat < 1 <<< 63 := by simpa [isNegative] using h
  exact (Nat.mod_eq_of_lt hlt).symm

theorem ofPattern_pattern {v : Binary64} (h : v.isNegative = false) :
    ofPattern v.pattern = v := by
  rw [← toNat_bits_of_not_isNegative h]
  simp [ofPattern]

theorem abs_of_not_isNegative {v : Binary64} (h : v.isNegative = false) : v.abs = v :=
  ofPattern_pattern h

theorem pattern_lt {v : Binary64} (hnan : v.isNaN = false) (hinf : v.isInfinite = false) :
    v.pattern < infinityBits := by
  have hle : ¬ infinityBits < v.pattern := by simpa [isNaN] using hnan
  have hne : v.pattern ≠ infinityBits := by simpa [isInfinite] using hinf
  omega

/-- The units of a number with the exponent field `e` and the fraction `f`. -/
theorem units_cases (v : Binary64) :
    (v.pattern < 2 ^ 52 ∧ v.units = v.pattern) ∨
    ∃ e f, f < 2 ^ 52 ∧ v.pattern = (e + 1) * 2 ^ 52 + f ∧
      v.units = (2 ^ 52 + f) * 2 ^ e := by
  simp only [units, Nat.shiftRight_eq_div_pow, Nat.shiftLeft_eq, Nat.one_mul]
  by_cases he : v.pattern / 2 ^ 52 = 0
  · left
    simp only [he, if_true]
    omega
  · right
    obtain ⟨e, he'⟩ := Nat.exists_eq_succ_of_ne_zero he
    refine ⟨e, v.pattern % 2 ^ 52, Nat.mod_lt _ (Nat.two_pow_pos 52), ?_, ?_⟩
    · rw [← Nat.succ_eq_add_one, ← he', Nat.div_add_mod']
    · simp only [he', Nat.succ_ne_zero, if_false, Nat.succ_sub_one]

/-- A number of units with 53 bits and `e` zeros exceeds the format by these. -/
theorem excess_units {e f : Nat} (hf : f < 2 ^ 52) :
    excess ((2 ^ 52 + f) * 2 ^ e) = e := by
  have hpos : 0 < 2 ^ e := Nat.two_pow_pos e
  have hlog : ((2 ^ 52 + f) * 2 ^ e).log2 = 52 + e := by
    rw [Nat.log2_eq_iff (Nat.ne_of_gt (Nat.mul_pos (by omega) hpos))]
    constructor
    · rw [Nat.pow_add]
      exact Nat.mul_le_mul_right _ (by omega)
    · rw [Nat.add_right_comm, Nat.pow_add]
      exact Nat.mul_lt_mul_of_pos_right (by omega) hpos
  rw [excess, hlog]
  omega

theorem nearestPattern_units {v : Binary64} (h : v.pattern < infinityBits) :
    nearestPattern v.units 1 = v.pattern := by
  rw [nearestPattern_eq, Nat.div_one, Nat.one_mul]
  obtain ⟨hlt, hunits⟩ | ⟨e, f, hf, hpattern, hunits⟩ := v.units_cases
  · -- a subnormal number: no bits are dropped
    have hexcess : excess v.units = 0 := by
      rw [excess, hunits]
      by_cases hzero : v.pattern = 0
      · simp [hzero]
      · have hlog : v.pattern.log2 < 52 := (Nat.log2_lt hzero).mpr hlt
        omega
    have hround : roundDiv v.units (2 ^ 0) = v.units := by
      simpa using roundDiv_mul_self v.units Nat.one_pos
    rw [hexcess, hround, hunits]
    omega
  · -- a normal number: the bits dropped are all zero
    rw [hunits, excess_units hf, roundDiv_mul_self _ (Nat.two_pow_pos e)]
    omega

/-- A finite number is its number of units. -/
theorem ofRatio_units {v : Binary64} (h : v.pattern < infinityBits)
    (hsign : v.isNegative = false) : ofRatio v.units (2 ^ scale) = v := by
  rw [ofRatio, Nat.shiftLeft_eq, nearestPattern_mul_self _ (Nat.two_pow_pos scale),
    nearestPattern_units h, ofPattern_pattern hsign]

end Binary64

namespace Decimal

open Binary64

theorem toBinary64_eq (n : Nat) (e : Int) :
    toBinary64 ⟨n, e⟩ = ofRatio (n * 10 ^ e.toNat) (10 ^ (-e).toNat) := rfl

/-- Zeros at the end of a coefficient can go into the exponent. -/
theorem toBinary64_mul_pow (n k : Nat) (e : Int) :
    toBinary64 ⟨n * 10 ^ k, e⟩ = toBinary64 ⟨n, e + k⟩ := by
  rw [toBinary64_eq, toBinary64_eq]
  have hexponent : k + e.toNat + (-(e + k)).toNat = (e + k).toNat + (-e).toNat := by omega
  apply ofRatio_congr (Nat.pow_pos (by omega)) (Nat.pow_pos (by omega))
  calc n * 10 ^ k * 10 ^ e.toNat * 10 ^ (-(e + k)).toNat
      = n * 10 ^ (k + e.toNat + (-(e + k)).toNat) := by ring
    _ = n * 10 ^ ((e + k).toNat + (-e).toNat) := by rw [hexponent]
    _ = n * 10 ^ (e + k).toNat * 10 ^ (-e).toNat := by ring

/-- A fraction of a power of two as a decimal. -/
theorem toBinary64_mul_five_pow (n k : Nat) :
    toBinary64 ⟨n * Nat.pow 5 k, -k⟩ = ofRatio n (2 ^ k) := by
  have hratio : n * Nat.pow 5 k * 2 ^ k = n * 10 ^ k := by
    rw [Nat.pow_eq, Nat.mul_assoc, ← Nat.mul_pow]
  have hexponent : (-(k : Int)).toNat = 0 := by omega
  rw [toBinary64_eq, hexponent, Int.neg_neg, Int.toNat_natCast, Nat.pow_zero, Nat.mul_one]
  exact ofRatio_congr (Nat.pow_pos (by omega)) (Nat.two_pow_pos k) hratio

/-- All digits of a finite number read back as it. -/
theorem toBinary64_exact {v : Binary64} (h : v.pattern < infinityBits)
    (hsign : v.isNegative = false) : (exact v).toBinary64 = v := by
  rw [exact, toBinary64_mul_five_pow, ofRatio_units h hsign]

end Decimal

end TwoSorted
