import Mathlib.Algebra.Order.Field.Basic
import Mathlib.Data.Nat.Dist
import Mathlib.Data.Rat.Cast.Order
import Mathlib.Tactic.FieldSimp
import Mathlib.Tactic.Linarith
import Mathlib.Tactic.Ring
import TwoSorted.Proofs.Number.Rounding

/-!
# The nearest number

`Rounds x v` says that `v` is what the rational `x` is rounded to: the finite number
nearest to `x`, with an even pattern if two are equally near, or infinity from half a
step above the largest finite number on. At most one `v` is (`Rounds.unique`), and
`ofRatio` and `Decimal.toBinary64` find it (`rounds_ofRatio`,
`Decimal.rounds_toBinary64`).

With `k` the excess of a quotient, the numbers of the format around it are multiples of
`2 ^ k` units. Those that are not lie below all quotients of that excess, so they are not
nearer than the least of the multiples.
-/

namespace TwoSorted

/-! ### The nearest integer -/

theorem roundDiv_cases (n d : Nat) :
    (roundDiv n d = n / d ∧ 2 * (n % d) < d) ∨
    (roundDiv n d = n / d + 1 ∧ d < 2 * (n % d)) ∨
    (2 * (n % d) = d ∧ roundDiv n d % 2 = 0 ∧
      (roundDiv n d = n / d ∨ roundDiv n d = n / d + 1)) := by
  simp only [roundDiv]
  split
  · exact .inl ⟨rfl, by assumption⟩
  · split
    · exact .inr (.inl ⟨rfl, by assumption⟩)
    · exact .inr (.inr (by omega))

theorem le_roundDiv (n d : Nat) : n / d ≤ roundDiv n d := by
  have hround := roundDiv_cases n d
  omega

/-- Any other integer is farther from the quotient than the rounded one, or as far from it
and the rounded one is even. -/
theorem roundDiv_nearest (n : Nat) {d : Nat} (hd : 0 < d) (j : Nat) :
    j = roundDiv n d ∨ Nat.dist n (roundDiv n d * d) < Nat.dist n (j * d) ∨
      (Nat.dist n (roundDiv n d * d) = Nat.dist n (j * d) ∧ roundDiv n d % 2 = 0) := by
  have hn := Nat.div_add_mod' n d
  have hmod := Nat.mod_lt n hd
  have hround := roundDiv_cases n d
  have hsucc : (n / d + 1) * d = n / d * d + d := Nat.succ_mul _ _
  -- `j` is one of the two neighbours, or a whole step away from both
  have hj : j = n / d ∨ j = n / d + 1 ∨ j * d + d ≤ n / d * d ∨ n / d * d + 2 * d ≤ j * d := by
    rcases Nat.lt_or_ge j (n / d) with h | h
    · have hstep : (j + 1) * d ≤ n / d * d := Nat.mul_le_mul_right d h
      rw [Nat.succ_mul] at hstep
      omega
    · rcases Nat.lt_or_ge (n / d + 1) j with h' | h'
      · have hstep : (n / d + 1 + 1) * d ≤ j * d := Nat.mul_le_mul_right d h'
        rw [Nat.succ_mul, hsucc] at hstep
        omega
      · omega
  generalize roundDiv n d = m at *
  generalize n / d = q at *
  simp only [Nat.dist]
  rcases hround with ⟨rfl, _⟩ | ⟨rfl, _⟩ | ⟨_, heven, rfl | rfl⟩ <;>
    rcases hj with rfl | rfl | hj | hj <;> omega

/-- An even integer is reached half a step below it. -/
theorem le_roundDiv_iff (n : Nat) {d : Nat} (hd : 0 < d) {j : Nat} (hj : j % 2 = 1) :
    j + 1 ≤ roundDiv n d ↔ (2 * j + 1) * d ≤ 2 * n := by
  have hn := Nat.div_add_mod' n d
  have hmod := Nat.mod_lt n hd
  have hround := roundDiv_cases n d
  have hstep : (2 * j + 1) * d = 2 * (j * d) + d := by ring
  rw [hstep]
  generalize roundDiv n d = m at *
  generalize n / d = q at *
  rcases Nat.lt_trichotomy j q with h | rfl | h
  · have hle : (j + 1) * d ≤ q * d := Nat.mul_le_mul_right d h
    rw [Nat.succ_mul] at hle
    omega
  · omega
  · have hle : (q + 1) * d ≤ j * d := Nat.mul_le_mul_right d h
    rw [Nat.succ_mul] at hle
    omega

namespace Binary64

/-! ### The numbers of the format -/

/-- The magnitude of a finite number, by its exponent field and its fraction field. -/
def magnitude (v : Binary64) : ℚ :=
  let exponent : Nat := v.pattern / 2 ^ 52
  let fraction : ℚ := (v.pattern % 2 ^ 52 : Nat) / 2 ^ 52
  if exponent = 0 then fraction * 2 ^ (-1022 : ℤ)
  else (1 + fraction) * 2 ^ ((exponent : ℤ) - 1023)

theorem magnitude_eq (v : Binary64) : v.magnitude = v.units / 2 ^ scale := by
  have hscale : (2 : ℚ) ^ scale = 2 ^ 52 * 2 ^ 1022 := by rw [← pow_add]; rfl
  rw [magnitude, hscale]
  obtain ⟨hlt, hunits⟩ | ⟨e, f, hf, hpattern, hunits⟩ := v.units_cases
  · have hexponent : v.pattern / 2 ^ 52 = 0 := Nat.div_eq_of_lt hlt
    have hfraction : v.pattern % 2 ^ 52 = v.pattern := Nat.mod_eq_of_lt hlt
    have hpower : (2 : ℚ) ^ (-1022 : ℤ) = (2 ^ 1022)⁻¹ := zpow_neg 2 _
    simp only [hexponent, hfraction, if_true, hunits, hpower]
    field_simp
  · have hexponent : v.pattern / 2 ^ 52 = e + 1 := by omega
    have hfraction : v.pattern % 2 ^ 52 = f := by omega
    have hpower : (2 : ℚ) ^ (((e + 1 : Nat) : ℤ) - 1023) = 2 ^ e / 2 ^ 1022 := by
      have hshift : ((e + 1 : Nat) : ℤ) - 1023 = (e : ℤ) - (1022 : Nat) := by omega
      rw [hshift, zpow_sub₀ two_ne_zero, zpow_natCast, zpow_natCast]
    simp only [hexponent, hfraction, Nat.succ_ne_zero, if_false, hunits, hpower]
    push_cast
    field_simp
    norm_num

/-- The magnitudes of the numbers are ordered as their patterns are. -/
theorem units_lt_units {u v : Binary64} (h : u.pattern < v.pattern) : u.units < v.units := by
  obtain ⟨_, hu⟩ | ⟨e, f, hf, hpattern, hu⟩ := u.units_cases <;>
    obtain ⟨_, hv⟩ | ⟨e', f', hf', hpattern', hv⟩ := v.units_cases
  · omega
  · have hpos : 1 ≤ 2 ^ e' := Nat.two_pow_pos e'
    have hle : (2 ^ 52 + f') * 1 ≤ (2 ^ 52 + f') * 2 ^ e' := Nat.mul_le_mul_left _ hpos
    omega
  · omega
  · rw [hu, hv]
    rcases Nat.lt_or_ge e e' with he | he
    · calc (2 ^ 52 + f) * 2 ^ e < 2 ^ 53 * 2 ^ e :=
            Nat.mul_lt_mul_of_pos_right (by omega) (Nat.two_pow_pos e)
        _ = 2 ^ 52 * 2 ^ (e + 1) := by ring
        _ ≤ (2 ^ 52 + f') * 2 ^ e' :=
            Nat.mul_le_mul (by omega) (Nat.pow_le_pow_right (by omega) he)
    · obtain rfl : e = e' := by omega
      exact Nat.mul_lt_mul_of_pos_right (by omega) (Nat.two_pow_pos e)

theorem magnitude_lt_magnitude {u v : Binary64} (h : u.pattern < v.pattern) :
    u.magnitude < v.magnitude := by
  have hunits : (u.units : ℚ) < v.units := Nat.cast_lt.mpr (units_lt_units h)
  rw [magnitude_eq, magnitude_eq]
  exact div_lt_div_of_pos_right hunits (by positivity)

theorem pattern_ofPattern {p : Nat} (h : p < 2 ^ 63) :
    (ofPattern p).pattern = p ∧ (ofPattern p).isNegative = false := by
  have hbits : (ofPattern p).bits.toNat = p := Nat.mod_eq_of_lt (by omega)
  constructor
  · rw [pattern, hbits]
    exact Nat.mod_eq_of_lt h
  · simpa [isNegative, hbits] using h

/-- The number with the 53 bits `m` and `k` zeros behind them, a carry included. -/
theorem units_ofPattern {k m : Nat} (hp : k * 2 ^ 52 + m < 2 ^ 63) (hm : m ≤ 2 ^ 53)
    (hk : k = 0 ∨ 2 ^ 52 ≤ m) : (ofPattern (k * 2 ^ 52 + m)).units = m * 2 ^ k := by
  have hpattern := (pattern_ofPattern hp).1
  obtain ⟨_, hunits⟩ | ⟨e, f, hf, he, hunits⟩ := (ofPattern (k * 2 ^ 52 + m)).units_cases
  · obtain rfl : k = 0 := by omega
    omega
  · rw [hunits]
    rcases Nat.lt_or_ge m (2 ^ 53) with hlt | hge
    · obtain rfl : e = k := by omega
      obtain rfl : m = 2 ^ 52 + f := by omega
      rfl
    · obtain rfl : e = k + 1 := by omega
      obtain rfl : f = 0 := by omega
      obtain rfl : m = 2 ^ 53 := by omega
      ring

/-- A number is a multiple of `2 ^ k` units, or it has fewer than 53 bits before these. -/
theorem units_dvd_or_lt (v : Binary64) (k : Nat) :
    (∃ j, v.units = j * 2 ^ k) ∨ (0 < k ∧ v.units < 2 ^ 52 * 2 ^ k) := by
  rcases Nat.eq_zero_or_pos k with rfl | hk
  · exact .inl ⟨v.units, by simp⟩
  obtain ⟨hlt, hunits⟩ | ⟨e, f, hf, _, hunits⟩ := v.units_cases
  · refine .inr ⟨hk, ?_⟩
    calc v.units < 2 ^ 52 * 1 := by omega
      _ ≤ 2 ^ 52 * 2 ^ k := Nat.mul_le_mul_left _ (Nat.two_pow_pos k)
  · rcases Nat.lt_or_ge e k with he | he
    · refine .inr ⟨hk, ?_⟩
      calc v.units = (2 ^ 52 + f) * 2 ^ e := hunits
        _ < 2 ^ 53 * 2 ^ e := Nat.mul_lt_mul_of_pos_right (by omega) (Nat.two_pow_pos e)
        _ = 2 ^ 52 * 2 ^ (e + 1) := by ring
        _ ≤ 2 ^ 52 * 2 ^ k := Nat.mul_le_mul_left _ (Nat.pow_le_pow_right (by omega) he)
    · refine .inl ⟨(2 ^ 52 + f) * 2 ^ (e - k), ?_⟩
      rw [hunits, Nat.mul_assoc, ← Nat.pow_add, Nat.sub_add_cancel he]

/-! ### The excess of a quotient -/

section Excess

variable (n : Nat) {d : Nat} (hd : 0 < d)
include hd

theorem lt_of_excess : n < 2 ^ 53 * (d * 2 ^ excess (n / d)) := by
  have hlog : n / d < 2 ^ (excess (n / d) + 53) :=
    Nat.lt_of_lt_of_le Nat.lt_log2_self (Nat.pow_le_pow_right (by omega) (by rw [excess]; omega))
  calc n < 2 ^ (excess (n / d) + 53) * d := (Nat.div_lt_iff_lt_mul hd).mp hlog
    _ = 2 ^ 53 * (d * 2 ^ excess (n / d)) := by ring

theorem le_of_excess_pos (h : 0 < excess (n / d)) : 2 ^ 52 * (d * 2 ^ excess (n / d)) ≤ n := by
  have hne : n / d ≠ 0 := by
    intro hzero
    simp [hzero, excess] at h
  have hlog : 2 ^ (excess (n / d) + 52) ≤ n / d := by
    have hexponent : excess (n / d) + 52 = (n / d).log2 := by
      rw [excess] at h ⊢
      omega
    rw [hexponent]
    exact Nat.log2_self_le hne
  calc 2 ^ 52 * (d * 2 ^ excess (n / d)) = 2 ^ (excess (n / d) + 52) * d := by ring
    _ ≤ n := (Nat.le_div_iff_mul_le hd).mp hlog

/-- The bits that are kept of a quotient, rounded. -/
theorem roundDiv_excess :
    roundDiv n (d * 2 ^ excess (n / d)) ≤ 2 ^ 53 ∧
      (excess (n / d) = 0 ∨ 2 ^ 52 ≤ roundDiv n (d * 2 ^ excess (n / d))) := by
  have hstep : 0 < d * 2 ^ excess (n / d) := Nat.mul_pos hd (Nat.two_pow_pos _)
  constructor
  · have hlt := (Nat.div_lt_iff_lt_mul hstep).mpr (lt_of_excess n hd)
    have hle := roundDiv_le n (d * 2 ^ excess (n / d))
    omega
  · rcases Nat.eq_zero_or_pos (excess (n / d)) with hzero | hpos
    · exact .inl hzero
    · have hle := (Nat.le_div_iff_mul_le hstep).mpr (le_of_excess_pos n hd hpos)
      exact .inr (Nat.le_trans hle (le_roundDiv _ _))

/-- No number of the format is nearer to a quotient than its bits that are kept. -/
theorem units_nearest (u : Binary64) {k m : Nat} (hk : k = excess (n / d))
    (hm : m = roundDiv n (d * 2 ^ k)) :
    u.units = m * 2 ^ k ∨ Nat.dist n (m * 2 ^ k * d) < Nat.dist n (u.units * d) ∨
      (Nat.dist n (m * 2 ^ k * d) = Nat.dist n (u.units * d) ∧ m % 2 = 0) := by
  have hstep : 0 < d * 2 ^ k := Nat.mul_pos hd (Nat.two_pow_pos k)
  have hswap (j : Nat) : j * 2 ^ k * d = j * (d * 2 ^ k) := by ring
  obtain ⟨j, hj⟩ | ⟨hpos, hlt⟩ := u.units_dvd_or_lt k
  · have hnearest := roundDiv_nearest n hstep j
    rw [hj, hswap, hswap, hm]
    exact hnearest.imp_left fun h => by rw [h]
  · -- below the least quotient of this excess, which is itself a multiple
    have hnearest := roundDiv_nearest n hstep (2 ^ 52)
    have hle : 2 ^ 52 * (d * 2 ^ k) ≤ n := hk ▸ le_of_excess_pos n hd (hk ▸ hpos)
    have hbelow : u.units * d < 2 ^ 52 * (d * 2 ^ k) := by
      rw [← hswap]
      exact Nat.mul_lt_mul_of_pos_right hlt hd
    refine .inr (.inl ?_)
    rw [hswap, hm]
    simp only [Nat.dist] at hnearest ⊢
    rcases hnearest with h | h | ⟨h, _⟩
    · rw [← h]
      omega
    · omega
    · omega

/-- Where the patterns with a given exponent field begin. -/
theorem le_pattern_iff (e : Nat) :
    (e + 2) * 2 ^ 52 ≤ excess (n / d) * 2 ^ 52 + roundDiv n (d * 2 ^ excess (n / d)) ↔
      (2 ^ 54 - 1) * (d * 2 ^ e) ≤ 2 * n := by
  have hbits := roundDiv_excess n hd
  have hlt := lt_of_excess n hd
  have hle := le_of_excess_pos n hd
  generalize excess (n / d) = k at *
  rcases Nat.lt_trichotomy k e with hke | rfl | hke
  · have hpow : d * 2 ^ (k + 1) ≤ d * 2 ^ e :=
      Nat.mul_le_mul_left d (Nat.pow_le_pow_right (by omega) hke)
    rw [Nat.pow_succ, ← Nat.mul_assoc] at hpow
    omega
  · have hstep : 0 < d * 2 ^ k := Nat.mul_pos hd (Nat.two_pow_pos k)
    have hiff := le_roundDiv_iff n hstep (j := 2 ^ 53 - 1) (by decide)
    omega
  · have hpow : d * 2 ^ (e + 1) ≤ d * 2 ^ k :=
      Nat.mul_le_mul_left d (Nat.pow_le_pow_right (by omega) hke)
    rw [Nat.pow_succ, ← Nat.mul_assoc] at hpow
    omega

end Excess

/-! ### Rounding -/

/-- Half a step above the largest finite number. -/
def limit : ℚ :=
  2 ^ 1024 - 2 ^ 970

/-- The rational `x`, not below zero, is rounded to a number. -/
inductive Rounds (x : ℚ) : Binary64 → Prop
  /-- The nearest of the finite numbers, with an even pattern if another is as near. -/
  | finite {v : Binary64} (hx : x < limit) (hsign : v.isNegative = false)
      (hfinite : v.pattern < infinityBits)
      (hnearest : ∀ u : Binary64, u.pattern < infinityBits →
        |x - v.magnitude| ≤ |x - u.magnitude|)
      (heven : ∀ u : Binary64, u.pattern < infinityBits →
        |x - v.magnitude| = |x - u.magnitude| → u.pattern = v.pattern ∨ Even v.pattern) :
      Rounds x v
  | infinite (hx : limit ≤ x) : Rounds x infinity

theorem limit_eq : limit = (2 ^ 54 - 1) * 2 ^ 970 := by
  have hhigh : (2 : ℚ) ^ 1024 = 2 ^ 54 * 2 ^ 970 := by rw [← pow_add]
  rw [limit, hhigh, sub_one_mul]

theorem limit_mul : limit * (2 * 2 ^ scale) = (2 ^ 54 - 1) * 2 ^ 2045 := by
  have hstep : (2 : ℚ) ^ 2045 = 2 ^ 970 * (2 * 2 ^ scale) := by
    rw [← pow_succ', ← pow_add, scale]
  rw [limit_eq, hstep, mul_assoc]

theorem limit_le_iff (n : Nat) {d : Nat} (hd : 0 < d) :
    limit ≤ (n : ℚ) / d ↔ (2 ^ 54 - 1) * (d * 2 ^ 2045) ≤ 2 * (n * 2 ^ scale) := by
  have hd' : (0 : ℚ) < d := Nat.cast_pos.mpr hd
  have hscale : (0 : ℚ) < 2 * 2 ^ scale := by positivity
  have hcast : (((2 ^ 54 - 1) * (d * 2 ^ 2045) : Nat) : ℚ) = limit * d * (2 * 2 ^ scale) := by
    have hbits : ((2 ^ 54 - 1 : Nat) : ℚ) = 2 ^ 54 - 1 := by norm_num
    rw [mul_right_comm, limit_mul, Nat.cast_mul, Nat.cast_mul, Nat.cast_pow, hbits,
      Nat.cast_ofNat, mul_assoc, mul_comm (d : ℚ)]
  have hcast' : ((2 * (n * 2 ^ scale) : Nat) : ℚ) = n * (2 * 2 ^ scale) := by
    push_cast
    ring
  rw [le_div_iff₀ hd', ← Nat.cast_le (α := ℚ), hcast, hcast', mul_le_mul_iff_left₀ hscale]

/-- Between two patterns of one parity there is a third. -/
theorem exists_between {u v : Binary64} (h : u.pattern < v.pattern)
    (heven : Even u.pattern) (heven' : Even v.pattern) :
    ∃ w : Binary64, u.pattern < w.pattern ∧ w.pattern < v.pattern := by
  have hlt : v.pattern < 2 ^ 63 := Nat.mod_lt _ (by decide)
  have hpattern := (pattern_ofPattern (p := u.pattern + 1) (by omega)).1
  refine ⟨ofPattern (u.pattern + 1), by omega, ?_⟩
  grind

/-- What lies between two equally distant numbers is nearer than they are. -/
theorem abs_sub_lt_of_between {x a b c : ℚ} (hab : a < b) (hbc : b < c)
    (h : |x - a| = |x - c|) : |x - b| < |x - a| := by
  have hx : x - a = -(x - c) := by
    refine (abs_eq_abs.mp h).resolve_left fun heq => ?_
    linarith
  have hpos : 0 < x - a := by linarith
  rw [abs_of_pos hpos, abs_lt]
  constructor <;> linarith

/-- Of two nearest numbers one has an odd pattern. -/
theorem dist_ne_of_lt {x : ℚ} {u v : Binary64} (h : u.pattern < v.pattern)
    (hfinite : v.pattern < infinityBits) (heven : Even u.pattern) (heven' : Even v.pattern)
    (hnearest : ∀ w : Binary64, w.pattern < infinityBits →
      |x - u.magnitude| ≤ |x - w.magnitude|) :
    |x - u.magnitude| ≠ |x - v.magnitude| := by
  intro hdist
  obtain ⟨w, huw, hwv⟩ := exists_between h heven heven'
  have hnearer := abs_sub_lt_of_between (magnitude_lt_magnitude huw)
    (magnitude_lt_magnitude hwv) hdist
  exact absurd (hnearest w (hwv.trans hfinite)) (not_le.mpr hnearer)

theorem Rounds.unique {x : ℚ} {v w : Binary64} (hv : Rounds x v) (hw : Rounds x w) : v = w := by
  cases hv with
  | infinite hx =>
      cases hw with
      | infinite => rfl
      | finite hx' => exact absurd hx (not_le.mpr hx')
  | finite hx hsign hfinite hnearest heven =>
      cases hw with
      | infinite hx' => exact absurd hx' (not_le.mpr hx)
      | finite hx' hsign' hfinite' hnearest' heven' =>
          have hdist := le_antisymm (hnearest w hfinite') (hnearest' v hfinite)
          have hpattern : v.pattern = w.pattern := by
            rcases heven w hfinite' hdist with h | hev
            · exact h.symm
            rcases heven' v hfinite hdist.symm with h | hev'
            · exact h
            -- an odd pattern would lie between the two, and be nearer
            refine not_ne_iff.mp fun hne => ?_
            rcases Nat.lt_or_gt_of_ne hne with hlt | hlt
            · exact absurd hdist (dist_ne_of_lt hlt hfinite' hev hev' hnearest)
            · exact absurd hdist.symm (dist_ne_of_lt hlt hfinite hev' hev hnearest')
          rw [← ofPattern_pattern hsign, ← ofPattern_pattern hsign', hpattern]

theorem abs_sub_natCast (a b : Nat) : |(a : ℚ) - b| = Nat.dist a b := by
  rcases Nat.le_total a b with h | h
  · have hle : (a : ℚ) - b ≤ 0 := sub_nonpos.mpr (Nat.cast_le.mpr h)
    rw [abs_of_nonpos hle, neg_sub, Nat.dist_eq_sub_of_le h, Nat.cast_sub h]
  · have hle : 0 ≤ (a : ℚ) - b := sub_nonneg.mpr (Nat.cast_le.mpr h)
    rw [abs_of_nonneg hle, Nat.dist_eq_sub_of_le_right h, Nat.cast_sub h]

/-- Distances from a quotient, counted in units. -/
theorem abs_sub_magnitude (n : Nat) {d : Nat} (hd : 0 < d) (u : Binary64) :
    |(n : ℚ) / d - u.magnitude| =
      (Nat.dist (n * 2 ^ scale) (u.units * d) : ℚ) / (d * 2 ^ scale) := by
  have hd' : (0 : ℚ) < d := Nat.cast_pos.mpr hd
  have hdiff : (n : ℚ) / d - u.magnitude =
      ((n * 2 ^ scale : Nat) - (u.units * d : Nat) : ℚ) / (d * 2 ^ scale) := by
    rw [magnitude_eq]
    push_cast
    field_simp
  have hpos : (0 : ℚ) < d * 2 ^ scale := by positivity
  rw [hdiff, abs_div, abs_sub_natCast, abs_of_pos hpos]

theorem pattern_eq_of_units_eq {u v : Binary64} (h : u.units = v.units) :
    u.pattern = v.pattern := by
  refine Nat.le_antisymm (Nat.not_lt.mp fun hlt => ?_) (Nat.not_lt.mp fun hlt => ?_)
  · exact absurd h (Nat.ne_of_gt (units_lt_units hlt))
  · exact absurd h (Nat.ne_of_lt (units_lt_units hlt))

/-- A quotient is rounded by `ofRatio`. -/
theorem rounds_ofRatio (n : Nat) {d : Nat} (hd : 0 < d) : Rounds ((n : ℚ) / d) (ofRatio n d) := by
  have hlimit := limit_le_iff n hd
  rw [← le_pattern_iff _ hd 2045] at hlimit
  obtain ⟨hm, hk⟩ := roundDiv_excess (n * 2 ^ scale) hd
  have hnearest (u : Binary64) := units_nearest (n * 2 ^ scale) hd u rfl rfl
  rw [ofRatio, Nat.shiftLeft_eq, nearestPattern_eq]
  generalize excess (n * 2 ^ scale / d) = k at *
  generalize roundDiv (n * 2 ^ scale) (d * 2 ^ k) = m at *
  rcases Nat.lt_or_ge (k * 2 ^ 52 + m) infinityBits with hlt | hge
  · have hlt' : k * 2 ^ 52 + m < 2 ^ 63 := hlt.trans (by decide)
    obtain ⟨hpattern, hsign⟩ := pattern_ofPattern hlt'
    have hunits := units_ofPattern hlt' hm hk
    have hpos : (0 : ℚ) < d * 2 ^ scale := by positivity
    rw [Nat.min_eq_left hlt.le]
    refine .finite (not_le.mp fun hx => ?_) hsign (hpattern.trans_lt hlt) (fun u _ => ?_)
      fun u _ hdist => ?_
    · have hreach := hlimit.mp hx
      rw [infinityBits_eq] at hlt
      omega
    · rw [abs_sub_magnitude n hd, abs_sub_magnitude n hd, hunits,
        div_le_div_iff_of_pos_right hpos, Nat.cast_le]
      rcases hnearest u with heq | hfar | ⟨heq, _⟩
      · rw [heq]
      · exact hfar.le
      · exact heq.le
    · rw [abs_sub_magnitude n hd, abs_sub_magnitude n hd, hunits,
        div_left_inj' hpos.ne', Nat.cast_inj] at hdist
      rcases hnearest u with heq | hfar | ⟨_, heven⟩
      · exact .inl (pattern_eq_of_units_eq (heq.trans hunits.symm))
      · exact absurd hdist hfar.ne
      · rw [hpattern, Nat.even_iff]
        omega
  · rw [Nat.min_eq_right hge]
    refine .infinite (hlimit.mpr ?_)
    rw [infinityBits_eq] at hge
    omega

end Binary64

namespace Decimal

open Binary64

/-- The rational number that a decimal is. -/
def toRat (d : Decimal) : ℚ :=
  d.coefficient * 10 ^ d.exponent

/-- A decimal is read as what it is rounded to. -/
theorem rounds_toBinary64 (d : Decimal) : Rounds d.toRat d.toBinary64 := by
  obtain ⟨n, e⟩ := d
  have hratio : toRat ⟨n, e⟩ = ((n * 10 ^ e.toNat : Nat) : ℚ) / (10 ^ (-e).toNat : Nat) := by
    have hexponent : e = (e.toNat : ℤ) - ((-e).toNat : ℤ) := by omega
    have hpower : (10 : ℚ) ^ e = 10 ^ e.toNat / 10 ^ (-e).toNat := by
      conv_lhs => rw [hexponent]
      rw [zpow_sub₀ (by norm_num), zpow_natCast, zpow_natCast]
    rw [toRat, hpower, Nat.cast_mul, Nat.cast_pow, Nat.cast_pow, Nat.cast_ofNat, mul_div_assoc]
  rw [hratio, toBinary64_eq]
  exact rounds_ofRatio _ (Nat.pow_pos (by omega))

end Decimal

end TwoSorted
