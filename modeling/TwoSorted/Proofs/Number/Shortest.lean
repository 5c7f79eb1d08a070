import TwoSorted.Proofs.Number.Rounding

/-!
# The shortest decimal of a number

`Decimal.shortest v` reads back as the finite number `v`: a neighbour is taken
only if it does, and all digits of `v` always do. Its coefficient and its
exponent are bounded, which is all that the text of a number needs to know about
the search. The bounds are crude: they count every factor two as a digit.
-/

namespace TwoSorted

namespace Binary64

theorem pattern_eq_zero {v : Binary64} (h : v.units = 0) : v.pattern = 0 := by
  obtain ⟨_, hunits⟩ | ⟨e, f, _, _, hunits⟩ := v.units_cases
  · omega
  · have hpos : 0 < (2 ^ 52 + f) * 2 ^ e := Nat.mul_pos (by omega) (Nat.two_pow_pos e)
    omega

theorem units_lt {v : Binary64} (h : v.pattern < infinityBits) :
    ∃ k, 0 < k ∧ k ≤ 2098 ∧ v.units < 10 ^ k := by
  have htwo (k : Nat) : 2 ^ k ≤ 10 ^ k := Nat.pow_le_pow_left (by omega) k
  rw [infinityBits_eq] at h
  obtain ⟨hlt, hunits⟩ | ⟨e, f, hf, hpattern, hunits⟩ := v.units_cases
  · exact ⟨52, by omega, by omega, hunits ▸ Nat.lt_of_lt_of_le hlt (htwo 52)⟩
  · refine ⟨53 + e, by omega, by omega, ?_⟩
    calc v.units = (2 ^ 52 + f) * 2 ^ e := hunits
      _ < 2 ^ 53 * 2 ^ e := Nat.mul_lt_mul_of_pos_right (by omega) (Nat.two_pow_pos e)
      _ = 2 ^ (53 + e) := (Nat.pow_add 2 53 e).symm
      _ ≤ 10 ^ (53 + e) := htwo (53 + e)

end Binary64

namespace Decimal

open Binary64

/-! ### Reading back -/

/-- A neighbour that is taken reads back, and is at most twice as much as `v` and
one more. -/
theorem of_neighbour? {v : Binary64} {e : Int} {d : Decimal}
    (h : neighbour? v e = some d) :
    d.toBinary64 = v ∧ d.exponent = e ∧
      d.coefficient ≤ 2 * (v.units * 10 ^ (-e).toNat) + 1 := by
  rw [neighbour?, Nat.pow_eq, Nat.pow_eq] at h
  generalize v.units * 10 ^ (-e).toNat = n at h ⊢
  generalize 10 ^ e.toNat <<< scale = m at h
  have hround := roundDiv_le n m
  have hdiv := Nat.div_le_self n m
  split at h
  · rename_i hnear
    obtain rfl := Option.some.inj h
    exact ⟨hnear, rfl, by dsimp only; omega⟩
  · split at h
    · rename_i hfar
      obtain rfl := Option.some.inj h
      exact ⟨hfar, rfl, by dsimp only; omega⟩
    · cases h

/-- Where the shortest decimal comes from. -/
theorem shortest_cases (v : Binary64) :
    (v.units = 0 ∧ shortest v = ⟨0, 0⟩) ∨
    (∃ i : Nat, i < 17 ∧
      neighbour? v (leadingPlace v - (i + 1 : Nat)) = some (shortest v)) ∨
    shortest v = exact v := by
  unfold shortest
  split
  · exact .inl ⟨‹_›, rfl⟩
  · dsimp only
    cases hfind : (List.range 17).findSome? fun i : Nat =>
        neighbour? v (leadingPlace v - (i + 1 : Nat)) with
    | none => exact .inr (.inr rfl)
    | some d =>
        obtain ⟨i, hi, hd⟩ := List.exists_of_findSome?_eq_some hfind
        exact .inr (.inl ⟨i, List.mem_range.mp hi, hd⟩)

theorem toBinary64_shortest {v : Binary64} (h : v.pattern < infinityBits)
    (hsign : v.isNegative = false) : (shortest v).toBinary64 = v := by
  obtain ⟨hzero, hshortest⟩ | ⟨i, _, hneighbour⟩ | hshortest := shortest_cases v
  · rw [hshortest, ← ofPattern_pattern hsign, pattern_eq_zero hzero]
    decide
  · exact (of_neighbour? hneighbour).1
  · rw [hshortest, toBinary64_exact h hsign]

/-! ### Bounds -/

theorem lift_le (v : Binary64) : lift v ≤ 359 := by
  unfold lift scale
  omega

theorem leadingPlace_bounds {v : Binary64} {k : Nat} (hk : 0 < k) (h : v.units < 10 ^ k) :
    -358 ≤ leadingPlace v ∧ leadingPlace v ≤ k := by
  have hlift := lift_le v
  have hlt : (v.units * Nat.pow 10 (lift v)) >>> scale < 10 ^ (k + lift v) := by
    calc (v.units * Nat.pow 10 (lift v)) >>> scale ≤ v.units * 10 ^ lift v := by
          rw [Nat.shiftRight_eq_div_pow]
          exact Nat.div_le_self _ _
      _ < 10 ^ k * 10 ^ lift v :=
          Nat.mul_lt_mul_of_pos_right h (Nat.pow_pos (by omega))
      _ = 10 ^ (k + lift v) := (Nat.pow_add 10 k _).symm
  have hlength := (Nat.length_toDigits_le_iff (by omega) (by omega)).mpr hlt
  have hpos := @Nat.length_toDigits_pos 10 ((v.units * Nat.pow 10 (lift v)) >>> scale)
  unfold leadingPlace
  omega

/-- The digits of the shortest decimal and its exponent are of moderate size. -/
theorem shortest_bounds {v : Binary64} (h : v.pattern < infinityBits) :
    -1074 ≤ (shortest v).exponent ∧ (shortest v).exponent ≤ 2098 ∧
      (shortest v).width ≤ 3172 := by
  obtain ⟨k, hpos, hk, hunits⟩ := units_lt h
  obtain ⟨_, hshortest⟩ | ⟨i, hi, hneighbour⟩ | hshortest := shortest_cases v
  · rw [hshortest]
    decide
  · obtain ⟨_, hexponent, hle⟩ := of_neighbour? hneighbour
    obtain ⟨hlow, hhigh⟩ := leadingPlace_bounds hpos hunits
    have hten : (-(leadingPlace v - (i + 1 : Nat))).toNat ≤ 375 := by omega
    generalize (-(leadingPlace v - (i + 1 : Nat))).toNat = j at hle hten
    have hlt : (shortest v).coefficient < 10 ^ (k + j + 1) := by
      have hscaled : v.units * 10 ^ j < 10 ^ (k + j) := by
        rw [Nat.pow_add]
        exact Nat.mul_lt_mul_of_pos_right hunits (Nat.pow_pos (by omega))
      rw [Nat.pow_succ]
      omega
    have hwidth : (shortest v).width ≤ k + j + 1 :=
      (Nat.length_toDigits_le_iff (by omega) (by omega)).mpr hlt
    omega
  · have hfive : Nat.pow 5 scale ≤ 10 ^ scale := by
      rw [Nat.pow_eq]
      exact Nat.pow_le_pow_left (by omega) scale
    have hlt : v.units * Nat.pow 5 scale < 10 ^ (k + scale) := by
      rw [Nat.pow_add]
      exact Nat.mul_lt_mul_of_lt_of_le hunits hfive (Nat.pow_pos (by omega))
    have hwidth : (exact v).width ≤ k + scale :=
      (Nat.length_toDigits_le_iff (by omega) (by omega)).mpr hlt
    have hscale : scale = 1074 := rfl
    have hexponent : (exact v).exponent = -scale := rfl
    rw [hshortest]
    omega

end Decimal

end TwoSorted
