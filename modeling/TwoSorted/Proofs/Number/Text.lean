import Mathlib.Data.List.Basic
import Mathlib.Data.List.Induction
import TwoSorted.Number.Text
import TwoSorted.Proofs.Number.Shortest
import TwoSorted.Proofs.Token.Numeral

/-!
# The text of a number

A decimal is written by its digits without the zeros at their end and by the
place of its point. Both forms of writing, with a point alone and with a power
of ten, are plain numerals for the number as which the decimal is read. So the
text of a finite number without a sign denotes that number.
-/

namespace TwoSorted

namespace Numeral

/-! ### The number that digits spell -/

theorem ofDigits_append_singleton (ds : List Char) (c : Char) :
    ofDigits 10 (ds ++ [c]) = ofDigits 10 ds * 10 + digitValue c := by
  simp [ofDigits]

theorem ofDigits_append_zeros (ds : List Char) (k : Nat) :
    ofDigits 10 (ds ++ List.replicate k '0') = ofDigits 10 ds * 10 ^ k := by
  induction k with
  | zero => simp
  | succ k ih =>
      rw [List.replicate_succ', ← List.append_assoc, ofDigits_append_singleton, ih,
        Nat.pow_succ, Nat.mul_assoc]
      rfl

theorem ofDigits_zeros_append (k : Nat) (ds : List Char) :
    ofDigits 10 (List.replicate k '0' ++ ds) = ofDigits 10 ds := by
  induction k with
  | zero => simp
  | succ k ih =>
      rw [← ih]
      rfl

theorem ofDigits_eq {ds : List Char} (h : ∀ c ∈ ds, c.isDigit = true) :
    ofDigits 10 ds = Nat.ofDigitChars 10 ds 0 := by
  rw [ofDigits, Nat.ofDigitChars_eq_foldl]
  refine List.foldl_ext _ _ _ fun n c hc => ?_
  rw [digitValue, if_pos (h c hc), Nat.mul_comm]

theorem isDigit_of_mem_toDigits {n : Nat} : ∀ c ∈ Nat.toDigits 10 n, c.isDigit = true :=
  fun _ hc => Nat.isDigit_of_mem_toDigits (by omega) (by omega) hc

theorem ofDigits_toDigits (n : Nat) : ofDigits 10 (Nat.toDigits 10 n) = n := by
  rw [ofDigits_eq isDigit_of_mem_toDigits, Nat.ofDigitChars_ten_toDigits]

/-- The digits of an exponent that is not out of range all count. -/
theorem exponentOf_eq {ds : List Char} (h : ofDigits 10 ds < 10000) :
    exponentOf ds = ofDigits 10 ds := by
  induction ds using List.reverseRecOn with
  | nil => rfl
  | append_singleton ds c ih =>
      rw [ofDigits_append_singleton] at h ⊢
      have hlt : ofDigits 10 ds < 10000 := by omega
      have hstep : exponentOf (ds ++ [c]) =
          if exponentOf ds < 10000 then exponentOf ds * 10 + digitValue c
          else exponentOf ds := by
        rw [exponentOf, List.foldl_append]
        rfl
      rw [hstep, ih hlt, if_pos hlt]

end Numeral

namespace Decimal

open Numeral

/-! ### Digits and point of a decimal -/

/-- The digits of the coefficient are the ones written and some zeros. -/
theorem toDigits_coefficient {d : Decimal} (h : d.coefficient ≠ 0) :
    ∃ k, Nat.toDigits 10 d.coefficient = d.digits ++ List.replicate k '0' := by
  have hsplit := List.takeWhile_append_dropWhile (p := (· == '0'))
    (l := (Nat.toDigits 10 d.coefficient).reverse)
  obtain ⟨k, hk⟩ : ∃ k, (Nat.toDigits 10 d.coefficient).reverse.takeWhile (· == '0') =
      List.replicate k '0' :=
    ⟨_, List.eq_replicate_of_mem fun c hc =>
      beq_iff_eq.mp (List.all_eq_true.mp List.all_takeWhile c hc)⟩
  refine ⟨k, ?_⟩
  rw [digits, if_neg h, ← List.reverse_replicate, ← List.reverse_append, ← hk, hsplit,
    List.reverse_reverse]

theorem isDigit_of_mem_digits (d : Decimal) : ∀ c ∈ d.digits, c.isDigit = true := by
  intro c hc
  by_cases h : d.coefficient = 0
  · simp [digits, h] at hc
  · obtain ⟨k, hk⟩ := toDigits_coefficient h
    apply isDigit_of_mem_toDigits (n := d.coefficient)
    rw [hk]
    exact List.mem_append_left _ hc

theorem coefficient_eq {d : Decimal} (h : d.coefficient ≠ 0) :
    ∃ k, d.coefficient = ofDigits 10 d.digits * 10 ^ k ∧ d.width = d.digits.length + k := by
  obtain ⟨k, hk⟩ := toDigits_coefficient h
  refine ⟨k, ?_, ?_⟩
  · rw [← ofDigits_append_zeros, ← hk, ofDigits_toDigits]
  · rw [width, hk, List.length_append, List.length_replicate]

theorem digits_ne_nil {d : Decimal} (h : d.coefficient ≠ 0) : d.digits ≠ [] := by
  intro hnil
  obtain ⟨k, hk, _⟩ := coefficient_eq h
  rw [hnil] at hk
  exact h (by rw [hk]; exact Nat.zero_mul _)

theorem toBinary64_zero (e e' : Int) : toBinary64 ⟨0, e⟩ = toBinary64 ⟨0, e'⟩ := by
  rw [toBinary64_eq, toBinary64_eq]
  apply Binary64.ofRatio_congr (Nat.pow_pos (by omega)) (Nat.pow_pos (by omega))
  simp

/-- A decimal is read by the digits written and the place of its point. -/
theorem toBinary64_digits (d : Decimal) :
    d.toBinary64 = toBinary64 ⟨ofDigits 10 d.digits, d.point - d.digits.length⟩ := by
  obtain ⟨n, e⟩ := d
  by_cases h : n = 0
  · subst h
    exact toBinary64_zero _ _
  · obtain ⟨k, hk, hwidth⟩ := coefficient_eq (d := ⟨n, e⟩) h
    have hpoint : point ⟨n, e⟩ - (digits ⟨n, e⟩).length = e + k := by
      rw [point, if_neg h, hwidth]
      dsimp only
      omega
    rw [hpoint, ← toBinary64_mul_pow, ← hk]

/-! ### The two forms of writing -/

theorem isDigit_of_mem_zeros {k : Nat} : ∀ c ∈ List.replicate k '0', c.isDigit = true := by
  intro c hc
  rw [List.eq_of_mem_replicate hc]
  rfl

/-- Digits around a point are a plain numeral. -/
theorem denotes_of_digits {whole : List Char} (fraction : Option (List Char))
    (hpos : 0 < whole.length)
    (hdigits : ∀ c ∈ whole ++ fraction.getD [], c.isDigit = true) :
    Denotes (whole ++ fraction.elim [] ('.' :: ·))
      (toBinary64 ⟨ofDigits 10 (whole ++ fraction.getD []), -(fraction.getD []).length⟩) := by
  refine ⟨whole, fraction, [], [], [], ⟨List.ne_nil_of_length_pos hpos, hdigits, .none⟩,
    by simp [Numeral.text], ?_⟩
  simp [toDecimal, exponentOf]

/-- With no digits before the point, a zero and as many more as there are places
stand in front of the digits. -/
theorem denotes_positional_neg {ds : List Char} (hds : ∀ c ∈ ds, c.isDigit = true)
    (k : Nat) :
    Denotes (positional ds (-k)) (toBinary64 ⟨ofDigits 10 ds, -k - ds.length⟩) := by
  have hp : -(k : Int) ≤ 0 := by omega
  have hzero : (-(k : Int)).toNat = 0 := by omega
  simp only [positional, hp, if_true, hzero, List.drop_zero, Int.neg_neg, Int.toNat_natCast]
  by_cases hempty : List.replicate k '0' ++ ds = []
  · obtain ⟨hk, rfl⟩ := List.append_eq_nil_iff.mp hempty
    obtain rfl : k = 0 := by simpa using hk
    exact denotes_of_digits none (show 0 < ['0'].length by decide) (by simp)
  · have hdigits := List.forall_mem_append.mpr ⟨isDigit_of_mem_zeros (k := k + 1), hds⟩
    have hdenotes := denotes_of_digits (some (List.replicate k '0' ++ ds))
      (show 0 < ['0'].length by decide) hdigits
    have hvalue : ofDigits 10 (['0'] ++ (List.replicate k '0' ++ ds)) = ofDigits 10 ds :=
      ofDigits_zeros_append (k + 1) ds
    have hexponent : -(k : Int) - ds.length = -(List.replicate k '0' ++ ds).length := by
      rw [List.length_append, List.length_replicate]
      omega
    rw [Option.getD_some, hvalue, ← hexponent] at hdenotes
    rw [if_neg (by simpa using hempty)]
    exact hdenotes

theorem denotes_positional_pos {ds : List Char} (hds : ∀ c ∈ ds, c.isDigit = true)
    {p : Nat} (hpos : 0 < p) :
    Denotes (positional ds p) (toBinary64 ⟨ofDigits 10 ds, p - ds.length⟩) := by
  have hp : ¬ (p : Int) ≤ 0 := by omega
  have hzero : (-(p : Int)).toNat = 0 := by omega
  simp only [positional, hp, if_false, hzero, Int.toNat_natCast, List.replicate_zero,
    List.nil_append]
  rcases Nat.lt_or_ge p ds.length with hlt | hge
  · -- digits stand on either side of the point
    have hwhole : ds.take p ++ List.replicate (p - ds.length) '0' = ds.take p := by
      rw [Nat.sub_eq_zero_of_le (Nat.le_of_lt hlt)]
      exact List.append_nil _
    have hlength : (ds.take p).length = p := List.length_take_of_le (Nat.le_of_lt hlt)
    have hdenotes := denotes_of_digits (some (ds.drop p))
      (show 0 < (ds.take p).length by omega)
      (by rwa [Option.getD_some, List.take_append_drop])
    have hexponent : (p : Int) - ds.length = -(ds.drop p).length := by
      rw [List.length_drop]
      omega
    rw [Option.getD_some, List.take_append_drop, ← hexponent] at hdenotes
    rw [hwhole, if_neg (by simpa using hlt)]
    exact hdenotes
  · -- all digits stand before the point, and zeros fill the places up
    have hwhole : ds.take p = ds := List.take_of_length_le hge
    have hlength : (ds ++ List.replicate (p - ds.length) '0').length = p := by
      rw [List.length_append, List.length_replicate]
      omega
    have hdigits := List.forall_mem_append.mpr
      ⟨hds, isDigit_of_mem_zeros (k := p - ds.length)⟩
    have hdenotes := denotes_of_digits none (hlength ▸ hpos) (by simpa using hdigits)
    have hexponent : (p : Int) - ds.length = 0 + (p - ds.length : Nat) := by omega
    simp only [Option.getD_none, List.append_nil, List.length_nil, Int.natCast_zero,
      Int.neg_zero, ofDigits_append_zeros, toBinary64_mul_pow, ← hexponent,
      Option.elim_none] at hdenotes
    rw [hwhole, if_pos (by simpa using hge)]
    exact hdenotes

theorem exponentText_eq (e : Int) :
    ∃ exponent, exponentText e = (if e < 0 then '-' else '+') :: exponent ∧
      exponent ≠ [] ∧ (∀ c ∈ exponent, c.isDigit = true) ∧
      ofDigits 10 exponent = e.natAbs := by
  have hdigits := @isDigit_of_mem_toDigits e.natAbs
  by_cases hshort : (Nat.toDigits 10 e.natAbs).length < 2
  · refine ⟨'0' :: Nat.toDigits 10 e.natAbs, by simp only [exponentText, hshort, if_true],
      by simp, List.forall_mem_cons.mpr ⟨rfl, hdigits⟩, ?_⟩
    exact (ofDigits_zeros_append 1 _).trans (ofDigits_toDigits _)
  · exact ⟨Nat.toDigits 10 e.natAbs, by simp only [exponentText, hshort, if_false],
      Nat.toDigits_ne_nil, hdigits, ofDigits_toDigits _⟩

/-- A written power of ten moves the point by its exponent. -/
theorem exponentText_power {e : Int} (h : e.natAbs < 10000) :
    ∃ sign exponent, exponentText e = sign :: exponent ∧ IsPower ['e'] [sign] exponent ∧
      ∀ whole fraction, toDecimal whole fraction [sign] exponent =
        ⟨ofDigits 10 (whole ++ fraction.getD []), e - (fraction.getD []).length⟩ := by
  obtain ⟨exponent, htext, hne, hdigits, hvalue⟩ := exponentText_eq e
  have hexact : exponentOf exponent = e.natAbs := by
    rw [exponentOf_eq (by omega), hvalue]
  refine ⟨_, exponent, htext, .signed ?_ hne hdigits, fun whole fraction => ?_⟩
  · split <;> rfl
  · by_cases hneg : e < 0
    · have habs : -(e.natAbs : Int) = e := by omega
      simp only [toDecimal, hexact, hneg, if_true, habs]
    · have habs : (e.natAbs : Int) = e := by omega
      simp only [toDecimal, hexact, hneg, if_false, habs]
      rfl

/-- One digit stands before the point. -/
theorem denotes_scientific {ds : List Char} (hds : ∀ c ∈ ds, c.isDigit = true)
    (hne : ds ≠ []) {e : Int} (he : e.natAbs < 10000) :
    Denotes (scientific ds e) (toBinary64 ⟨ofDigits 10 ds, e - (ds.length - 1)⟩) := by
  obtain ⟨sign, exponent, htext, hpower, hvalue⟩ := exponentText_power he
  cases ds with
  | nil => exact absurd rfl hne
  | cons c ds =>
      have hlength : ((c :: ds).length : Int) - 1 = ds.length := by
        rw [List.length_cons]
        omega
      rw [hlength]
      cases ds with
      | nil =>
          refine ⟨[c], none, ['e'], [sign], exponent, ⟨by simp, hds, hpower⟩, ?_, ?_⟩
          · simp [scientific, htext, Numeral.text]
          · rw [hvalue]
            rfl
      | cons c' ds =>
          refine ⟨[c], some (c' :: ds), ['e'], [sign], exponent,
            ⟨by simp, hds, hpower⟩, ?_, ?_⟩
          · simp [scientific, htext, Numeral.text]
          · rw [hvalue]
            rfl

/-- The text of a decimal denotes the number as which the decimal is read. -/
theorem denotes_text {d : Decimal} (h : (d.point - 1).natAbs < 10000) :
    Denotes d.text d.toBinary64 := by
  have hdigits := isDigit_of_mem_digits d
  rw [toBinary64_digits]
  unfold text
  dsimp only
  split
  · rename_i hscientific
    have hne : d.digits ≠ [] := by
      apply digits_ne_nil
      intro hzero
      rw [point, if_pos hzero] at hscientific
      revert hscientific
      decide
    have hexponent : d.point - d.digits.length =
        d.point - 1 - ((d.digits.length : Int) - 1) := by omega
    rw [hexponent]
    exact denotes_scientific hdigits hne h
  · rename_i hpositional
    simp only [leastPositional, endPositional] at hpositional
    by_cases hpos : 0 < d.point
    · obtain ⟨p, hp⟩ := Int.eq_ofNat_of_zero_le (Int.le_of_lt hpos)
      rw [hp]
      exact denotes_positional_pos hdigits (by omega)
    · obtain ⟨k, hk⟩ := Int.eq_ofNat_of_zero_le (show 0 ≤ -d.point by omega)
      rw [show d.point = -k by omega]
      exact denotes_positional_neg hdigits k

end Decimal

namespace Binary64

/-- The text of a finite number without a sign denotes the number. -/
theorem denotes_text {v : Binary64} (hnan : v.isNaN = false) (hinf : v.isInfinite = false)
    (hsign : v.isNegative = false) : Numeral.Denotes v.text.toList v := by
  have hlt := pattern_lt hnan hinf
  have htext : v.text.toList = (Decimal.shortest v).text := by
    simp [text, hnan, hinf, hsign, abs_of_not_isNegative hsign]
  have hpoint : ((Decimal.shortest v).point - 1).natAbs < 10000 := by
    obtain ⟨hlow, hhigh, hwidth⟩ := Decimal.shortest_bounds hlt
    unfold Decimal.point
    split <;> omega
  rw [htext]
  have hdenotes := Decimal.denotes_text hpoint
  rwa [Decimal.toBinary64_shortest hlt hsign] at hdenotes

end Binary64

end TwoSorted
