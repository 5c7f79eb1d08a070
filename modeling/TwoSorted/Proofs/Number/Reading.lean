import TwoSorted.Number.Reading

/-!
# What a text is read as

The digits of an integer spell a number, and this is the number that is read, be it as
an integer of 64 bits or of any size (`Numeral.integerValue?_eq`). A decimal is read as
its parts say (`Decimal.ofText?_eq`), and only what has these parts is one
(`Decimal.hasParts_of_ofText?`). No text that is read as a number has a character from
`0x80` on in it.
-/

namespace TwoSorted

theorem toNat_lt_of_isDigit {c : Char} (h : c.isDigit = true) : c.toNat < 0x80 :=
  Nat.lt_of_le_of_lt (Char.isDigit_iff_toNat.mp h).2 (by decide)

namespace Numeral

theorem toNat_lt_of_isHexLetter {c : Char} (h : isHexLetter c = true) : c.toNat < 0x80 := by
  simp only [isHexLetter, Bool.or_eq_true, Bool.and_eq_true, decide_eq_true_eq] at h
  rcases h with ⟨_, h⟩ | ⟨_, h⟩
  · exact Nat.lt_of_le_of_lt h (by decide)
  · exact Nat.lt_of_le_of_lt h (by decide)

theorem toNat_lt_of_isSign {c : Char} (h : isSign c = true) : c.toNat < 0x80 := by
  simp only [isSign, Bool.or_eq_true, beq_iff_eq] at h
  rcases h with rfl | rfl <;> decide

theorem toNat_lt_of_isExponentMark {c : Char} (h : isExponentMark c = true) :
    c.toNat < 0x80 := by
  simp only [isExponentMark, Bool.or_eq_true, beq_iff_eq] at h
  rcases h with rfl | rfl <;> decide

theorem toNat_lt_of_isHexMark {c : Char} (h : isHexMark c = true) : c.toNat < 0x80 := by
  simp only [isHexMark, Bool.or_eq_true, beq_iff_eq] at h
  rcases h with rfl | rfl <;> decide

theorem toNat_lt_of_isDigitOf {base : Nat} {c : Char} (h : isDigitOf base c = true) :
    c.toNat < 0x80 := by
  obtain ⟨h, _⟩ := Bool.and_eq_true_iff.mp h
  rcases Bool.or_eq_true_iff.mp h with h | h
  · exact toNat_lt_of_isDigit h
  · exact toNat_lt_of_isHexLetter h

theorem isDigitOf_ten {c : Char} (h : c.isDigit = true) : isDigitOf 10 c = true := by
  have hvalue : digitValue c < 10 := by
    have hle := (Char.isDigit_iff_toNat.mp h).2
    have hnine : '9'.toNat = 57 := rfl
    have hzero : '0'.toNat = 48 := rfl
    rw [digitValue, if_pos h]
    omega
  simp [isDigitOf, h, hvalue]

/-! ### Integers -/

section Integers

variable {base n : Nat} {ds t : List Char}

theorem le_foldl_digits (hbase : 1 ≤ base) (n : Nat) (ds : List Char) :
    n ≤ ds.foldl (fun n d => n * base + digitValue d) n := by
  induction ds generalizing n with
  | nil => exact Nat.le_refl n
  | cons d ds ih =>
      have hstep : n ≤ n * base + digitValue d :=
        Nat.le_add_right_of_le (Nat.le_mul_of_pos_right n hbase)
      exact Nat.le_trans hstep (ih _)

/-- Digits are read as the number they spell, if it fits into 64 bits. -/
theorem readDigits_eq (hbase : 1 ≤ base) (hds : ∀ c ∈ ds, isDigitOf base c = true)
    (hn : n < 1 <<< 64) :
    readDigits base n ds =
      let m := ds.foldl (fun n d => n * base + digitValue d) n
      if m < 1 <<< 64 then .value m else .outOfRange ((1 <<< 64) - 1) := by
  induction ds generalizing n with
  | nil => exact (if_pos hn).symm
  | cons c cs ih =>
      obtain ⟨hc, hcs⟩ := List.forall_mem_cons.mp hds
      simp only [readDigits, hc, Bool.not_true, Bool.false_eq_true, if_false, List.foldl_cons]
      split
      next hlt => exact ih hcs hlt
      next hge =>
        -- what does not fit now does not fit with more digits
        have hle := le_foldl_digits hbase (n * base + digitValue c) cs
        exact (if_neg fun hlt => hge (Nat.lt_of_le_of_lt hle hlt)).symm

theorem parseInt64_eq (hne : t ≠ []) (hsplit : splitBase t = (base, ds)) (hbase : 1 ≤ base)
    (hds : ∀ c ∈ ds, isDigitOf base c = true) :
    parseInt64 t = if ofDigits base ds < 1 <<< 63 then .value (ofDigits base ds)
      else .outOfRange ((1 <<< 63) - 1) := by
  have hread : readDigits base 0 ds = if ofDigits base ds < 1 <<< 64 then
      .value (ofDigits base ds) else .outOfRange ((1 <<< 64) - 1) :=
    readDigits_eq hbase hds (by decide)
  simp only [parseInt64, List.isEmpty_eq_false_iff.mpr hne, hsplit, hread]
  generalize ofDigits base ds = m
  by_cases hm : m < 1 <<< 64
  · simp only [Bool.false_eq_true, if_false, if_pos hm]
  · have hm' : ¬ m < 1 <<< 63 := fun h => hm (Nat.lt_trans h (by decide))
    simp only [Bool.false_eq_true, if_false, if_neg hm, if_neg hm']

theorem parseInteger?_eq (hne : t ≠ []) (hsplit : splitBase t = (base, ds))
    (hds : ∀ c ∈ ds, isDigitOf base c = true) : parseInteger? t = some (ofDigits base ds) := by
  simp [parseInteger?, hsplit, hne, List.all_eq_true.mpr hds]

/-- In front of the digits there are only marks of the base. -/
theorem splitBase_append (t : List Char) :
    ∃ front, t = front ++ (splitBase t).2 ∧ ∀ c ∈ front, c.toNat < 0x80 := by
  have hnil : ∀ c ∈ ([] : List Char), c.toNat < 0x80 := List.forall_mem_nil _
  have hzero : ∀ c ∈ ['0'], c.toNat < 0x80 := List.forall_mem_singleton.mpr (by decide)
  have hmark {m : Char} (hm : m.toNat < 0x80) : ∀ c ∈ ['0', m], c.toNat < 0x80 :=
    List.forall_mem_cons.mpr ⟨by decide, List.forall_mem_singleton.mpr hm⟩
  unfold splitBase
  split
  next => exact ⟨[], rfl, hnil⟩
  next z ds =>
    split
    next => exact ⟨[], rfl, hnil⟩
    next hz =>
      obtain rfl : z = '0' := Decidable.not_not.mp hz
      split
      next m d more =>
        split
        next hm => exact ⟨['0', m], rfl, hmark (by rcases hm with rfl | rfl <;> decide)⟩
        next =>
          split
          next hm => exact ⟨['0', m], rfl, hmark (by rcases hm with rfl | rfl <;> decide)⟩
          next =>
            split
            next hm => exact ⟨['0', m], rfl, hmark (toNat_lt_of_isHexMark hm)⟩
            next => exact ⟨['0'], rfl, hzero⟩
      next => exact ⟨['0'], rfl, hzero⟩

theorem isDigitOf_of_readDigits {m : Nat} (h : readDigits base n ds = .value m) :
    ∀ c ∈ ds, isDigitOf base c = true := by
  induction ds generalizing n with
  | nil => simp
  | cons c cs ih =>
      rw [readDigits] at h
      split at h
      · cases h
      · rename_i hc
        dsimp only at h
        split at h
        · exact List.forall_mem_cons.mpr ⟨by simpa using hc, ih h⟩
        · cases h

/-- An integer has only characters below `0x80`. -/
theorem toNat_lt_of_integerValue? [Conversions] {v : Binary64}
    (h : integerValue? t = some v) : ∀ c ∈ t, c.toNat < 0x80 := by
  have hdigits : ∀ c ∈ (splitBase t).2, isDigitOf (splitBase t).1 c = true := by
    unfold integerValue? at h
    split at h
    next n hparse =>
      unfold parseInt64 at hparse
      split at hparse
      · cases hparse
      · dsimp only at hparse
        split at hparse
        · cases hparse
        · cases hparse
        · rename_i hread
          exact isDigitOf_of_readDigits hread
    next =>
      obtain ⟨n, hparse, _⟩ := Option.map_eq_some_iff.mp h
      unfold parseInteger? at hparse
      dsimp only at hparse
      split at hparse
      · rename_i hall
        exact List.all_eq_true.mp (Bool.and_eq_true_iff.mp hall).2
      · cases hparse
    next => cases h
  obtain ⟨front, ht, hfront⟩ := splitBase_append t
  rw [ht]
  exact List.forall_mem_append.mpr
    ⟨hfront, fun c hc => toNat_lt_of_isDigitOf (hdigits c hc)⟩

/-- The conversion that an integer goes through. -/
def convert [Conversions] (n : Nat) : Binary64 :=
  if n < 1 <<< 63 then Conversions.ofInt64 n else Conversions.ofInteger n

/-- The value of an integer is converted from the number that its digits spell. -/
theorem integerValue?_eq [Conversions] (hne : t ≠ []) (hsplit : splitBase t = (base, ds))
    (hbase : 1 ≤ base) (hds : ∀ c ∈ ds, isDigitOf base c = true) :
    integerValue? t = some (convert (ofDigits base ds)) := by
  rw [integerValue?, parseInt64_eq hne hsplit hbase hds, parseInteger?_eq hne hsplit hds, convert]
  by_cases hn : ofDigits base ds < 1 <<< 63
  · rw [if_pos hn, if_pos hn]
  · rw [if_neg hn, if_neg hn]
    rfl

theorem ofDigits_dropWhile (ds : List Char) :
    ofDigits 10 (ds.dropWhile (· == '0')) = ofDigits 10 ds := by
  induction ds with
  | nil => rfl
  | cons d ds ih =>
      rw [List.dropWhile_cons]
      split
      next hd =>
        obtain rfl : d = '0' := beq_iff_eq.mp hd
        exact ih
      next => rfl

/-- Digits are read in base ten, however many zeros stand in front. -/
theorem wholeValue?_cases [Conversions] (hds : ∀ c ∈ ds, c.isDigit = true) :
    (ofDigits 10 ds = 0 ∧ wholeValue? ds = some .zero) ∨
      wholeValue? ds = some (convert (ofDigits 10 ds)) := by
  have hvalue := ofDigits_dropWhile ds
  have hdigits : ∀ c ∈ ds.dropWhile (· == '0'), c.isDigit = true :=
    fun c hc => hds c (List.dropWhile_subset _ hc)
  have hhead : ∀ c ∈ (ds.dropWhile (· == '0')).head?, c ≠ '0' := by
    intro c hc
    have hnot := List.head?_dropWhile_not (· == '0') ds
    rw [hc] at hnot
    simpa using hnot
  rw [wholeValue?, ← hvalue]
  generalize ds.dropWhile (· == '0') = trimmed at *
  cases trimmed with
  | nil => exact .inl ⟨rfl, rfl⟩
  | cons c cs =>
      have hsplit : splitBase (c :: cs) = (10, c :: cs) := if_pos (hhead c rfl)
      exact .inr (integerValue?_eq (List.cons_ne_nil c cs) hsplit (by decide)
        fun d hd => isDigitOf_ten (hdigits d hd))

theorem toNat_lt_of_wholeValue? [Conversions] {v : Binary64} (h : wholeValue? ds = some v) :
    ∀ c ∈ ds, c.toNat < 0x80 := by
  have hzeros : ∀ c ∈ ds.takeWhile (· == '0'), c.toNat < 0x80 := by
    intro c hc
    have hzero := List.all_eq_true.mp List.all_takeWhile c hc
    rw [beq_iff_eq.mp hzero]
    decide
  have hrest : ∀ c ∈ ds.dropWhile (· == '0'), c.toNat < 0x80 := by
    rw [wholeValue?] at h
    split at h
    · rename_i hempty
      rw [List.isEmpty_iff.mp hempty]
      simp
    · exact toNat_lt_of_integerValue? h
  rw [← List.takeWhile_append_dropWhile (p := (· == '0')) (l := ds)]
  exact List.forall_mem_append.mpr ⟨hzeros, hrest⟩

end Integers

/-! ### Decimals -/

/-- The parts of a power of ten, or none. -/
inductive Power : (mark sign exponent : List Char) → Prop
  | missing : Power [] [] []
  | there {m : Char} {sign exponent : List Char} (hm : isExponentMark m = true)
      (hsign : sign = [] ∨ ∃ s, isSign s = true ∧ sign = [s]) (hne : exponent ≠ [])
      (hdigits : ∀ c ∈ exponent, c.isDigit = true) : Power [m] sign exponent

theorem isDigit_eq_false_of_isExponentMark {c : Char} (h : isExponentMark c = true) :
    c.isDigit = false := by
  rcases Bool.or_eq_true_iff.mp h with h | h <;> rw [beq_iff_eq.mp h] <;> rfl

theorem isDigit_eq_false_of_isSign {c : Char} (h : isSign c = true) : c.isDigit = false := by
  rcases Bool.or_eq_true_iff.mp h with h | h <;> rw [beq_iff_eq.mp h] <;> rfl

end Numeral

namespace Decimal

open Numeral

theorem power?_eq {mark sign exponent : List Char} (h : Power mark sign exponent) :
    power? (mark ++ sign ++ exponent) = some (sign, exponent) := by
  cases h with
  | missing => rfl
  | @there m sign exponent hm hsign hne hdigits =>
      have hall := List.all_eq_true.mpr hdigits
      obtain rfl | ⟨s, hs, rfl⟩ := hsign
      · obtain ⟨d, ds, rfl⟩ := List.exists_cons_of_ne_nil hne
        have hd : isSign d = false := by
          cases hsign : isSign d with
          | false => rfl
          | true =>
              have hdigit := hdigits d List.mem_cons_self
              rw [isDigit_eq_false_of_isSign hsign] at hdigit
              cases hdigit
        simp_all [power?]
      · simp_all [power?]

/-- Digits end where a point or a power of ten begins. -/
theorem takeWhile_digits {ds rest : List Char} (hds : ∀ c ∈ ds, c.isDigit = true)
    (hrest : ∀ c ∈ rest.head?, c.isDigit = false) :
    (ds ++ rest).takeWhile Char.isDigit = ds ∧ (ds ++ rest).dropWhile Char.isDigit = rest := by
  rw [List.takeWhile_append_of_pos hds, List.dropWhile_append_of_pos hds]
  cases rest with
  | nil => simp
  | cons c rest => simp [hrest c rfl]

theorem head_power {mark sign exponent : List Char} (h : Power mark sign exponent) :
    ∀ c ∈ (mark ++ sign ++ exponent).head?, isExponentMark c = true := by
  cases h with
  | missing => simp
  | there hm => simpa using hm

/-- Digits around a point. -/
def around (whole : List Char) (places : Option (List Char)) : List Char :=
  whole ++ places.elim [] ('.' :: ·)

/-- The text consists of digits around a point and of a power of ten. -/
structure HasParts (t whole : List Char) (places : Option (List Char))
    (sign exponent : List Char) : Prop where
  whole_digits : ∀ c ∈ whole, c.isDigit = true
  places_digits : ∀ c ∈ places.getD [], c.isDigit = true
  text : ∃ mark, Power mark sign exponent ∧ t = around whole places ++ (mark ++ sign ++ exponent)

section Parts

variable {t whole sign exponent : List Char} {places : Option (List Char)}

/-- A decimal is read as its parts say. -/
theorem ofText?_eq (hne : whole ≠ []) (h : HasParts t whole places sign exponent) :
    ofText? t = some (toDecimal whole places sign exponent) := by
  obtain ⟨mark, hpower, rfl⟩ := h.text
  have hhead := head_power hpower
  have hpower := power?_eq hpower
  rw [around, List.append_assoc]
  generalize mark ++ sign ++ exponent = power at *
  have hdigit : ∀ c ∈ power.head?, c.isDigit = false :=
    fun c hc => isDigit_eq_false_of_isExponentMark (hhead c hc)
  cases places with
  | none =>
      obtain ⟨htake, hdrop⟩ := takeWhile_digits h.whole_digits hdigit
      have hfraction : fraction power = ([], power) := by
        cases power with
        | nil => rfl
        | cons c power =>
            refine if_neg ?_
            rintro rfl
            cases hhead '.' rfl
      simp only [ofText?, Option.elim_none, List.nil_append, htake, hdrop, hfraction, hpower,
        Option.map_some]
      simp [hne, toDecimal]
  | some ps =>
      rw [Option.elim_some, List.cons_append]
      obtain ⟨htake, hdrop⟩ := @takeWhile_digits whole ('.' :: (ps ++ power)) h.whole_digits
        (by simp)
      obtain ⟨htake', hdrop'⟩ := takeWhile_digits h.places_digits hdigit
      rw [Option.getD_some] at htake' hdrop'
      simp only [ofText?, htake, hdrop, fraction, if_true, htake', hdrop', hpower,
        Option.map_some]
      simp [hne]

theorem power_of_power? (h : power? t = some (sign, exponent)) :
    ∃ mark, Power mark sign exponent ∧ t = mark ++ sign ++ exponent := by
  cases t with
  | nil =>
      cases h
      exact ⟨[], .missing, rfl⟩
  | cons m t =>
      rw [power?] at h
      split at h
      next hpower =>
        simp only [Bool.and_eq_true, Bool.not_eq_true', List.isEmpty_eq_false_iff,
          List.all_eq_true] at hpower
        obtain ⟨⟨hm, hne⟩, hdigits⟩ := hpower
        cases h
        refine ⟨[m], .there hm ?_ hne hdigits, ?_⟩
        · cases t with
          | nil => exact .inl rfl
          | cons s t => cases hs : isSign s <;> simp [hs]
        · cases t with
          | nil => rfl
          | cons s t => cases hs : isSign s <;> simp [hs]
      next => cases h

theorem isDigit_of_mem_takeWhile : ∀ c ∈ t.takeWhile Char.isDigit, c.isDigit = true :=
  fun c hc => List.all_eq_true.mp List.all_takeWhile c hc

/-- Whatever is read as a decimal has the parts of one. -/
theorem hasParts_of_ofText? {d : Decimal} (h : ofText? t = some d) :
    ∃ whole places sign exponent, HasParts t whole places sign exponent ∧
      d = toDecimal whole places sign exponent := by
  have hsplit := List.takeWhile_append_dropWhile (p := Char.isDigit) (l := t)
  have hwhole := @isDigit_of_mem_takeWhile t
  unfold ofText? at h
  generalize t.takeWhile Char.isDigit = whole at *
  generalize t.dropWhile Char.isDigit = rest at *
  dsimp only at h
  split at h
  · cases h
  · obtain ⟨⟨sign, exponent⟩, hread, rfl⟩ := Option.map_eq_some_iff.mp h
    obtain ⟨mark, hpower, hrest⟩ := power_of_power? hread
    by_cases hpoint : ∃ ps, rest = '.' :: ps
    · obtain ⟨ps, rfl⟩ := hpoint
      refine ⟨whole, some (ps.takeWhile Char.isDigit), sign, exponent,
        ⟨hwhole, isDigit_of_mem_takeWhile, mark, hpower, ?_⟩, rfl⟩
      rw [← hrest, ← hsplit, around, List.append_assoc]
      simp [fraction]
    · have hfraction : fraction rest = ([], rest) := by
        cases rest with
        | nil => rfl
        | cons c rest => exact if_neg fun hc => hpoint ⟨rest, by rw [hc]⟩
      rw [hfraction] at hrest ⊢
      refine ⟨whole, none, sign, exponent, ⟨hwhole, by simp, mark, hpower, ?_⟩, rfl⟩
      rw [← hrest, ← hsplit, around]
      simp

theorem HasParts.toNat_lt (h : HasParts t whole places sign exponent) :
    ∀ c ∈ t, c.toNat < 0x80 := by
  have hdigits {ds : List Char} (hds : ∀ c ∈ ds, c.isDigit = true) : ∀ c ∈ ds, c.toNat < 0x80 :=
    fun c hc => toNat_lt_of_isDigit (hds c hc)
  obtain ⟨mark, hpower, rfl⟩ := h.text
  refine List.forall_mem_append.mpr ⟨List.forall_mem_append.mpr ⟨hdigits h.whole_digits, ?_⟩, ?_⟩
  · cases places with
    | none => exact List.forall_mem_nil _
    | some ps => exact List.forall_mem_cons.mpr ⟨by decide, hdigits h.places_digits⟩
  · cases hpower with
    | missing => exact List.forall_mem_nil _
    | there hm hsign _ hexponent =>
        refine List.forall_mem_append.mpr ⟨List.forall_mem_cons.mpr
          ⟨toNat_lt_of_isExponentMark hm, ?_⟩, hdigits hexponent⟩
        obtain rfl | ⟨s, hs, rfl⟩ := hsign
        · exact List.forall_mem_nil _
        · exact List.forall_mem_singleton.mpr (toNat_lt_of_isSign hs)

end Parts

end Decimal

/-- A text with a point or a power of ten has a value exactly if it is a decimal. -/
theorem Numeral.floatValue?_eq [Conversions] (t : List Char) :
    floatValue? t = (Decimal.ofText? t).map fun _ => Conversions.ofText t := by
  unfold floatValue? parseFloat
  cases Decimal.ofText? t with
  | none => rfl
  | some d =>
      dsimp only
      split <;> rename_i h <;> split at h <;> cases h <;> rfl

end TwoSorted
