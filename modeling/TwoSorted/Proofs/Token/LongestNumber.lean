import TwoSorted.Proofs.Token.Bytewise

/-!
# The longest number

Where a number begins, the lexer reads the longest one that is there. `Numeral.Spells`
says how the bytes of a number are taken apart, and `Numeral.scan_pieces` that these
parts are what is read. If the number breaks off, behind the mark of a power of ten or
behind that of a hexadecimal number, there is a shorter number in front of the mark.
Since the mark is a letter, the number is followed by a letter, and no number may be.
-/

namespace TwoSorted

open Computability

namespace Numeral

open Lookahead Cursor

/-- How a power of ten, which may be missing, is taken apart. -/
inductive SpellsPower : List UInt8 → (mark sign exponent : List Char) → Prop
  | missing : SpellsPower [] [] [] []
  | there {m sign ds} (hm : isExponentMark (latin1 m) = true)
      (hsign : sign = [] ∨ ∃ s, isSign (latin1 s) = true ∧ sign = [s])
      (hne : ds ≠ []) (hds : AllDigits ds) :
      SpellsPower (m :: (sign ++ ds)) [latin1 m] (sign.map latin1) (ds.map latin1)

/-- How a number is taken apart. -/
inductive Spells : List UInt8 → Numeral → Prop
  | integer {whole power mark sign exponent} (hne : whole ≠ []) (hwhole : AllDigits whole)
      (hpower : SpellsPower power mark sign exponent) :
      Spells (whole ++ power) (.decimal (whole.map latin1) none mark sign exponent)
  | fraction {whole p places power mark sign exponent} (hne : whole ≠ [])
      (hwhole : AllDigits whole) (hp : latin1 p = '.') (hplaces : AllDigits places)
      (hpower : SpellsPower power mark sign exponent) :
      Spells (whole ++ p :: (places ++ power))
        (.decimal (whole.map latin1) (some (places.map latin1)) mark sign exponent)
  | point {p places power mark sign exponent} (hp : latin1 p = '.') (hne : places ≠ [])
      (hplaces : AllDigits places) (hpower : SpellsPower power mark sign exponent) :
      Spells (p :: (places ++ power)) (.decimal ['0'] (some (places.map latin1)) mark sign exponent)
  | hexadecimal {z m ds} (hz : latin1 z = '0') (hm : isHexMark (latin1 m) = true)
      (hne : ds ≠ []) (hds : ∀ b ∈ ds, isHex (latin1 b) = true) :
      Spells (z :: m :: ds) (.hexadecimal [latin1 m] (ds.map latin1))

theorem narrow_isDigit : Narrow Char.isDigit :=
  fun _ => toNat_lt_of_isDigit

theorem not_past_spoilsNumber {b : UInt8} {t : List UInt8} (h : isLetter (latin1 b) = true) :
    ¬ Past spoilsNumber (b :: t) := by
  intro hpast
  have hb := hpast b t rfl
  rw [spoilsNumber, ← isLetter_latin1, h] at hb
  cases hb

theorem isLetter_of_isExponentMark {c : Char} (h : isExponentMark c = true) :
    isLetter c = true := by
  rcases Bool.or_eq_true_iff.mp h with h | h <;> rw [beq_iff_eq.mp h] <;> rfl

theorem isLetter_of_isHexMark {c : Char} (h : isHexMark c = true) : isLetter c = true := by
  rcases Bool.or_eq_true_iff.mp h with h | h <;> rw [beq_iff_eq.mp h] <;> rfl

/-- A power of ten is read if it has digits. Else the number breaks off in front of the
mark, which is a letter. -/
theorem scanExponent_pieces (whole : List Char) (fraction : Option (List Char))
    (t : List UInt8) (q : Position) :
    ∃ w rest, t = w ++ rest ∧ IsLongest (1 + power) w t ∧
      ((∃ mark sign exponent q', SpellsPower w mark sign exponent ∧
        scanExponent byte whole fraction ⟨pieces t, q⟩ =
          (true, .decimal whole fraction mark sign exponent, ⟨pieces rest, q'⟩)) ∨
      (¬ Past spoilsNumber rest ∧
        (scanExponent byte whole fraction ⟨pieces t, q⟩).1 = false)) := by
  obtain ⟨hpast, htake⟩ | ⟨m, t₁, q₁, rfl, hm, htake⟩ :=
    takeIf_pieces narrow_isExponentMark rfl t q
  · refine ⟨[], t, rfl, (noPrefix_power_of_past hpast).isLongest_one_add,
      .inl ⟨[], [], [], q, .missing, ?_⟩⟩
    simp [scanExponent, htake]
  · obtain ⟨sign, t₂, q₂, ht₁, hsign, hnext, htake'⟩ : ∃ sign t₂ q₂, t₁ = sign ++ t₂ ∧
        (sign = [] ∨ ∃ s, isSign (latin1 s) = true ∧ sign = [s]) ∧
        (sign = [] → PastByte isSign t₂) ∧
        takeIf byte isSign ⟨pieces t₁, q₁⟩ = (sign.map latin1, ⟨pieces t₂, q₂⟩) := by
      obtain ⟨hpast, htake'⟩ | ⟨s, t₂, q₂, rfl, hs, htake'⟩ :=
        takeIf_pieces narrow_isSign rfl t₁ q₁
      · exact ⟨[], t₁, q₁, rfl, .inl rfl, fun _ => hpast, htake'⟩
      · exact ⟨[s], t₂, q₂, rfl, .inr ⟨s, hs, rfl⟩, by simp, htake'⟩
    obtain ⟨ds, rest, q₃, ht₂, hds, hrest, hspan⟩ :=
      span_pieces narrow_isDigit isDecimalDigit_latin1 t₂ q₂
    have hscan : scanExponent byte whole fraction ⟨pieces (m :: t₁), q⟩ =
        (!(ds.map latin1).isEmpty,
          .decimal whole fraction [latin1 m] (sign.map latin1) (ds.map latin1),
          ⟨pieces rest, q₃⟩) := by
      simp only [scanExponent, htake, htake', hspan]
      rfl
    subst ht₁ ht₂
    cases ds with
    | nil =>
        exact ⟨[], _, rfl, (noPrefix_power hsign hnext hrest).isLongest_one_add,
          .inr ⟨not_past_spoilsNumber (isLetter_of_isExponentMark hm), by rw [hscan]; rfl⟩⟩
    | cons d ds =>
        have hne : d :: ds ≠ [] := List.cons_ne_nil d ds
        exact ⟨m :: (sign ++ d :: ds), rest, by simp,
          (isLongest_power hsign hm hne hds hrest).one_add,
          .inl ⟨_, _, _, q₃, .there hm hsign hne hds, hscan⟩⟩

/-- What comes of reading a number: the bytes `w` of it and nothing of `rest`, or it
breaks off or lacks a value, and then it is followed by a letter. -/
def Reads [Conversions] (scanned : Bool × Numeral × Cursor) (w rest : List UInt8) : Prop :=
  (∃ n q', scanned = (true, n, ⟨pieces rest, q'⟩) ∧ Spells w n) ∨
  (¬ Past spoilsNumber rest ∧ (scanned.1 = false ∨ scanned.2.1.value? = none))

theorem scanExponent_reads [Conversions] {u : List UInt8} {whole : List Char}
    {fraction : Option (List Char)}
    (hu : ∀ {w mark sign exponent}, SpellsPower w mark sign exponent →
      Spells (u ++ w) (.decimal whole fraction mark sign exponent))
    (t : List UInt8) (q : Position) :
    ∃ w rest, t = w ++ rest ∧ IsLongest (1 + power) w t ∧
      Reads (scanExponent byte whole fraction ⟨pieces t, q⟩) (u ++ w) rest := by
  obtain ⟨w, rest, ht, hw, ⟨mark, sign, exponent, q', hpower, hscan⟩ | ⟨hspoils, hscan⟩⟩ :=
    scanExponent_pieces whole fraction t q
  · exact ⟨w, rest, ht, hw, .inl ⟨_, q', hscan, hu hpower⟩⟩
  · exact ⟨w, rest, ht, hw, .inr ⟨hspoils, .inl hscan⟩⟩

/-- A number that begins with a point. -/
theorem scanParts_point [Conversions] {b : UInt8} {t : List UInt8} (hb : latin1 b = '.')
    (ht : ¬ PastByte Char.isDigit t) (q : Position) :
    ∃ w rest, b :: t = w ++ rest ∧ IsLongest numerals w (b :: t) ∧
      Reads (scanParts byte (latin1 b) ⟨pieces t, q⟩) w rest := by
  obtain ⟨places, t₁, q₁, rfl, hplaces, ht₁, hspan⟩ :=
    span_pieces narrow_isDigit isDecimalDigit_latin1 t q
  have hne : places ≠ [] := by
    rintro rfl
    exact ht ht₁
  have hparts : scanParts byte (latin1 b) ⟨pieces (places ++ t₁), q⟩ =
      scanExponent byte ['0'] (some (places.map latin1)) ⟨pieces t₁, q₁⟩ := by
    simp only [scanParts, hb, if_true, hspan]
  obtain ⟨w, rest, hw, hlongest, hreads⟩ :=
    scanExponent_reads (u := b :: places) (fun h => .point hb hne hplaces h) t₁ q₁
  refine ⟨b :: (places ++ w), rest, by simp [hw], isLongest_point hb hne hplaces ht₁ hlongest, ?_⟩
  rw [hparts]
  exact hreads

theorem isHexDigit_latin1 (b : UInt8) : isHexDigit (latin1 b) = isHex (latin1 b) := by
  rw [isHexDigit, isHex, isDecimalDigit_latin1]

theorem narrow_isHex : Narrow isHex :=
  narrow_isDigit.or fun _ => toNat_lt_of_isHexLetter

/-- A hexadecimal number without digits has no value. -/
theorem value?_hexadecimal_nil [Conversions] {m : Char} (hm : isHexMark m = true) :
    (hexadecimal [m] []).value? = none := by
  rcases Bool.or_eq_true_iff.mp hm with h | h <;> rw [beq_iff_eq.mp h] <;> rfl

/-- A zero and the mark of a hexadecimal number. -/
theorem scanParts_hexadecimal [Conversions] {z m : UInt8} {t : List UInt8} (hz : latin1 z = '0')
    (hm : isHexMark (latin1 m) = true) (q : Position) :
    ∃ w rest, z :: m :: t = w ++ rest ∧ IsLongest numerals w (z :: m :: t) ∧
      Reads (scanParts byte (latin1 z) ⟨pieces (m :: t), q⟩) w rest := by
  have hdigit : isDecimalDigit (byte.ahead (pieces (m :: t))) = false := by
    have hapart : Apart isHexMark Char.isDigit := apart_pair rfl rfl
    rw [ahead_pieces_cons, isDecimalDigit_latin1, hapart _ hm]
  have hnone : ∀ c ∈ ([] : List Char), c.toNat < 0x80 ∧ isDecimalDigit c = true := by simp
  obtain ⟨q₀, hspan⟩ := span_chars hnone hdigit q
  rw [List.map_nil, List.nil_append] at hspan
  obtain ⟨hpast, _⟩ | ⟨_, _, q₁, heq, _, htake⟩ :=
    takeIf_pieces narrow_isHexMark rfl (m :: t) q₀
  · exact absurd (hpast m t rfl) (by simp [hm])
  · cases heq
    obtain ⟨ds, rest, q₂, rfl, hds, hrest, hspan'⟩ :=
      span_pieces narrow_isHex isHexDigit_latin1 t q₁
    have hparts : scanParts byte (latin1 z) ⟨pieces (m :: (ds ++ rest)), q⟩ =
        (true, .hexadecimal [latin1 m] (ds.map latin1), ⟨pieces rest, q₂⟩) := by
      simp [scanParts, hz, hspan, htake, hspan']
    rw [hparts]
    cases ds with
    | nil =>
        refine ⟨[z], m :: rest, rfl, isLongest_zero_of_past hz hm hrest,
          .inr ⟨?_, .inr (value?_hexadecimal_nil hm)⟩⟩
        exact not_past_spoilsNumber (isLetter_of_isHexMark hm)
    | cons d ds =>
        have hne : d :: ds ≠ [] := List.cons_ne_nil d ds
        exact ⟨z :: m :: d :: ds, rest, rfl, isLongest_hexadecimal hz hm hne hds hrest,
          .inl ⟨_, q₂, rfl, .hexadecimal hz hm hne hds⟩⟩

/-- Digits that are no zero in front of the mark of a hexadecimal number. -/
theorem scanParts_of_digits {b : UInt8} {more t : List UInt8} {q q₁ : Position}
    (hpoint : latin1 b ≠ '.')
    (hspan : span byte isDecimalDigit ⟨pieces (more ++ t), q⟩ = (more.map latin1, ⟨pieces t, q₁⟩))
    (hpast : ∀ z, b :: more = [z] → latin1 z = '0' → PastByte isHexMark t) :
    scanParts byte (latin1 b) ⟨pieces (more ++ t), q⟩ =
      (let (dot, c) := takeIf byte (· == '.') ⟨pieces t, q₁⟩
      if dot.isEmpty then scanExponent byte ((b :: more).map latin1) none c
      else
        let (places, c) := c.span byte isDecimalDigit
        scanExponent byte ((b :: more).map latin1) (some places) c) := by
  rcases hmark : takeIf byte isHexMark ⟨pieces t, q₁⟩ with ⟨mark, c⟩
  have hdecimal : ¬ (latin1 b :: more.map latin1 = ['0'] ∧ mark ≠ []) := by
    rintro ⟨hzero, hthere⟩
    rw [List.cons_eq_cons, List.map_eq_nil_iff] at hzero
    have hend := hpast b (by rw [hzero.2]) hzero.1
    rw [takeIf_none isHexMark (hend.ahead rfl)] at hmark
    cases hmark
    exact hthere rfl
  simp only [scanParts, hpoint, if_false, hspan, hmark, if_neg hdecimal]
  rfl

/-- A number that begins with a digit. -/
theorem scanParts_digit [Conversions] {b : UInt8} {t : List UInt8} (hb : (latin1 b).isDigit = true)
    (q : Position) :
    ∃ w rest, b :: t = w ++ rest ∧ IsLongest numerals w (b :: t) ∧
      Reads (scanParts byte (latin1 b) ⟨pieces t, q⟩) w rest := by
  have hpoint : latin1 b ≠ '.' := by
    intro h
    rw [h] at hb
    cases hb
  by_cases hhex : latin1 b = '0' ∧ ¬ PastByte isHexMark t
  · obtain ⟨m, t, rfl, hm⟩ : ∃ m t', t = m :: t' ∧ isHexMark (latin1 m) = true := by
      simpa [PastByte, Past] using hhex.2
    exact scanParts_hexadecimal hhex.1 hm q
  obtain ⟨more, t₁, q₁, rfl, hmore, ht₁, hspan⟩ :=
    span_pieces narrow_isDigit isDecimalDigit_latin1 t q
  have hwhole : AllDigits (b :: more) := List.forall_mem_cons.mpr ⟨hb, hmore⟩
  have hne : b :: more ≠ [] := List.cons_ne_nil b more
  have hpast : ∀ z, b :: more = [z] → latin1 z = '0' → PastByte isHexMark t₁ := by
    rintro z heq hz
    cases heq
    exact not_not.mp fun h => hhex ⟨hz, h⟩
  have hnumeral {w : List UInt8} (hafter : IsLongest afterWhole w t₁) :
      IsLongest numerals (b :: more ++ w) (b :: more ++ t₁) := by
    rw [numerals_eq]
    exact (isLongest_decimal hne hwhole ht₁ hafter).add (noPrefix_hexadecimals hwhole hne hpast)
  rw [scanParts_of_digits hpoint hspan hpast]
  obtain ⟨hdot, htake⟩ | ⟨p, t₂, q₂, rfl, hp, htake⟩ :=
    takeIf_pieces (narrow_eq (c := '.') (by decide)) rfl t₁ q₁
  · obtain ⟨w, rest, hw, hlongest, hreads⟩ :=
      scanExponent_reads (fun h => .integer hne hwhole h) t₁ q₁
    rw [htake]
    exact ⟨b :: more ++ w, rest, by simp [hw],
      hnumeral (isLongest_afterWhole_of_past hdot hlongest), hreads⟩
  · obtain ⟨places, t₃, q₃, ht₂, hplaces, ht₃, hspan'⟩ :=
      span_pieces narrow_isDigit isDecimalDigit_latin1 t₂ q₂
    have hp := beq_iff_eq.mp hp
    obtain ⟨w, rest, hw, hlongest, hreads⟩ := scanExponent_reads (u := b :: more ++ p :: places)
      (fun h => by simpa using .fraction hne hwhole hp hplaces h) t₃ q₃
    have hafter := isLongest_afterWhole_of_point hp (isLongest_fraction hplaces ht₃ hlongest)
    rw [← ht₂] at hafter
    simp only [htake, hspan']
    exact ⟨b :: more ++ p :: (places ++ w), rest, by simp [ht₂, hw], hnumeral hafter,
      by simpa using hreads⟩

theorem SpellsPower.power {w : List UInt8} {mark sign exponent : List Char}
    (h : SpellsPower w mark sign exponent) :
    Power mark sign exponent ∧ w.map latin1 = mark ++ sign ++ exponent := by
  cases h with
  | missing => exact ⟨.missing, rfl⟩
  | there hm hsign hne hds =>
      refine ⟨.there hm ?_ (by simpa using hne) (by simpa using hds), by simp⟩
      obtain rfl | ⟨s, hs, rfl⟩ := hsign
      · exact .inl rfl
      · exact .inr ⟨_, hs, rfl⟩

/-- Digits around a point are the parts of a decimal numeral, with a zero if none stand
before it. -/
theorem Spells.decimal_parts {w : List UInt8} {whole mark sign exponent : List Char}
    {fraction : Option (List Char)} (h : Spells w (.decimal whole fraction mark sign exponent)) :
    whole ≠ [] ∧ (∀ c ∈ whole, c.isDigit = true) ∧
      (∀ c ∈ fraction.getD [], c.isDigit = true) ∧ Power mark sign exponent := by
  cases h with
  | integer hne hwhole hpower =>
      exact ⟨by simpa using hne, by simpa using hwhole, by simp, hpower.power.1⟩
  | fraction hne hwhole _ hplaces hpower =>
      exact ⟨by simpa using hne, by simpa using hwhole, by simpa using hplaces, hpower.power.1⟩
  | point _ _ hplaces hpower =>
      exact ⟨by simp, by simp, by simpa using hplaces, hpower.power.1⟩

/-- What holds of the hexadecimal digits below `0x80` holds of all of them. -/
theorem forall_isHex {P : Char → Prop}
    (h : ∀ n < 0x80, isHex (Char.ofNat n) = true → P (Char.ofNat n)) {c : Char}
    (hc : isHex c = true) : P c := by
  have hnarrow := h c.toNat (narrow_isHex c hc)
  rw [Char.ofNat_toNat] at hnarrow
  exact hnarrow hc

theorem isDigitOf_sixteen {c : Char} (h : isHex c = true) : isDigitOf 16 c = true :=
  forall_isHex (P := fun c => isDigitOf 16 c = true) (by decide +kernel) h

theorem splitBase_hexadecimal {m d : Char} (hm : isHexMark m = true) (ds : List Char) :
    splitBase ('0' :: m :: d :: ds) = (16, d :: ds) := by
  rcases Bool.or_eq_true_iff.mp hm with h | h <;> rw [beq_iff_eq.mp h] <;> rfl

/-- The value of a hexadecimal number comes from the number that its digits spell. -/
theorem value?_hexadecimal [Conversions] {m : Char} {digits : List Char} (hm : isHexMark m = true)
    (hne : digits ≠ []) (hdigits : ∀ c ∈ digits, isHex c = true) :
    (hexadecimal [m] digits).value? = some (convert (ofDigits 16 digits)) := by
  obtain ⟨d, ds, rfl⟩ := List.exists_cons_of_ne_nil hne
  exact integerValue?_eq (List.cons_ne_nil _ _) (splitBase_hexadecimal hm ds) (by decide)
    fun c hc => isDigitOf_sixteen (hdigits c hc)

/-- Whatever spells a number has a value. -/
theorem Spells.exists_value [Conversions] {w : List UInt8} {n : Numeral} (h : Spells w n) :
    ∃ v, n.value? = some v := by
  cases n with
  | hexadecimal mark digits =>
      cases h with
      | hexadecimal _ hm hne hds =>
          exact ⟨_, value?_hexadecimal hm (by simpa using hne) (by simpa using hds)⟩
  | decimal whole fraction mark sign exponent =>
      obtain ⟨hne, hwhole, hplaces, hpower⟩ := h.decimal_parts
      obtain ⟨_, hvalue⟩ | ⟨_, _, _, _, ⟨_, hvalue⟩ | hvalue⟩ :=
        value?_decimal hne hwhole hplaces hpower
      · exact ⟨_, hvalue⟩
      · exact ⟨_, hvalue⟩
      · exact ⟨_, hvalue⟩

theorem SpellsPower.lt {w : List UInt8} {mark sign exponent : List Char}
    (h : SpellsPower w mark sign exponent) : ∀ b ∈ w, b < 0x80 := by
  have hlt {s : List UInt8} (hs : s = [] ∨ ∃ b, isSign (latin1 b) = true ∧ s = [b]) :
      ∀ b ∈ s, b < 0x80 := by
    obtain rfl | ⟨b, hb, rfl⟩ := hs
    · simp
    · simpa using narrow_isSign.lt hb
  cases h with
  | missing => simp
  | there hm hsign _ hds =>
      exact List.forall_mem_cons.mpr ⟨narrow_isExponentMark.lt hm,
        List.forall_mem_append.mpr ⟨hlt hsign, fun b hb => narrow_isDigit.lt (hds b hb)⟩⟩

/-- The bytes of a number are below `0x80`. -/
theorem Spells.lt {w : List UInt8} {n : Numeral} (h : Spells w n) : ∀ b ∈ w, b < 0x80 := by
  have hdigits {ds : List UInt8} (hds : AllDigits ds) : ∀ b ∈ ds, b < 0x80 :=
    fun b hb => narrow_isDigit.lt (hds b hb)
  have hpoint {p : UInt8} (hp : latin1 p = '.') : p < 0x80 :=
    (narrow_eq (c := '.') (by decide)).lt (beq_iff_eq.mpr hp)
  cases h with
  | integer _ hwhole hpower =>
      exact List.forall_mem_append.mpr ⟨hdigits hwhole, hpower.lt⟩
  | fraction _ hwhole hp hplaces hpower =>
      exact List.forall_mem_append.mpr ⟨hdigits hwhole, List.forall_mem_cons.mpr ⟨hpoint hp,
        List.forall_mem_append.mpr ⟨hdigits hplaces, hpower.lt⟩⟩⟩
  | point hp _ hplaces hpower =>
      exact List.forall_mem_cons.mpr ⟨hpoint hp,
        List.forall_mem_append.mpr ⟨hdigits hplaces, hpower.lt⟩⟩
  | hexadecimal hz hm _ hds =>
      exact List.forall_mem_cons.mpr ⟨(narrow_eq (c := '0') (by decide)).lt (beq_iff_eq.mpr hz),
        List.forall_mem_cons.mpr ⟨narrow_isHexMark.lt hm, fun b hb => narrow_isHex.lt (hds b hb)⟩⟩

/-- The byte and what follows it begin a number. -/
def Starts (b : UInt8) (t : List UInt8) : Prop :=
  (latin1 b).isDigit = true ∨ latin1 b = '.' ∧ ¬ PastByte Char.isDigit t

theorem ahead_spoils (t : List UInt8) :
    (isLetter (byte.ahead (pieces t)) || byte.ahead (pieces t) == '_') = false ↔
      Past spoilsNumber t := by
  cases t with
  | nil => exact ⟨fun _ => past_nil, fun _ => rfl⟩
  | cons b t =>
      rw [ahead_pieces_cons, isLetter_latin1]
      refine ⟨fun h => past_cons h, fun h => h b t rfl⟩

/-- A number is read if it is not followed by a letter, and then as the longest one that
is there. -/
theorem scan_pieces [Conversions] {b : UInt8} {t : List UInt8} (h : Starts b t) (q : Position) :
    ∃ w rest, b :: t = w ++ rest ∧ IsLongest numerals w (b :: t) ∧
      (Past spoilsNumber rest → ∃ n v q', Spells w n ∧ n.value? = some v ∧
        scan byte (latin1 b) ⟨pieces t, q⟩ = (.ok v, ⟨pieces rest, q'⟩)) ∧
      (¬ Past spoilsNumber rest → ∀ v c, scan byte (latin1 b) ⟨pieces t, q⟩ ≠ (.ok v, c)) := by
  obtain ⟨w, rest, ht, hw, hreads⟩ : ∃ w rest, b :: t = w ++ rest ∧
      IsLongest numerals w (b :: t) ∧
      Reads (scanParts byte (latin1 b) ⟨pieces t, q⟩) w rest := by
    obtain hb | ⟨hb, ht⟩ := h
    · exact scanParts_digit hb q
    · exact scanParts_point hb ht q
  refine ⟨w, rest, ht, hw, fun hpast => ?_, fun hpast v c hscan => ?_⟩
  · obtain ⟨n, q', hparts, hn⟩ | ⟨hspoils, _⟩ := hreads
    · obtain ⟨v, hv⟩ := hn.exists_value
      exact ⟨n, v, q', hn, hv, scan_eq_ok_iff.mpr ⟨n, hparts, (ahead_spoils rest).mpr hpast, hv⟩⟩
    · exact absurd hpast hspoils
  · obtain ⟨n, hparts, hnext, hv⟩ := scan_eq_ok_iff.mp hscan
    rw [hparts] at hreads
    obtain ⟨_, q', heq, _⟩ | ⟨_, hfalse | hnone⟩ := hreads
    · cases heq
      exact hpast ((ahead_spoils rest).mp hnext)
    · cases hfalse
    · rw [hv] at hnone
      cases hnone

end Numeral

end TwoSorted
