import TwoSorted.Proofs.Number.Reading
import TwoSorted.Proofs.Text.Pieces
import TwoSorted.Token.Numeral

/-!
# Reading a plain numeral

A numeral is plain if it is written the way numbers are: digits of ASCII, at
most one point with digits behind it, and at most one power of ten, which has a
sign. In front of a blank, a closing parenthesis or the end of a text, a plain
numeral is read as a whole and as the number that it denotes (`scan_plain`).
-/

namespace TwoSorted

/-- A character below `0x80` is seen as it is. -/
theorem Lookahead.byte_char {c : Char} (h : c.toNat < 0x80) :
    Lookahead.byte (.char c) = c := by
  rw [byte, Piece.lead, Piece.bytes, utf8EncodeChar_of_lt h, List.headD_cons,
    toNat_ofNat_of_lt h, Char.ofNat_toNat]

theorem isDecimalDigit_of_isDigit {c : Char} (h : c.isDigit = true) :
    isDecimalDigit c = true := by
  rw [isDecimalDigit_of_lt (toNat_lt_of_isDigit h), h]

namespace Cursor

/-- A run of characters is read up to the first one that does not belong. -/
theorem span_chars {keep : Char → Bool} {cs : List Char}
    (hcs : ∀ c ∈ cs, c.toNat < 0x80 ∧ keep c = true) {rest : List Piece}
    (hrest : keep (Lookahead.byte.ahead rest) = false) (q : Position) :
    ∃ q', span Lookahead.byte keep ⟨cs.map .char ++ rest, q⟩ = (cs, ⟨rest, q'⟩) := by
  have hrun : ∀ p ∈ cs.map Piece.char, keep (Lookahead.byte p) = true := by
    intro p hp
    obtain ⟨c, hc, rfl⟩ := List.mem_map.mp hp
    rw [Lookahead.byte_char (hcs c hc).1]
    exact (hcs c hc).2
  have htake : rest.takeWhile (fun p => keep (Lookahead.byte p)) = [] := by
    cases rest with
    | nil => rfl
    | cons p rest => exact List.takeWhile_cons_of_neg (by simp_all)
  have hdrop : rest.dropWhile (fun p => keep (Lookahead.byte p)) = rest := by
    cases rest with
    | nil => rfl
    | cons p rest => exact List.dropWhile_cons_of_neg (by simp_all)
  refine ⟨advance q (cs.map .char), ?_⟩
  simp only [span, List.takeWhile_append_of_pos hrun, List.dropWhile_append_of_pos hrun,
    htake, hdrop, List.append_nil, List.map_map, Function.comp_def, Piece.read_char,
    List.map_id']

theorem takeIf_char (keep : Char → Bool) {c : Char} (hc : c.toNat < 0x80)
    (hkeep : keep c = true) (rest : List Piece) (q : Position) :
    takeIf Lookahead.byte keep ⟨.char c :: rest, q⟩ = ([c], ⟨rest, q.after c⟩) := by
  simp [takeIf, Lookahead.byte_char hc, hkeep]

theorem takeIf_none (keep : Char → Bool) {rest : List Piece}
    (hrest : keep (Lookahead.byte.ahead rest) = false) (q : Position) :
    takeIf Lookahead.byte keep ⟨rest, q⟩ = ([], ⟨rest, q⟩) := by
  cases rest with
  | nil => rfl
  | cons p rest => simp_all [takeIf]

end Cursor

/-- What is seen where a printed literal ends: a blank, a closing parenthesis, or
the end of the text. -/
def EndsLiteral (c : Char) : Prop :=
  c = ' ' ∨ c = ')' ∨ c = '\x00'

namespace Numeral

/-! ### Values -/

theorem hasParts_text {whole mark sign exponent : List Char} {fraction : Option (List Char)}
    (hwhole : ∀ c ∈ whole, c.isDigit = true) (hplaces : ∀ c ∈ fraction.getD [], c.isDigit = true)
    (hpower : Power mark sign exponent) :
    Decimal.HasParts (decimal whole fraction mark sign exponent).text whole fraction sign
      exponent :=
  ⟨hwhole, hplaces, mark, hpower, by simp [text, Decimal.around]⟩

section Values

variable [Conversions]

/-- The value of a numeral that is a decimal with a point or a power of ten comes from its
text. Else it comes from the number that the digits spell. -/
theorem value?_decimal {whole mark sign exponent : List Char} {fraction : Option (List Char)}
    (hne : whole ≠ []) (hwhole : ∀ c ∈ whole, c.isDigit = true)
    (hplaces : ∀ c ∈ fraction.getD [], c.isDigit = true) (hpower : Power mark sign exponent) :
    let n := decimal whole fraction mark sign exponent
    (Decimal.ofText? n.text = some (toDecimal whole fraction sign exponent) ∧
      n.value? = some (Conversions.ofText n.text)) ∨
    (fraction = none ∧ mark = [] ∧ sign = [] ∧ exponent = [] ∧
      ((ofDigits 10 whole = 0 ∧ n.value? = some .zero) ∨
        n.value? = some (convert (ofDigits 10 whole)))) := by
  intro n
  have htext : Decimal.ofText? n.text = some (toDecimal whole fraction sign exponent) :=
    Decimal.ofText?_eq hne (hasParts_text hwhole hplaces hpower)
  cases hfloat : n.isFloat with
  | true =>
      refine .inl ⟨htext, ?_⟩
      rw [value?, if_pos hfloat, floatValue?_eq, htext]
      rfl
  | false =>
      obtain ⟨hfraction, hmark⟩ := Bool.or_eq_false_iff.mp hfloat
      obtain rfl : fraction = none := by simpa using hfraction
      obtain rfl : mark = [] := by simpa using hmark
      cases hpower
      have hvalue : n.value? = wholeValue? whole := by
        simp [n, value?, isFloat, text]
      rw [hvalue]
      exact .inr ⟨rfl, rfl, rfl, rfl, wholeValue?_cases hwhole⟩

/-- A numeral with a value has only characters below `0x80`. -/
theorem toNat_lt_of_mem_text {n : Numeral} {v : Binary64} (h : n.value? = some v) :
    ∀ c ∈ n.text, c.toNat < 0x80 := by
  unfold value? at h
  split at h
  · rw [floatValue?_eq] at h
    obtain ⟨d, hd, _⟩ := Option.map_eq_some_iff.mp h
    obtain ⟨_, _, _, _, hparts, _⟩ := Decimal.hasParts_of_ofText? hd
    exact hparts.toNat_lt
  · cases n with
    | hexadecimal mark digits => exact toNat_lt_of_integerValue? h
    | decimal whole fraction mark sign exponent => exact toNat_lt_of_wholeValue? h

end Values

/-! ### Plain numerals -/

/-- A power of ten as it is written, or none. -/
inductive IsPower : (mark sign exponent : List Char) → Prop
  | none : IsPower [] [] []
  | signed {sign : Char} {exponent : List Char} (hsign : isSign sign = true)
      (hne : exponent ≠ []) (hdigits : ∀ c ∈ exponent, c.isDigit = true) :
      IsPower ['e'] [sign] exponent

/-- The parts of a plain numeral. -/
structure Plain (whole : List Char) (fraction : Option (List Char))
    (mark sign exponent : List Char) : Prop where
  whole_ne : whole ≠ []
  digits : ∀ c ∈ whole ++ fraction.getD [], c.isDigit = true
  power : IsPower mark sign exponent

theorem isDecimalDigit_of_endsLiteral {c : Char} (h : EndsLiteral c) :
    isDecimalDigit c = false := by
  rcases h with rfl | rfl | rfl <;> rfl

theorem span_digits {cs : List Char} (hcs : ∀ c ∈ cs, c.isDigit = true)
    {rest : List Piece} (hrest : isDecimalDigit (Lookahead.byte.ahead rest) = false)
    (q : Position) :
    ∃ q', Cursor.span Lookahead.byte isDecimalDigit ⟨cs.map .char ++ rest, q⟩ =
      (cs, ⟨rest, q'⟩) :=
  Cursor.span_chars
    (fun c hc => ⟨toNat_lt_of_isDigit (hcs c hc), isDecimalDigit_of_isDigit (hcs c hc)⟩)
    hrest q

section

variable {rest : List Piece} (hrest : EndsLiteral (Lookahead.byte.ahead rest))
  {mark sign exponent : List Char} (h : IsPower mark sign exponent)

include hrest h in
/-- What is seen in front of a power of ten is its mark or the end of the literal. -/
theorem keep_ahead_power (keep : Char → Bool) (hmark : keep 'e' = false)
    (hends : ∀ c, EndsLiteral c → keep c = false) :
    keep (Lookahead.byte.ahead ((mark ++ sign ++ exponent).map .char ++ rest)) = false := by
  cases h with
  | none => exact hends _ hrest
  | signed hsign hne hdigits =>
      have hahead : Lookahead.byte (.char 'e') = 'e' := Lookahead.byte_char (by decide)
      simp [hahead, hmark]

include hrest h in
theorem scanExponent_plain (whole : List Char) (fraction : Option (List Char))
    (q : Position) :
    ∃ q', scanExponent Lookahead.byte whole fraction
        ⟨(mark ++ sign ++ exponent).map .char ++ rest, q⟩ =
      (true, decimal whole fraction mark sign exponent, ⟨rest, q'⟩) := by
  cases h with
  | none =>
      have hmark : isExponentMark (Lookahead.byte.ahead rest) = false := by
        rcases hrest with h | h | h <;> rw [h] <;> rfl
      exact ⟨q, by simp [scanExponent, Cursor.takeIf_none isExponentMark hmark]⟩
  | @signed sign exponent hsign hne hdigits =>
      have hdigit := isDecimalDigit_of_endsLiteral hrest
      have hmark := Cursor.takeIf_char isExponentMark (c := 'e') (by decide) rfl
        (([sign] ++ exponent).map .char ++ rest) q
      have htake := Cursor.takeIf_char isSign (toNat_lt_of_isSign hsign) hsign
        (exponent.map .char ++ rest) (q.after 'e')
      obtain ⟨q', hspan⟩ := span_digits hdigits hdigit ((q.after 'e').after sign)
      refine ⟨q', ?_⟩
      simp_all [scanExponent]

end

section

variable {rest : List Piece} (hrest : EndsLiteral (Lookahead.byte.ahead rest))
  {first : Char} {more : List Char} {fraction : Option (List Char)}
  {mark sign exponent : List Char} (h : Plain (first :: more) fraction mark sign exponent)

include hrest h in
theorem scanParts_plain (q : Position) :
    ∃ q', scanParts Lookahead.byte first
        ⟨(more ++ fraction.elim [] ('.' :: ·) ++ (mark ++ sign ++ exponent)).map .char ++
          rest, q⟩ =
      (true, decimal (first :: more) fraction mark sign exponent, ⟨rest, q'⟩) := by
  obtain ⟨hfirst, hdigits⟩ := List.forall_mem_cons.mp h.digits
  obtain ⟨hmore, hplaces⟩ := List.forall_mem_append.mp hdigits
  have hpoint : first ≠ '.' := by
    rintro rfl
    cases hfirst
  -- the digit, the hexadecimal mark and the point are told from what a power begins with
  have hdigit := keep_ahead_power hrest h.power isDecimalDigit rfl
    fun c => isDecimalDigit_of_endsLiteral
  have hhex := keep_ahead_power hrest h.power isHexMark rfl
    fun c hc => by rcases hc with rfl | rfl | rfl <;> rfl
  have hdot := keep_ahead_power hrest h.power (· == '.') rfl
    fun c hc => by rcases hc with rfl | rfl | rfl <;> rfl
  have hexponent := scanExponent_plain hrest h.power (first :: more) fraction
  rw [List.map_append, List.append_assoc]
  generalize (mark ++ sign ++ exponent).map Piece.char ++ rest = power
    at hdigit hhex hdot hexponent ⊢
  cases fraction with
  | none =>
      obtain ⟨q₁, hspan⟩ := span_digits hmore hdigit q
      obtain ⟨q', hscan⟩ := hexponent q₁
      refine ⟨q', ?_⟩
      simp [scanParts, hpoint, hspan, Cursor.takeIf_none isHexMark hhex,
        Cursor.takeIf_none (· == '.') hdot, hscan]
  | some places =>
      rw [Option.getD_some] at hplaces
      have hahead : Lookahead.byte.ahead (.char '.' :: (places.map .char ++ power)) = '.' :=
        Lookahead.byte_char (by decide)
      have hhex : isHexMark
          (Lookahead.byte.ahead (.char '.' :: (places.map .char ++ power))) = false := by
        rw [hahead]
        rfl
      obtain ⟨q₁, hspan⟩ := span_digits hmore (by rw [hahead]; rfl) q
      have htake := Cursor.takeIf_char (· == '.') (c := '.') (by decide) rfl
        (places.map .char ++ power) q₁
      obtain ⟨q₂, hspan'⟩ := span_digits hplaces hdigit (q₁.after '.')
      obtain ⟨q', hscan⟩ := hexponent q₂
      refine ⟨q', ?_⟩
      simp [scanParts, hpoint, hspan, Cursor.takeIf_none isHexMark hhex, htake, hspan',
        hscan]

theorem Plain.exponent_digits {whole : List Char}
    (h : Plain whole fraction mark sign exponent) : ∀ c ∈ exponent, c.isDigit = true := by
  cases h.power with
  | none => simp
  | signed _ _ hdigits => exact hdigits

/-- A power of ten that is written is one that can be read. -/
theorem IsPower.power {mark sign exponent : List Char} (h : IsPower mark sign exponent) :
    Power mark sign exponent := by
  cases h with
  | none => exact .missing
  | signed hsign hne hdigits => exact .there rfl (.inr ⟨_, hsign, rfl⟩) hne hdigits

include h in
/-- Rounded to the nearest number, a plain numeral has the value of the decimal that it
denotes. -/
theorem value?_plain :
    (decimal (first :: more) fraction mark sign exponent).value? =
      some (toDecimal (first :: more) fraction sign exponent).toBinary64 := by
  obtain ⟨hwhole, hplaces⟩ := List.forall_mem_append.mp h.digits
  obtain ⟨htext, hvalue⟩ | ⟨rfl, rfl, rfl, rfl, hvalue⟩ :=
    value?_decimal h.whole_ne hwhole hplaces h.power.power
  · rw [hvalue]
    simp only [Conversions.ofText, htext, Option.elim_some]
  · have hwhole : toDecimal (first :: more) none [] [] = ⟨ofDigits 10 (first :: more), 0⟩ := by
      simp [toDecimal, exponentOf]
    rw [hwhole]
    obtain ⟨hzero, hvalue⟩ | hvalue := hvalue
    · rw [hvalue, hzero]
      decide +kernel
    · rw [hvalue, convert]
      split <;> rfl

include hrest h in
theorem scan_plain (q : Position) :
    ∃ q', scan Lookahead.byte first
        ⟨(more ++ fraction.elim [] ('.' :: ·) ++ (mark ++ sign ++ exponent)).map .char ++
          rest, q⟩ =
      (.ok (toDecimal (first :: more) fraction sign exponent).toBinary64, ⟨rest, q'⟩) := by
  obtain ⟨q', hparts⟩ := scanParts_plain hrest h q
  have hletter : (isLetter (Lookahead.byte.ahead rest) ||
      Lookahead.byte.ahead rest == '_') = false := by
    rcases hrest with hc | hc | hc <;> rw [hc] <;> rfl
  refine ⟨q', ?_⟩
  simp only [scan, hparts, hletter, value?_plain h, Bool.not_true, Bool.false_eq_true, if_false]

end

/-- The characters are a plain numeral for the number `v`. -/
def Denotes (cs : List Char) (v : Binary64) : Prop :=
  ∃ whole fraction mark sign exponent, Plain whole fraction mark sign exponent ∧
    cs = (decimal whole fraction mark sign exponent).text ∧
    (toDecimal whole fraction sign exponent).toBinary64 = v

/-- A plain numeral begins with a digit, and with what follows it is read as the
number that it denotes. -/
theorem Denotes.scan {cs : List Char} {v : Binary64} (h : Denotes cs v) :
    ∃ first more, cs = first :: more ∧ first.isDigit = true ∧
      ∀ rest q, EndsLiteral (Lookahead.byte.ahead rest) →
        ∃ q', Numeral.scan Lookahead.byte first ⟨more.map .char ++ rest, q⟩ =
          (.ok v, ⟨rest, q'⟩) := by
  obtain ⟨whole, fraction, mark, sign, exponent, hplain, rfl, rfl⟩ := h
  cases whole with
  | nil => exact absurd rfl hplain.whole_ne
  | cons first more =>
      refine ⟨first, more ++ fraction.elim [] ('.' :: ·) ++ (mark ++ sign ++ exponent),
        by simp [text], hplain.digits first (by simp), ?_⟩
      intro rest q hrest
      exact scan_plain hrest hplain q

theorem Denotes.toNat_lt {cs : List Char} {v : Binary64} (h : Denotes cs v) :
    ∀ c ∈ cs, c.toNat < 0x80 := by
  obtain ⟨whole, fraction, mark, sign, exponent, hplain, rfl, rfl⟩ := h
  obtain ⟨hwhole, hplaces⟩ := List.forall_mem_append.mp hplain.digits
  have hpoint : ∀ c ∈ fraction.elim [] ('.' :: ·), c.toNat < 0x80 := by
    cases fraction with
    | none => simp
    | some places =>
        exact List.forall_mem_cons.mpr
          ⟨by decide, fun c hc => toNat_lt_of_isDigit (hplaces c hc)⟩
  have hmark : ∀ c ∈ mark ++ sign, c.toNat < 0x80 := by
    cases hplain.power with
    | none => simp
    | signed hsign _ _ => simp [toNat_lt_of_isSign hsign]
  rw [text, List.append_assoc _ mark]
  refine List.forall_mem_append.mpr ⟨List.forall_mem_append.mpr
    ⟨List.forall_mem_append.mpr ⟨?_, hpoint⟩, hmark⟩, ?_⟩
  · exact fun c hc => toNat_lt_of_isDigit (hwhole c hc)
  · exact fun c hc => toNat_lt_of_isDigit (hplain.exponent_digits c hc)

end Numeral

end TwoSorted
