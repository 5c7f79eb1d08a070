import Mathlib.Data.Nat.Digits.Defs
import TwoSorted.Proofs.Number.Nearest
import TwoSorted.Proofs.Number.Text
import TwoSorted.Proofs.Token.LongestMatch

/-!
# The value of a number

`Written.denoted t` is the rational that the characters `t` of a number denote. If every
conversion rounds what it is given (`Conversions.Correct`), a token for a number has the
value that this rational is rounded to, whichever way the number is written and whichever
conversion it goes through (`Lexer.next_number_rounds`).
-/

namespace TwoSorted

open Binary64 Computability

/-! ### What the characters of a number denote -/

namespace Written

open Numeral

/-- The value of a digit, in either case, is its place in the list of digits. -/
def digit (c : Char) : Nat :=
  ['0', '1', '2', '3', '4', '5', '6', '7', '8', '9', 'a', 'b', 'c', 'd', 'e', 'f'].idxOf c.toLower

/-- The number that digits spell. -/
def natural (base : Nat) (ds : List Char) : Nat :=
  Nat.ofDigits base (ds.map digit).reverse

/-- Only hexadecimal numbers have their mark. -/
def isHexadecimal (t : List Char) : Bool :=
  t.any isHexMark

/-- The digits and the point, up to the mark of a power of ten. -/
def mantissa (t : List Char) : List Char :=
  t.takeWhile fun c => !isExponentMark c

/-- The digits before the point. -/
def whole (t : List Char) : List Char :=
  (mantissa t).takeWhile (· != '.')

/-- The digits behind the point. -/
def places (t : List Char) : List Char :=
  ((mantissa t).dropWhile (· != '.')).tail

/-- The exponent behind the mark of a power of ten, zero if there is none. -/
def exponent (t : List Char) : ℤ :=
  if isHexadecimal t then 0
  else
    let behind := (t.dropWhile fun c => !isExponentMark c).tail
    let n := natural 10 (behind.dropWhile isSign)
    if behind.head? = some '-' then -n else n

/-- The number without a mark `x`, as a coefficient with a power of ten. -/
def decimal (t : List Char) : Decimal :=
  ⟨natural 10 (whole t ++ places t), exponent t - (places t).length⟩

/-- The rational that the characters of a number denote. -/
def denoted (t : List Char) : ℚ :=
  if isHexadecimal t then natural 16 (t.drop 2) else (decimal t).toRat

/-! ### The parts of a number in its text -/

theorem digit_eq {c : Char} (h : isHex c = true) : digit c = digitValue c :=
  forall_isHex (P := fun c => digit c = digitValue c) (by decide +kernel) h

theorem natural_eq {ds : List Char} (base : Nat) (h : ∀ c ∈ ds, isHex c = true) :
    natural base ds = ofDigits base ds := by
  induction ds using List.reverseRecOn with
  | nil => rfl
  | append_singleton ds c ih =>
      obtain ⟨hds, hc⟩ := List.forall_mem_append.mp h
      have hstep : ofDigits base (ds ++ [c]) = ofDigits base ds * base + digitValue c := by
        simp [ofDigits]
      rw [hstep, ← ih hds, ← digit_eq (hc c List.mem_cons_self), natural, List.map_append,
        List.reverse_append, List.map_singleton, List.reverse_singleton, List.singleton_append,
        Nat.ofDigits_cons]
      exact Nat.add_comm _ _ |>.trans (by rw [Nat.mul_comm]; rfl)

/-! #### Parts of the text -/

section Power

variable {mark sign ds : List Char} (h : Power mark sign ds)
include h

theorem isDigit_of_power : ∀ c ∈ ds, c.isDigit = true := by
  cases h with
  | missing => simp
  | there _ _ _ hdigits => exact hdigits

theorem takeWhile_power :
    (mark ++ sign ++ ds).takeWhile (fun c => !isExponentMark c) = [] ∧
    (mark ++ sign ++ ds).dropWhile (fun c => !isExponentMark c) = mark ++ sign ++ ds := by
  cases h with
  | missing => exact ⟨rfl, rfl⟩
  | there hm => simp [hm]

theorem power_avoids_hexMark : ∀ c ∈ mark ++ sign ++ ds, isHexMark c = false := by
  have hmark : Apart isExponentMark isHexMark := apart_pair rfl rfl
  have hsigns : Apart isSign isHexMark := apart_pair rfl rfl
  have hdigit : Apart isHexMark Char.isDigit := apart_pair rfl rfl
  have hds := fun c hc => hdigit.symm c (isDigit_of_power h c hc)
  cases h with
  | missing => simp
  | @there m _ _ hm hsign =>
      obtain rfl | ⟨s, hs, rfl⟩ := hsign
      · simpa [hmark m hm] using hds
      · simpa [hmark m hm, hsigns s hs] using hds

end Power

section Parts

variable {t ws sign ds : List Char} {fraction : Option (List Char)}
  (h : Decimal.HasParts t ws fraction sign ds)
include h

theorem around_avoids (keep : Char → Bool) (hdigit : Apart keep Char.isDigit)
    (hpoint : keep '.' = false) : ∀ c ∈ Decimal.around ws fraction, keep c = false := by
  intro c hc
  rcases List.mem_append.mp hc with hc | hc
  · exact hdigit.symm c (h.whole_digits c hc)
  · cases fraction with
    | none => cases hc
    | some fs =>
        rcases List.mem_cons.mp hc with rfl | hc
        · exact hpoint
        · exact hdigit.symm c (h.places_digits c hc)

theorem around_split :
    (Decimal.around ws fraction).takeWhile (· != '.') = ws ∧
    ((Decimal.around ws fraction).dropWhile (· != '.')).tail = fraction.getD [] := by
  have hpoint : Apart (· == '.') Char.isDigit := apart_eq rfl
  have havoids : ∀ c ∈ ws, (c != '.') = true := fun c hc => by
    simpa using hpoint.symm c (h.whole_digits c hc)
  rw [Decimal.around, List.takeWhile_append_of_pos havoids, List.dropWhile_append_of_pos havoids]
  cases fraction <;> simp

theorem isHexadecimal_eq : isHexadecimal t = false := by
  have hfront := around_avoids h isHexMark (apart_pair rfl rfl) rfl
  obtain ⟨mark, hpower, rfl⟩ := h.text
  rw [isHexadecimal, List.any_eq_false]
  intro c hc
  rcases List.mem_append.mp hc with hc | hc
  · simp [hfront c hc]
  · simp [power_avoids_hexMark hpower c hc]

/-- The text is cut in front of the mark of the power of ten. -/
theorem mantissa_eq :
    mantissa t = Decimal.around ws fraction ∧
    ∃ mark, Power mark sign ds ∧
      t.dropWhile (fun c => !isExponentMark c) = mark ++ sign ++ ds := by
  have hfront : ∀ c ∈ Decimal.around ws fraction, (!isExponentMark c) = true := by
    simpa using around_avoids h isExponentMark (apart_pair rfl rfl) rfl
  obtain ⟨mark, hpower, rfl⟩ := h.text
  obtain ⟨htake, hdrop⟩ := takeWhile_power hpower
  rw [mantissa, List.takeWhile_append_of_pos hfront, List.dropWhile_append_of_pos hfront, htake,
    List.append_nil]
  exact ⟨rfl, mark, hpower, hdrop⟩

theorem whole_eq : whole t = ws := by
  rw [whole, (mantissa_eq h).1, (around_split h).1]

theorem places_eq : places t = fraction.getD [] := by
  rw [places, (mantissa_eq h).1, (around_split h).2]

theorem exponent_eq :
    exponent t = if sign = ['-'] then -(ofDigits 10 ds : ℤ) else ofDigits 10 ds := by
  obtain ⟨_, mark, hpower, hbehind⟩ := mantissa_eq h
  have hall := isDigit_of_power hpower
  have hdigits : natural 10 ds = ofDigits 10 ds :=
    natural_eq 10 fun c hc => by simp [isHex, hall c hc]
  rw [exponent, isHexadecimal_eq h, hbehind, ← hdigits]
  cases hpower with
  | missing => rfl
  | there hm hs hne hds =>
      have hsign : Apart isSign Char.isDigit := apart_pair rfl rfl
      obtain ⟨d, ds, rfl⟩ := List.exists_cons_of_ne_nil hne
      have hd := hsign.symm d (hds d List.mem_cons_self)
      obtain rfl | ⟨s, hs, rfl⟩ := hs
      · have hminus : d ≠ '-' := by
          rintro rfl
          cases hd
        simp [hd, hminus]
      · simp [hs, hd]

theorem decimal_eq_parts :
    decimal t = ⟨ofDigits 10 (ws ++ fraction.getD []),
      (if sign = ['-'] then -(ofDigits 10 ds : ℤ) else ofDigits 10 ds) -
        (fraction.getD []).length⟩ := by
  have hall : ∀ c ∈ ws ++ fraction.getD [], isHex c = true := fun c hc => by
    rcases List.mem_append.mp hc with hc | hc
    · simp [isHex, h.whole_digits c hc]
    · simp [isHex, h.places_digits c hc]
  rw [decimal, exponent_eq h, whole_eq h, places_eq h, natural_eq 10 hall]

theorem denoted_eq : denoted t = (decimal t).toRat := by
  rw [denoted, isHexadecimal_eq h, if_neg Bool.false_ne_true]

/-- Decimal numbers denote what their parts do. -/
theorem decimal_eq (hsmall : (exponent t).natAbs < 10000) :
    decimal t = toDecimal ws fraction sign ds := by
  have hds : exponentOf ds = ofDigits 10 ds := by
    refine exponentOf_eq ?_
    rw [exponent_eq h] at hsmall
    split at hsmall <;> omega
  rw [decimal_eq_parts h, toDecimal, hds]

end Parts

end Written

/-! ### Correct conversions -/

open Written in
/-- Every conversion rounds to the nearest number, a tie to the even one: a text what it
denotes as a decimal, if its exponent is below ten thousand, and an integer itself. -/
structure Conversions.Correct [Conversions] : Prop where
  ofText : ∀ t, Decimal.ofText? t ≠ none → (exponent t).natAbs < 10000 →
    Rounds (denoted t) (Conversions.ofText t)
  ofInt64 : ∀ n : Nat, n < 2 ^ 63 → Rounds n (Conversions.ofInt64 n)
  ofInteger : ∀ n : Nat, Rounds n (Conversions.ofInteger n)

namespace Conversions

open Written Numeral

theorem rounds_natural (n : Nat) : Rounds n (Decimal.toBinary64 ⟨n, 0⟩) := by
  have hrounds := Decimal.rounds_toBinary64 ⟨n, 0⟩
  rwa [Decimal.toRat, zpow_zero, mul_one] at hrounds

/-- The conversions to the nearest number are correct. -/
theorem nearest_correct : @Correct nearest := by
  refine ⟨fun t hdecimal hsmall => ?_, fun n _ => rounds_natural n, rounds_natural⟩
  obtain ⟨d, hd⟩ := Option.ne_none_iff_exists'.mp hdecimal
  obtain ⟨ws, fraction, sign, ds, hparts, rfl⟩ := Decimal.hasParts_of_ofText? hd
  have hvalue : nearest.ofText t = (toDecimal ws fraction sign ds).toBinary64 := by
    simp only [ofText, hd, Option.elim_some]
  rw [hvalue, denoted_eq hparts, decimal_eq hparts hsmall]
  exact Decimal.rounds_toBinary64 _

variable [Conversions] (hcorrect : Correct)
include hcorrect

/-- Integers are rounded right, with 64 bits and with more. -/
theorem Correct.rounds_convert (n : Nat) : Rounds n (convert n) := by
  rw [convert]
  split
  next hn => exact hcorrect.ofInt64 n (by simpa [Nat.shiftLeft_eq] using hn)
  next => exact hcorrect.ofInteger n

theorem Correct.rounds_decimal {whole mark sign ds : List Char} {fraction : Option (List Char)}
    {v : Binary64} (hne : whole ≠ []) (hwhole : ∀ c ∈ whole, c.isDigit = true)
    (hplaces : ∀ c ∈ fraction.getD [], c.isDigit = true) (hpower : Power mark sign ds)
    (hv : (Numeral.decimal whole fraction mark sign ds).value? = some v)
    (hsmall : (exponent (Numeral.decimal whole fraction mark sign ds).text).natAbs < 10000) :
    Rounds (denoted (Numeral.decimal whole fraction mark sign ds).text) v := by
  have hparts := hasParts_text hwhole hplaces hpower
  obtain ⟨htext, hvalue⟩ | ⟨rfl, rfl, rfl, rfl, hvalue⟩ :=
    value?_decimal hne hwhole hplaces hpower
  · obtain rfl := Option.some_inj.mp (hvalue.symm.trans hv)
    exact hcorrect.ofText _ (by simp [htext]) hsmall
  · have hdenoted : denoted (Numeral.decimal whole none [] [] []).text = ofDigits 10 whole := by
      rw [denoted_eq hparts, decimal_eq_parts hparts]
      simp [Decimal.toRat, ofDigits]
    rw [hdenoted]
    obtain ⟨hzero, hvalue⟩ | hvalue := hvalue
    · obtain rfl := Option.some_inj.mp (hvalue.symm.trans hv)
      have hrounds := rounds_natural 0
      rw [hzero]
      exact hrounds
    · obtain rfl := Option.some_inj.mp (hvalue.symm.trans hv)
      exact hcorrect.rounds_convert _

end Conversions

namespace Written

open Numeral

/-- What spells a decimal numeral denotes what the text of the numeral does: the zero that
is put before a point changes nothing. -/
theorem denoted_of_spells {w : List UInt8} {whole mark sign ds : List Char}
    {fraction : Option (List Char)} (h : Spells w (.decimal whole fraction mark sign ds)) :
    denoted (w.map latin1) = denoted (Numeral.decimal whole fraction mark sign ds).text ∧
      exponent (w.map latin1) = exponent (Numeral.decimal whole fraction mark sign ds).text := by
  obtain ⟨_, hwhole, hplaces, hpower⟩ := h.decimal_parts
  have htext := hasParts_text hwhole hplaces hpower
  cases h with
  | integer _ _ hspells => simp [Numeral.text, hspells.power.2]
  | fraction _ _ hp _ hspells => simp [Numeral.text, hp, hspells.power.2]
  | @point p places power _ _ _ hp _ _ hspells =>
      have hparts : Decimal.HasParts ((p :: (places ++ power)).map latin1) []
          (some (places.map latin1)) sign ds :=
        ⟨by simp, hplaces, mark, hpower, by simp [Decimal.around, hp, hspells.power.2]⟩
      rw [denoted_eq hparts, denoted_eq htext, decimal_eq_parts hparts, decimal_eq_parts htext,
        exponent_eq hparts, exponent_eq htext]
      exact ⟨rfl, rfl⟩

/-- Whatever spells a number, its value is what the number is rounded to. -/
theorem rounds_of_spells [Conversions] (hcorrect : Conversions.Correct) {w : List UInt8}
    {n : Numeral} {v : Binary64} (h : Spells w n) (hv : n.value? = some v)
    (hsmall : (exponent (w.map latin1)).natAbs < 10000) :
    Rounds (denoted (w.map latin1)) v := by
  cases n with
  | decimal whole fraction mark sign ds =>
      obtain ⟨hne, hwhole, hplaces, hpower⟩ := h.decimal_parts
      obtain ⟨hdenoted, hexponent⟩ := denoted_of_spells h
      rw [hexponent] at hsmall
      rw [hdenoted]
      exact hcorrect.rounds_decimal hne hwhole hplaces hpower hv hsmall
  | hexadecimal mark digits =>
      cases h with
      | @hexadecimal z m ds _ hm hne hds =>
          have hisHex : ∀ c ∈ ds.map latin1, isHex c = true := by simpa using hds
          have hmark : isHexadecimal ((z :: m :: ds).map latin1) = true := by
            simp [isHexadecimal, hm]
          rw [value?_hexadecimal hm (by simpa using hne) hisHex] at hv
          cases hv
          have hdigits : ((z :: m :: ds).map latin1).drop 2 = ds.map latin1 := rfl
          rw [denoted, if_pos hmark, hdigits, natural_eq 16 hisHex]
          exact hcorrect.rounds_convert _

end Written

namespace Lexer

open Written Numeral

/-- Behind white space and comments `r` begins with the number `w`, and `rest` follows. -/
structure NumberAt (r w rest : List UInt8) : Prop where
  skipped : ∃ s, r = s ++ (w ++ rest) ∧ IsLongest layout s r
  longest : IsLongest numerals w (w ++ rest)
  past : Past spoilsNumber rest

/-- The token of a number has the value to which the number is rounded. -/
theorem NumberAt.next [Conversions] (hcorrect : Conversions.Correct) {r w rest : List UInt8}
    (h : NumberAt r w rest) (hsmall : (exponent (w.map latin1)).natAbs < 10000)
    (ending : Ending) (q : Position) :
    ∃ tok q' v, (before r ending q).next = (.ok tok, before rest ending q') ∧
      tok.symbol = .number v ∧ Rounds (denoted (w.map latin1)) v := by
  obtain ⟨s, hr, hs⟩ := h.skipped
  obtain ⟨s', t, q', hr', hs', hskip⟩ := (skips r).1 q
  obtain rfl := hs.unique hs'
  obtain rfl := List.append_cancel_left (hr.symm.trans hr')
  obtain ⟨b, t, htext, _⟩ := starts_of_mem_numerals h.longest.mem rest
  have hlexeme : Lexeme (w ++ rest) w "number" := .number h.longest h.past
  obtain ⟨n, v, q'', hn, hv, hsymbol⟩ :=
    scanSymbol_of_number h.longest h.past htext (q'.after (latin1 b))
  rw [htext] at hskip hlexeme
  exact ⟨_, q'', v, next_of_scanSymbol hskip (lt_of_lexeme hlexeme) hsymbol, rfl,
    rounds_of_spells hcorrect hn hv hsmall⟩

/-- A number alone is read to its end. -/
theorem numberAt_of_mem {w : List UInt8} (h : w ∈ numerals) : NumberAt w w [] := by
  obtain ⟨b, t, htext, hstarts⟩ := starts_of_mem_numerals h []
  rw [List.append_nil] at htext
  have hlayout : Cursor.isLayout (latin1 b) = false ∧ (latin1 b == '/') = false := by
    obtain hb | ⟨hb, _⟩ := hstarts
    · have hblank : Apart Cursor.isLayout Char.isDigit := by
        intro c hc
        simp only [Cursor.isLayout, Bool.or_eq_true, beq_iff_eq] at hc
        rcases hc with ((rfl | rfl) | rfl) | rfl <;> rfl
      have hslash : Apart (· == '/') Char.isDigit := apart_eq rfl
      exact ⟨hblank.symm _ hb, hslash.symm _ hb⟩
    · simp [hb, Cursor.isLayout]
  have hlongest : IsLongest numerals w (w ++ []) :=
    ⟨h, List.prefix_append w [], fun u _ hu => by simpa using hu.length_le⟩
  refine ⟨⟨[], by simp, ?_⟩, hlongest, past_nil⟩
  rw [htext]
  have hcomment : PastByte (· == '/') (b :: t) := past_cons hlayout.2
  exact isLongest_layout_nil (past_cons hlayout.1) hcomment.noPrefix_one_mul

theorem mem_numerals {whole u : List UInt8} {mark sign ds : List Char} (hne : whole ≠ [])
    (hwhole : AllDigits whole) (hu : SpellsPower u mark sign ds) : whole ++ u ∈ numerals := by
  have hpower : u ∈ 1 + power := by
    cases hu with
    | missing => exact .inl Language.nil_mem_one
    | there hm hsign hne hds =>
        have hlongest := isLongest_power hsign hm hne hds past_nil
        exact .inr hlongest.mem
  have hdigits : whole ∈ digits := by
    simpa using (isLongest_digits hne hwhole past_nil).mem
  have hnone : [] ∈ 1 + point * digit∗ := .inl Language.nil_mem_one
  have hnumber := Language.append_mem_mul (Language.append_mem_mul hdigits hnone) hpower
  rw [List.append_nil] at hnumber
  exact .inl (.inl hnumber)

/-- If the conversions are correct, a number behind white space and comments is rounded to
the nearest number of the format. Nothing of the spelling matters but the rational that it
denotes, so two numbers that denote the same have the same value, whichever conversions they
go through. -/
theorem next_number_rounds [Conversions] (hcorrect : Conversions.Correct)
    {r w rest : List UInt8} (h : NumberAt r w rest)
    (hsmall : (exponent (w.map latin1)).natAbs < 10000) (ending : Ending) (q : Position) :
    ∃ tok q' v, (before r ending q).next = (.ok tok, before rest ending q') ∧
      tok.symbol = .number v ∧ (∀ v', Rounds (denoted (w.map latin1)) v' ↔ v' = v) ∧
      ∀ r₂ w₂ rest₂, NumberAt r₂ w₂ rest₂ → (exponent (w₂.map latin1)).natAbs < 10000 →
        denoted (w₂.map latin1) = denoted (w.map latin1) → ∀ ending₂ q₂, ∃ tok₂,
          (before r₂ ending₂ q₂).next.1 = .ok tok₂ ∧ tok₂.symbol = tok.symbol := by
  obtain ⟨tok, q', v, hnext, htok, hv⟩ := h.next hcorrect hsmall ending q
  refine ⟨tok, q', v, hnext, htok, fun v' => ⟨fun hv' => hv'.unique hv, ?_⟩, ?_⟩
  · rintro rfl
    exact hv
  · intro r₂ w₂ rest₂ h₂ hsmall₂ heq ending₂ q₂
    obtain ⟨tok₂, q₂', v₂, hnext₂, htok₂, hv₂⟩ := h₂.next hcorrect hsmall₂ ending₂ q₂
    rw [heq] at hv₂
    exact ⟨tok₂, by rw [hnext₂], by rw [htok₂, htok, hv₂.unique hv]⟩

/-- The digits of `2 ^ 53 + 1`, which lies half way between two numbers of the format. -/
def halfway : List UInt8 :=
  [0x39, 0x30, 0x30, 0x37, 0x31, 0x39, 0x39, 0x32, 0x35, 0x34, 0x37, 0x34, 0x30, 0x39, 0x39, 0x33]

theorem halfway_mem : halfway ∈ numerals := by
  have hdigits : AllDigits halfway := by decide +kernel
  have hne : halfway ≠ [] := List.cons_ne_nil _ _
  simpa using mem_numerals hne hdigits .missing

theorem next_number_rounds_halfway :
    Conversions.Correct ∧ NumberAt halfway halfway [] ∧
      (exponent (halfway.map latin1)).natAbs < 10000 ∧
      ∃ tok q', (before halfway .endOfFile .start).next = (.ok tok, before [] .endOfFile q') ∧
        tok.symbol = .number (ofPattern 0x4340000000000000) := by
  have hsmall : (exponent (halfway.map latin1)).natAbs < 10000 := by decide +kernel
  have hat := numberAt_of_mem halfway_mem
  obtain ⟨tok, q', v, hnext, htok, hv, _⟩ :=
    next_number_rounds Conversions.nearest_correct hat hsmall .endOfFile .start
  have hdecimal : Written.decimal (halfway.map latin1) = ⟨9007199254740993, 0⟩ := by
    decide +kernel
  have hdenoted : denoted (halfway.map latin1) = Decimal.toRat ⟨9007199254740993, 0⟩ := by
    have hplain : isHexadecimal (halfway.map latin1) = false := by decide +kernel
    simp [denoted, hplain, hdecimal]
  have hrounds := Decimal.rounds_toBinary64 ⟨9007199254740993, 0⟩
  rw [← hdenoted, hv] at hrounds
  refine ⟨Conversions.nearest_correct, hat, hsmall, tok, q', hnext, ?_⟩
  rw [htok, ← hrounds]
  decide +kernel

end Lexer

end TwoSorted
