import TwoSorted.Proofs.Token.Lookahead

/-!
# Tokens for different ways to look ahead

Two fair ways to look ahead may cut different tokens out of a text with characters
from `0x80` on in it: one may take such a character for a part of a word or a number
where the other does not. That makes no difference in the end. A token holds
characters below `0x80` only, so in front of another such character both ways read
the same token (`scan_look`). And whoever meets a character from `0x80` on at the
start of a token stops there with a fault (`scan_of_unsettled`).
-/

namespace TwoSorted

/-! ### Numerals -/

namespace Numeral

open Lookahead Cursor

/-- The digits of the numeral. -/
def digits : Numeral → List Char
  | hexadecimal _ digits => digits
  | decimal whole fraction _ _ exponent => whole ++ fraction.getD [] ++ exponent

theorem mem_text_of_mem_digits {n : Numeral} {x : Char} (h : x ∈ n.digits) : x ∈ n.text := by
  cases n with
  | hexadecimal mark digits => exact List.mem_append_right _ h
  | decimal whole fraction mark sign exponent =>
      cases fraction <;> simp [digits, text] at h ⊢ <;> grind

/-- The digits of a numeral that has a value are below `0x80`. -/
theorem toNat_lt_of_value? [Conversions] {n : Numeral} {v : Binary64} (h : n.value? = some v) :
    ∀ x ∈ n.digits, x.toNat < 0x80 :=
  fun x hx => toNat_lt_of_mem_text h x (mem_text_of_mem_digits hx)

theorem narrow_isExponentMark : Narrow isExponentMark :=
  (narrow_eq (by decide)).or (narrow_eq (by decide))

theorem narrow_isSign : Narrow isSign :=
  (narrow_eq (by decide)).or (narrow_eq (by decide))

theorem narrow_isHexMark : Narrow isHexMark :=
  (narrow_eq (by decide)).or (narrow_eq (by decide))

variable {look look' : Lookahead} {c c' : Cursor} {complete : Bool} {n : Numeral}

/-- The digits before the exponent are digits of the numeral. -/
theorem mem_digits_of_scanExponent {whole : List Char} {fraction : Option (List Char)}
    (hscan : scanExponent look whole fraction c = (complete, n, c')) :
    ∀ x ∈ whole ++ fraction.getD [], x ∈ n.digits := by
  intro x hx
  unfold scanExponent at hscan
  dsimp only at hscan
  split at hscan
  · cases hscan
    exact List.mem_append_left _ hx
  · cases hscan
    exact List.mem_append_left _ hx

theorem scanExponent_look (h : c.SeenFairly look look') {whole : List Char}
    {fraction : Option (List Char)}
    (hscan : scanExponent look whole fraction c = (complete, n, c'))
    (hdigits : ∀ x ∈ n.digits, x.toNat < 0x80) (hsettled : Settled c'.rest) :
    scanExponent look' whole fraction c = (complete, n, c') ∧ Settled c.rest := by
  rcases hmark : c.takeIf look isExponentMark with ⟨mark, c₁⟩
  obtain ⟨hmark', h₁, hfirst₁⟩ := takeIf_look h narrow_isExponentMark hmark
  rcases hsign : c₁.takeIf look isSign with ⟨sign, c₂⟩
  obtain ⟨hsign', h₂, hfirst₂⟩ := takeIf_look h₁ narrow_isSign hsign
  rcases hexponent : c₂.span look isDecimalDigit with ⟨exponent, c₃⟩
  simp only [scanExponent, hmark, hsign, hexponent] at hscan
  simp only [scanExponent, hmark', hsign']
  split at hscan
  · rename_i hempty
    cases hscan
    exact ⟨by simp only [hempty, if_true], hfirst₁ hsettled⟩
  · rename_i hempty
    cases hscan
    have hread : ∀ x ∈ exponent, x.toNat < 0x80 :=
      fun x hx => hdigits x (List.mem_append_right _ hx)
    obtain ⟨hexponent', hsettled₂⟩ := span_look h₂ hexponent hread hsettled
    simp only [hempty, hexponent']
    exact ⟨rfl, hfirst₁ (hfirst₂ hsettled₂)⟩

/-- A run of digits and an exponent behind it are read alike. -/
theorem span_scanExponent_look (h : c.SeenFairly look look') {run : List Char} {c₁ : Cursor}
    (hspan : c.span look isDecimalDigit = (run, c₁)) {whole : List Char}
    {fraction : Option (List Char)}
    (hscan : scanExponent look whole fraction c₁ = (complete, n, c'))
    (hrun : ∀ x ∈ run, x ∈ whole ++ fraction.getD [])
    (hdigits : ∀ x ∈ n.digits, x.toNat < 0x80) (hsettled : Settled c'.rest) :
    c.span look' isDecimalDigit = (run, c₁) ∧
      scanExponent look' whole fraction c₁ = (complete, n, c') ∧ Settled c.rest := by
  have hread : ∀ x ∈ run, x.toNat < 0x80 :=
    fun x hx => hdigits x (mem_digits_of_scanExponent hscan x (hrun x hx))
  obtain ⟨hscan', hsettled₁⟩ :=
    scanExponent_look (span_seenFairly h hspan) hscan hdigits hsettled
  obtain ⟨hspan', hsettled₀⟩ := span_look h hspan hread hsettled₁
  exact ⟨hspan', hscan', hsettled₀⟩

theorem scanParts_look (h : c.SeenFairly look look') {first : Char}
    (hscan : scanParts look first c = (complete, n, c'))
    (hdigits : ∀ x ∈ n.digits, x.toNat < 0x80) (hsettled : Settled c'.rest) :
    scanParts look' first c = (complete, n, c') ∧ Settled c.rest := by
  rcases hmore : c.span look isDecimalDigit with ⟨more, c₁⟩
  have h₁ := span_seenFairly h hmore
  rcases hmark : c₁.takeIf look isHexMark with ⟨mark, c₂⟩
  obtain ⟨hmark', h₂, hfirst₂⟩ := takeIf_look h₁ narrow_isHexMark hmark
  rcases hhex : c₂.span look isHexDigit with ⟨hex, c₃⟩
  rcases hdot : c₁.takeIf look (· == '.') with ⟨dot, c₄⟩
  obtain ⟨hdot', h₄, hfirst₄⟩ := takeIf_look h₁ (narrow_eq (by decide)) hdot
  rcases hplaces : c₄.span look isDecimalDigit with ⟨places, c₅⟩
  simp only [scanParts, hmore, hmark, hhex, hdot, hplaces] at hscan
  -- in each case the parts are read alike from the last one back to the first
  split at hscan
  · rename_i hpoint
    obtain ⟨hmore', hscan', hsettled₀⟩ := span_scanExponent_look h hmore hscan
      (fun x hx => List.mem_append_right _ hx) hdigits hsettled
    exact ⟨by simp only [scanParts, hpoint, if_true, hmore', hscan'], hsettled₀⟩
  · rename_i hpoint
    split at hscan
    · rename_i hhexadecimal
      obtain ⟨hzero, hne⟩ := hhexadecimal
      obtain ⟨rfl, rfl⟩ := List.cons_eq_cons.mp hzero
      cases hscan
      obtain ⟨hhex', hsettled₂⟩ := span_look h₂ hhex hdigits hsettled
      obtain ⟨hmore', hsettled₀⟩ := span_look h hmore (by simp) (hfirst₂ hsettled₂)
      refine ⟨?_, hsettled₀⟩
      simp only [scanParts, hpoint, if_false, hmore', hmark', hhex', true_and, if_pos hne]
    · rename_i hdecimal
      have hread (fraction : Option (List Char)) (c₀ : Cursor)
          (hscan : scanExponent look (first :: more) fraction c₀ = (complete, n, c')) :
          ∀ x ∈ more, x.toNat < 0x80 :=
        fun x hx => hdigits x (mem_digits_of_scanExponent hscan x (by simp [hx]))
      split at hscan
      · rename_i hwhole
        obtain ⟨hscan', hsettled₄⟩ := scanExponent_look h₄ hscan hdigits hsettled
        obtain ⟨hmore', hsettled₀⟩ :=
          span_look h hmore (hread none c₄ hscan) (hfirst₄ hsettled₄)
        simp only [scanParts, hpoint, if_false, hmore', hmark', hdecimal, hdot', hwhole,
          if_true, hscan']
        exact ⟨trivial, hsettled₀⟩
      · rename_i hwhole
        obtain ⟨hplaces', hscan', hsettled₄⟩ := span_scanExponent_look h₄ hplaces hscan
          (fun x hx => List.mem_append_right _ hx) hdigits hsettled
        obtain ⟨hmore', hsettled₀⟩ :=
          span_look h hmore (hread (some places) c₅ hscan) (hfirst₄ hsettled₄)
        simp only [scanParts, hpoint, if_false, hmore', hmark', hdecimal, hdot', hwhole,
          hplaces', hscan']
        exact ⟨rfl, hsettled₀⟩

/-- A numeral gives a number if it does not break off, nothing follows that would
make it a word, and its digits have a value. -/
theorem scan_eq_ok_iff [Conversions] {first : Char} {v : Binary64} :
    scan look first c = (.ok v, c') ↔ ∃ n, scanParts look first c = (true, n, c') ∧
      (isLetter (look.ahead c'.rest) || look.ahead c'.rest == '_') = false ∧
      n.value? = some v := by
  rcases hparts : scanParts look first c with ⟨complete, n, c₁⟩
  simp only [scan, hparts]
  constructor
  · intro hscan
    split at hscan
    · cases hscan
    · rename_i hcomplete
      split at hscan
      · cases hscan
      · rename_i hnext
        split at hscan
        · rename_i v' hvalue
          cases hscan
          refine ⟨n, ?_, Bool.eq_false_iff.mpr hnext, hvalue⟩
          simpa using hcomplete
        · cases hscan
  · rintro ⟨n, hn, hnext, hvalue⟩
    cases hn
    simp [hnext, hvalue]

/-- A numeral with a value in front of a character below `0x80` is read alike. -/
theorem scan_look [Conversions] (h : c.SeenFairly look look') {first : Char} {v : Binary64}
    (hscan : scan look first c = (.ok v, c')) (hsettled : Settled c'.rest) :
    scan look' first c = (.ok v, c') ∧ Settled c.rest := by
  obtain ⟨n, hparts, hnext, hvalue⟩ := scan_eq_ok_iff.mp hscan
  have hleads := scanParts_leads look first c
  rw [hparts] at hleads
  have h' := h.of_leads hleads
  obtain ⟨hparts', hfirst⟩ := scanParts_look h hparts (toNat_lt_of_value? hvalue) hsettled
  rw [← ahead_look h'.left h'.right hsettled] at hnext
  exact ⟨scan_eq_ok_iff.mpr ⟨n, hparts', hnext, hvalue⟩, hfirst⟩

/-- A first digit other than zero is a digit of the numeral. -/
theorem first_mem_digits {first : Char} (hpoint : first ≠ '.') (hzero : first ≠ '0')
    (hparts : scanParts look first c = (complete, n, c')) : first ∈ n.digits := by
  simp only [scanParts, hpoint, if_false, List.cons.injEq, hzero, false_and] at hparts
  split at hparts
  · exact mem_digits_of_scanExponent hparts first (by simp)
  · exact mem_digits_of_scanExponent hparts first (by simp)

/-- No numeral that begins with a character from `0x80` on gives a number. -/
theorem scan_ne_ok [Conversions] {first : Char} (hfirst : 0x80 ≤ first.toNat) (v : Binary64) :
    scan look first c ≠ (.ok v, c') := by
  intro hscan
  obtain ⟨n, hparts, _, hvalue⟩ := scan_eq_ok_iff.mp hscan
  have hne : ∀ x : Char, x.toNat < 0x80 → first ≠ x := by
    rintro x hx rfl
    omega
  have hmem := first_mem_digits (hne '.' (by decide)) (hne '0' (by decide)) hparts
  exact Nat.not_lt.mpr hfirst (toNat_lt_of_value? hvalue first hmem)

end Numeral

/-! ### Tokens -/

namespace Symbol

/-- The letters of a word with a meaning are below `0x80`. -/
theorem toNat_lt_of_ofWord? {w : List Char} {s : Symbol} (h : ofWord? w = some s) :
    ∀ x ∈ w, x.toNat < 0x80 := by
  unfold ofWord? at h
  split at h
  · rename_i hw
    simp [hw]
  · split at h
    · rename_i hw
      simp [hw]
    · cases h

theorem toNat_lt_of_ofChar? {c : Char} {s : Symbol} (h : ofChar? c = some s) :
    c.toNat < 0x80 := by
  unfold ofChar? at h
  split at h
  case h_6 => cases h
  all_goals decide

end Symbol

namespace Lexer

open Lookahead Cursor

variable {look look' : Lookahead} {c c' : Cursor}

theorem scanWord_eq_ok_iff {first : Char} {s : Symbol} :
    scanWord look first c = (.ok s, c') ↔ ∃ more, c.span look isWordPart = (more, c') ∧
      Symbol.ofWord? (first :: more) = some s := by
  rcases hspan : c.span look isWordPart with ⟨more, c₁⟩
  simp only [scanWord, hspan]
  constructor
  · intro hscan
    split at hscan
    · rename_i s' hword
      cases hscan
      exact ⟨more, rfl, hword⟩
    · cases hscan
  · rintro ⟨more, hmore, hword⟩
    cases hmore
    simp [hword]

theorem scanWord_look (h : c.SeenFairly look look') {first : Char} {s : Symbol}
    (hscan : scanWord look first c = (.ok s, c')) (hsettled : Settled c'.rest) :
    scanWord look' first c = (.ok s, c') := by
  obtain ⟨more, hspan, hword⟩ := scanWord_eq_ok_iff.mp hscan
  have hmore := (List.forall_mem_cons.mp (Symbol.toNat_lt_of_ofWord? hword)).2
  obtain ⟨hspan', _⟩ := span_look h hspan hmore hsettled
  exact scanWord_eq_ok_iff.mpr ⟨more, hspan', hword⟩

theorem skipLayout_look (h : c.SeenFairly look look') :
    skipLayout look' false c.position c.rest = skipLayout look false c.position c.rest := by
  rw [skipLayout_fair h.right, skipLayout_fair h.left]

variable [Conversions]

theorem scanNumber_eq_ok_iff {first : Char} {s : Symbol} :
    scanNumber look first c = (.ok s, c') ↔
      ∃ v, Numeral.scan look first c = (.ok v, c') ∧ s = .number v := by
  rcases hscan : Numeral.scan look first c with ⟨near | v, c₁⟩
  · simp [scanNumber, hscan]
  · simp only [scanNumber, hscan]
    constructor
    · rintro ⟨⟩
      exact ⟨v, rfl, rfl⟩
    · rintro ⟨v, hv, rfl⟩
      cases hv
      rfl

/-- A symbol in front of a character below `0x80` is read alike. -/
theorem scanSymbol_look (h : c.SeenFairly look look') {first : Char} {s : Symbol}
    (hscan : scanSymbol look first c = (.ok s, c')) (hsettled : Settled c'.rest) :
    scanSymbol look' first c = (.ok s, c') := by
  unfold scanSymbol at hscan ⊢
  split at hscan
  · exact hscan
  · split at hscan
    · rename_i hdigit
      obtain ⟨v, hv, rfl⟩ := scanNumber_eq_ok_iff.mp hscan
      obtain ⟨hv', hfirst⟩ := Numeral.scan_look h hv hsettled
      rw [← ahead_look h.left h.right hfirst] at hdigit
      rw [if_pos hdigit]
      exact scanNumber_eq_ok_iff.mpr ⟨v, hv', rfl⟩
    · rename_i hdigit
      split at hscan
      · rename_i hletter
        -- a letter is no point, so what follows it is not looked at
        have hpoint : first ≠ '.' := by
          rintro rfl
          cases hletter
        have hdigit' : ¬ (isDecimalDigit first ||
            (first == '.' && isDecimalDigit (look'.ahead c.rest))) = true := by
          simpa [hpoint] using hdigit
        rw [if_neg hdigit', if_pos hletter]
        exact scanWord_look h hscan hsettled
      · cases hscan

/-- No symbol begins with a character from `0x80` on. -/
theorem scanSymbol_ne_ok {first : Char} (hfirst : 0x80 ≤ first.toNat) (s : Symbol) :
    scanSymbol look first c ≠ (.ok s, c') := by
  intro hscan
  unfold scanSymbol at hscan
  split at hscan
  · rename_i s' hchar
    exact Nat.not_lt.mpr hfirst (Symbol.toNat_lt_of_ofChar? hchar)
  · split at hscan
    · obtain ⟨v, hv, _⟩ := scanNumber_eq_ok_iff.mp hscan
      exact Numeral.scan_ne_ok hfirst v hv
    · split at hscan
      · obtain ⟨more, _, hword⟩ := scanWord_eq_ok_iff.mp hscan
        exact Nat.not_lt.mpr hfirst
          (Symbol.toNat_lt_of_ofWord? hword first List.mem_cons_self)
      · cases hscan

variable {ending : Ending}

/-- A token in front of a character below `0x80` is read alike. -/
theorem scan_look (h : c.SeenFairly look look') {t : Token}
    (hscan : scan look ending c = (.ok t, c')) (hsettled : Settled c'.rest) :
    scan look' ending c = (.ok t, c') := by
  have hleads := skipLayout_leads look false c.position c.rest
  rcases hskip : skipLayout look false c.position c.rest with ⟨_ | ⟨p, rest⟩, q⟩
  · simp only [scan, hskip] at hscan
    cases hscan
  · rw [hskip] at hleads
    have hrest := h.of_leads (hleads.trans (leads_cons p rest q))
    rcases hsymbol : scanSymbol look p.read ⟨rest, q.after p.read⟩ with ⟨fault | s, c₁⟩
    · simp only [scan, hskip, hsymbol] at hscan
      cases hscan
    · simp only [scan, hskip, hsymbol] at hscan
      cases hscan
      have hsymbol' := scanSymbol_look hrest hsymbol hsettled
      simp only [scan, skipLayout_look h, hskip, hsymbol']

/-- The end of the text is found alike. -/
theorem scan_look_end (h : c.SeenFairly look look') {stop : Stop}
    (hscan : scan look ending c = (.error stop, c')) (hend : stop.isEnd = true) :
    scan look' ending c = (.error stop, c') := by
  rcases hskip : skipLayout look false c.position c.rest with ⟨_ | ⟨p, rest⟩, q⟩
  · simp only [scan, hskip] at hscan
    simp only [scan, skipLayout_look h, hskip]
    exact hscan
  · rcases hsymbol : scanSymbol look p.read ⟨rest, q.after p.read⟩ with ⟨fault | s, c₁⟩ <;>
      simp only [scan, hskip, hsymbol] at hscan <;> cases hscan
    cases hend

/-- A character from `0x80` on at the start of a token is a fault. -/
theorem scan_of_unsettled (ending : Ending) (h : look.Fair c.rest)
    (hsettled : ¬ Settled c.rest) :
    ∃ fault c', scan look ending c = (.error (.lexical c'.position fault), c') := by
  obtain ⟨rest, q⟩ := c
  cases rest with
  | nil => exact absurd settled_nil hsettled
  | cons p rest =>
      have hwide : 0x80 ≤ p.read.toNat := Nat.not_lt.mp fun hp => hsettled (settled_cons.mpr hp)
      have hlayout : isLayout (look p) = false := by
        rw [(h p List.mem_cons_self).keep_eq narrow_isLayout]
        exact narrow_isLayout.eq_false hwide
      have hslash : p.read ≠ '/' := by
        intro hp
        rw [hp] at hwide
        exact absurd hwide (by decide)
      have hskip : skipLayout look false q (p :: rest) = ⟨p :: rest, q⟩ := by
        simp [skipLayout, hlayout, hslash]
      rcases hsymbol : scanSymbol look p.read ⟨rest, q.after p.read⟩ with ⟨fault | s, c₁⟩
      · exact ⟨fault, c₁, by simp only [scan, hskip, hsymbol]⟩
      · exact absurd hsymbol (scanSymbol_ne_ok hwide s)

end Lexer

end TwoSorted
