import TwoSorted.Proofs.Token.Bytewise

/-!
# A token and what follows it

What is read as a token depends on the characters of the token and on the one that is
seen behind them, and on nothing else. If another text stands behind the token instead,
and it shows the same character there or one that no token goes on with, the same token is
read (`Lexer.scanSymbol_swap`), from whatever position.

`Swaps rest rest' c c'` says that the cursors stand in front of the same pieces, with
`rest` behind them for `c` and `rest'` for `c'`. A part of the lexer that does not read into
`rest` does the same from both.
-/

namespace TwoSorted

namespace Cursor

open Lookahead

/-- A character that no token goes on with: white space, a slash, or the end of the
text. -/
def isGap (c : Char) : Bool :=
  isLayout c || c == '/' || c == '\x00'

theorem apart_gap {keep : Char → Bool} (hspace : keep ' ' = false) (htab : keep '\t' = false)
    (hfeed : keep '\n' = false) (hreturn : keep '\r' = false) (hslash : keep '/' = false)
    (hend : keep '\x00' = false) : Apart isGap keep := by
  intro c hc
  simp only [isGap, isLayout, Bool.or_eq_true, beq_iff_eq] at hc
  obtain ((((rfl | rfl) | rfl) | rfl) | rfl) | rfl := hc <;> assumption

/-- Behind a token, `rest'` shows the same character as `rest`, or a gap. -/
def EndsAlike (rest rest' : List Piece) : Prop :=
  byte.ahead rest' = byte.ahead rest ∨ isGap (byte.ahead rest') = true

/-- The cursors are in front of the same pieces, and then `rest` and `rest'` follow. -/
def Swaps (rest rest' : List Piece) (c c' : Cursor) : Prop :=
  ∃ ps, c.rest = ps ++ rest ∧ c'.rest = ps ++ rest'

section Swap

variable {rest rest' : List Piece} {keep : Char → Bool} {c c' c₁ : Cursor} {cs : List Char}

theorem EndsAlike.keep_eq (h : EndsAlike rest rest') (hkeep : Apart isGap keep)
    (hrest : keep (byte.ahead rest) = false) : keep (byte.ahead rest') = false := by
  obtain h | h := h
  · rwa [h]
  · exact hkeep _ h

theorem Swaps.eq_of_rest (h : Swaps rest rest' c c') (hc : c.rest = rest) : c'.rest = rest' := by
  obtain ⟨ps, hps, hps'⟩ := h
  obtain rfl : ps = [] := List.self_eq_append_left.mp (hc.symm.trans hps)
  exact hps'

theorem Leads.suffix (h : c.Leads c') : c'.rest <:+ c.rest := by
  obtain ⟨ps, hrest, _⟩ := h
  exact ⟨ps, hrest.symm⟩

theorem suffix_of_takeIf {look : Lookahead} (h : c.takeIf look keep = (cs, c₁)) :
    c₁.rest <:+ c.rest := by
  have hleads := c.takeIf_leads look keep
  rw [h] at hleads
  exact hleads.suffix

theorem eq_of_takeIf_nil {look : Lookahead} (h : c.takeIf look keep = ([], c₁)) : c₁ = c := by
  obtain ⟨_ | ⟨p, ps⟩, q⟩ := c
  · cases h
    rfl
  · simp only [takeIf] at h
    split at h
    · cases h
    · cases h
      rfl

theorem suffix_of_span {look : Lookahead} (h : c.span look keep = (cs, c₁)) :
    c₁.rest <:+ c.rest := by
  have hleads := c.span_leads look keep
  rw [h] at hleads
  exact hleads.suffix

theorem span_cons_of_pos {look : Lookahead} {p : Piece} (hp : keep (look p) = true)
    {ps : List Piece} {q : Position} :
    span look keep ⟨p :: ps, q⟩ = (p.read :: (span look keep ⟨ps, q.after p.read⟩).1,
      (span look keep ⟨ps, q.after p.read⟩).2) := by
  simp [span, hp]

theorem span_cons_of_neg {look : Lookahead} {p : Piece} (hp : keep (look p) = false)
    {ps : List Piece} {q : Position} :
    span look keep ⟨p :: ps, q⟩ = ([], ⟨p :: ps, q⟩) := by
  simp [span, hp]

theorem span_none (hrest : keep (byte.ahead rest) = false) (q : Position) :
    span byte keep ⟨rest, q⟩ = ([], ⟨rest, q⟩) := by
  cases rest with
  | nil => rfl
  | cons p rest => exact span_cons_of_neg hrest

/-- Nothing of `rest` is read only if its first character does not belong. -/
theorem keep_ahead_of_takeIf (hkeep : Apart isGap keep) {q : Position}
    (htake : takeIf byte keep ⟨rest, q⟩ = (cs, c₁)) (hrest : rest <:+ c₁.rest) :
    keep (byte.ahead rest) = false := by
  cases rest with
  | nil => exact hkeep _ rfl
  | cons p rest =>
      refine Bool.eq_false_iff.mpr fun hp => ?_
      rw [ahead_cons] at hp
      simp only [takeIf, hp, if_true] at htake
      cases htake
      exact absurd hrest.length_le (by simp)

theorem keep_ahead_of_span (hkeep : Apart isGap keep) {q : Position}
    (hspan : span byte keep ⟨rest, q⟩ = (cs, c₁)) (hrest : rest <:+ c₁.rest) :
    keep (byte.ahead rest) = false := by
  cases rest with
  | nil => exact hkeep _ rfl
  | cons p rest =>
      refine Bool.eq_false_iff.mpr fun hp => ?_
      rw [ahead_cons] at hp
      have hle : c₁.rest.length ≤ rest.length := by
        rw [span_cons_of_pos hp] at hspan
        rw [← (Prod.mk.inj hspan).2]
        exact (span_leads byte keep _).length_le
      exact absurd (hrest.length_le.trans hle) (by simp)

variable (halike : EndsAlike rest rest')

include halike

/-- One piece is read alike, unless it is the first one of `rest`. -/
theorem takeIf_swap (hkeep : Apart isGap keep) (h : Swaps rest rest' c c')
    (htake : c.takeIf byte keep = (cs, c₁)) (hrest : rest <:+ c₁.rest) :
    ∃ c₁', c'.takeIf byte keep = (cs, c₁') ∧ Swaps rest rest' c₁ c₁' := by
  obtain ⟨_, q⟩ := c
  obtain ⟨_, q'⟩ := c'
  obtain ⟨ps, rfl, rfl⟩ := h
  cases ps with
  | cons p ps =>
      by_cases hp : keep (byte p) = true
      · simp only [takeIf, List.cons_append, hp, if_true] at htake ⊢
        cases htake
        exact ⟨_, rfl, ps, rfl, rfl⟩
      · simp only [takeIf, List.cons_append, hp] at htake ⊢
        cases htake
        exact ⟨_, rfl, p :: ps, rfl, rfl⟩
  | nil =>
      rw [List.nil_append] at htake ⊢
      have hnone := keep_ahead_of_takeIf hkeep htake hrest
      rw [takeIf_none keep hnone] at htake
      cases htake
      exact ⟨_, takeIf_none keep (halike.keep_eq hkeep hnone) q', [], rfl, rfl⟩

/-- A run is read alike if it ends in front of `rest` or before. -/
theorem span_swap (hkeep : Apart isGap keep) (h : Swaps rest rest' c c')
    (hspan : c.span byte keep = (cs, c₁)) (hrest : rest <:+ c₁.rest) :
    ∃ c₁', c'.span byte keep = (cs, c₁') ∧ Swaps rest rest' c₁ c₁' := by
  obtain ⟨_, q⟩ := c
  obtain ⟨_, q'⟩ := c'
  obtain ⟨ps, rfl, rfl⟩ := h
  induction ps generalizing q q' cs c₁ with
  | nil =>
      rw [List.nil_append] at hspan ⊢
      have hnone := keep_ahead_of_span hkeep hspan hrest
      rw [span_none hnone] at hspan
      cases hspan
      exact ⟨_, span_none (halike.keep_eq hkeep hnone) q', [], rfl, rfl⟩
  | cons p ps ih =>
      rw [List.cons_append] at hspan ⊢
      cases hp : keep (byte p) with
      | true =>
          rcases hrun : span byte keep ⟨ps ++ rest, q.after p.read⟩ with ⟨run, c₂⟩
          rw [span_cons_of_pos hp, hrun] at hspan
          cases hspan
          obtain ⟨c₂', hrun', hswaps⟩ := ih hrest _ (q'.after p.read) hrun
          exact ⟨c₂', by rw [span_cons_of_pos hp, hrun'], hswaps⟩
      | false =>
          rw [span_cons_of_neg hp] at hspan ⊢
          cases hspan
          exact ⟨_, rfl, p :: ps, rfl, rfl⟩

end Swap

end Cursor

/-! ### Numerals -/

namespace Numeral

open Lookahead Cursor

theorem apart_gap_digit : Apart isGap isDecimalDigit :=
  apart_gap rfl rfl rfl rfl rfl rfl

section Swap

variable {rest rest' : List Piece} {c c' c₁ : Cursor} {whole : List Char}
  {fraction : Option (List Char)} {complete : Bool} {n : Numeral} {first : Char}
  (halike : EndsAlike rest rest')

include halike

theorem scanExponent_swap (h : Swaps rest rest' c c')
    (hscan : scanExponent byte whole fraction c = (complete, n, c₁)) (hrest : rest <:+ c₁.rest) :
    ∃ c₁', scanExponent byte whole fraction c' = (complete, n, c₁') ∧ Swaps rest rest' c₁ c₁' := by
  have hsign : Apart isGap isSign := apart_gap rfl rfl rfl rfl rfl rfl
  have hmark : Apart isGap isExponentMark := apart_gap rfl rfl rfl rfl rfl rfl
  rcases htake : c.takeIf byte isExponentMark with ⟨mark, c₂⟩
  rcases htake₂ : c₂.takeIf byte isSign with ⟨sign, c₃⟩
  rcases hspan : c₃.span byte isDecimalDigit with ⟨exponent, c₄⟩
  simp only [scanExponent, htake, htake₂, hspan] at hscan
  split at hscan
  · rename_i hempty
    cases hscan
    obtain ⟨c₂', htake', h₂⟩ := takeIf_swap halike hmark h htake hrest
    exact ⟨c₂', by simp only [scanExponent, htake', hempty, if_true], h₂⟩
  · rename_i hempty
    cases hscan
    have hrest₃ := hrest.trans (suffix_of_span hspan)
    have hrest₂ := hrest₃.trans (suffix_of_takeIf htake₂)
    obtain ⟨c₂', htake', h₂⟩ := takeIf_swap halike hmark h htake hrest₂
    obtain ⟨c₃', htake₂', h₃⟩ := takeIf_swap halike hsign h₂ htake₂ hrest₃
    obtain ⟨c₄', hspan', h₄⟩ := span_swap halike apart_gap_digit h₃ hspan hrest
    refine ⟨c₄', ?_, h₄⟩
    simp only [scanExponent, htake', hempty, htake₂', hspan']
    rfl

omit halike in
theorem suffix_of_scanExponent (h : scanExponent byte whole fraction c = (complete, n, c₁)) :
    c₁.rest <:+ c.rest := by
  have hleads := scanExponent_leads byte whole fraction c
  rw [h] at hleads
  exact hleads.suffix

/-- A run of digits and an exponent behind it are read alike. -/
theorem span_scanExponent_swap (h : Swaps rest rest' c c') {run : List Char} {c₂ : Cursor}
    (hspan : c.span byte isDecimalDigit = (run, c₂))
    (hscan : scanExponent byte whole fraction c₂ = (complete, n, c₁)) (hrest : rest <:+ c₁.rest) :
    ∃ c₂' c₁', c'.span byte isDecimalDigit = (run, c₂') ∧
      scanExponent byte whole fraction c₂' = (complete, n, c₁') ∧ Swaps rest rest' c₁ c₁' := by
  obtain ⟨c₂', hspan', h₂⟩ :=
    span_swap halike apart_gap_digit h hspan (hrest.trans (suffix_of_scanExponent hscan))
  obtain ⟨c₁', hscan', h₁⟩ := scanExponent_swap halike h₂ hscan hrest
  exact ⟨c₂', c₁', hspan', hscan', h₁⟩

theorem scanParts_swap (h : Swaps rest rest' c c')
    (hscan : scanParts byte first c = (complete, n, c₁)) (hrest : rest <:+ c₁.rest) :
    ∃ c₁', scanParts byte first c' = (complete, n, c₁') ∧ Swaps rest rest' c₁ c₁' := by
  have hhexDigit : Apart isGap isHexDigit := apart_gap rfl rfl rfl rfl rfl rfl
  have hhexMark : Apart isGap isHexMark := apart_gap rfl rfl rfl rfl rfl rfl
  have hpointMark : Apart isGap (· == '.') := apart_gap rfl rfl rfl rfl rfl rfl
  rcases hmore : c.span byte isDecimalDigit with ⟨more, c₂⟩
  rcases hmark : c₂.takeIf byte isHexMark with ⟨mark, c₃⟩
  rcases hhex : c₃.span byte isHexDigit with ⟨hex, c₄⟩
  rcases hdot : c₂.takeIf byte (· == '.') with ⟨dot, c₅⟩
  rcases hplaces : c₅.span byte isDecimalDigit with ⟨places, c₆⟩
  simp only [scanParts, hmore, hmark, hhex, hdot, hplaces] at hscan
  split at hscan
  · rename_i hpoint
    obtain ⟨c₂', c₁', hmore', hscan', h₁⟩ := span_scanExponent_swap halike h hmore hscan hrest
    exact ⟨c₁', by simp only [scanParts, hpoint, if_true, hmore', hscan'], h₁⟩
  · rename_i hpoint
    split at hscan
    · rename_i hhexadecimal
      cases hscan
      have hrest₃ := hrest.trans (suffix_of_span hhex)
      have hrest₂ := hrest₃.trans (suffix_of_takeIf hmark)
      obtain ⟨c₂', hmore', h₂⟩ := span_swap halike apart_gap_digit h hmore hrest₂
      obtain ⟨c₃', hmark', h₃⟩ := takeIf_swap halike hhexMark h₂ hmark hrest₃
      obtain ⟨c₄', hhex', h₄⟩ := span_swap halike hhexDigit h₃ hhex hrest
      refine ⟨c₄', ?_, h₄⟩
      simp only [scanParts, hpoint, if_false, hmore', hmark', hhex', if_pos hhexadecimal]
    · rename_i hdecimal
      have hrest₂ : rest <:+ c₂.rest := by
        refine List.IsSuffix.trans ?_ (suffix_of_takeIf hdot)
        split at hscan
        · exact hrest.trans (suffix_of_scanExponent hscan)
        · exact (hrest.trans (suffix_of_scanExponent hscan)).trans (suffix_of_span hplaces)
      obtain ⟨c₂', hmore', h₂⟩ := span_swap halike apart_gap_digit h hmore hrest₂
      rcases hmark' : c₂'.takeIf byte isHexMark with ⟨mark', c₃'⟩
      have hdecimal' : ¬ (first :: more = ['0'] ∧ mark' ≠ []) := by
        rintro ⟨hzero, hne⟩
        obtain rfl : mark = [] := not_not.mp fun hne => hdecimal ⟨hzero, hne⟩
        obtain rfl := eq_of_takeIf_nil hmark
        obtain ⟨_, htake, _⟩ := takeIf_swap halike hhexMark h₂ hmark hrest₂
        rw [hmark'] at htake
        cases htake
        exact hne rfl
      split at hscan
      · rename_i hwhole
        obtain ⟨c₅', hdot', h₅⟩ := takeIf_swap halike hpointMark h₂ hdot
          (hrest.trans (suffix_of_scanExponent hscan))
        obtain ⟨c₁', hscan', h₁⟩ := scanExponent_swap halike h₅ hscan hrest
        refine ⟨c₁', ?_, h₁⟩
        simp only [scanParts, hpoint, if_false, hmore', hmark', hdecimal', hdot', hwhole, if_true,
          hscan']
      · rename_i hwhole
        obtain ⟨c₅', hdot', h₅⟩ := takeIf_swap halike hpointMark h₂ hdot
          ((hrest.trans (suffix_of_scanExponent hscan)).trans (suffix_of_span hplaces))
        obtain ⟨c₆', c₁', hplaces', hscan', h₁⟩ :=
          span_scanExponent_swap halike h₅ hplaces hscan hrest
        refine ⟨c₁', ?_, h₁⟩
        simp only [scanParts, hpoint, if_false, hmore', hmark', hdecimal', hdot', hwhole,
          hplaces', hscan']
        rfl

/-- A numeral that gives a number is read alike up to `rest`. -/
theorem scan_swap [Conversions] (h : Swaps rest rest' c c') {v : Binary64}
    (hscan : scan byte first c = (.ok v, c₁)) (hrest : c₁.rest = rest) :
    ∃ c₁', scan byte first c' = (.ok v, c₁') ∧ c₁'.rest = rest' := by
  obtain ⟨n, hparts, hnext, hvalue⟩ := scan_eq_ok_iff.mp hscan
  obtain ⟨c₁', hparts', h₁⟩ := scanParts_swap halike h hparts (by rw [hrest])
  have hrest' := h₁.eq_of_rest hrest
  have hletter : Apart isGap fun next => isLetter next || next == '_' :=
    apart_gap rfl rfl rfl rfl rfl rfl
  rw [hrest] at hnext
  refine ⟨c₁', scan_eq_ok_iff.mpr ⟨n, hparts', ?_, hvalue⟩, hrest'⟩
  rw [hrest']
  exact halike.keep_eq hletter hnext

end Swap

/-- A number that begins with a point reads the digit behind it. -/
theorem length_lt_of_scan_point [Conversions] {p : Piece} {ps : List Piece} {q : Position}
    {v : Binary64} {c : Cursor} (hp : isDecimalDigit (byte p) = true)
    (hscan : scan byte '.' ⟨p :: ps, q⟩ = (.ok v, c)) : c.rest.length ≤ ps.length := by
  obtain ⟨n, hparts, _⟩ := scan_eq_ok_iff.mp hscan
  rw [scanParts, if_pos rfl, span_cons_of_pos hp] at hparts
  have hle := (suffix_of_scanExponent hparts).length_le
  exact hle.trans (span_leads byte isDecimalDigit _).length_le

end Numeral

/-! ### Symbols -/

variable [Conversions]

namespace Lexer

open Lookahead Cursor

variable {ps rest rest' : List Piece} {q q₁ : Position} {first : Char} {s : Symbol}

/-- No symbol begins with a gap. -/
theorem scanSymbol_gap (hfirst : isGap first = true) (c : Cursor) :
    scanSymbol byte first c = (.error (.unexpectedCharacter first), c) := by
  simp only [isGap, isLayout, Bool.or_eq_true, beq_iff_eq] at hfirst
  obtain ((((rfl | rfl) | rfl) | rfl) | rfl) | rfl := hfirst <;> rfl

/-- A number begins alike whatever follows it: behind a point there is a digit of its
own. -/
theorem starts_swap
    (hstarts : (isDecimalDigit first ||
      (first == '.' && isDecimalDigit (byte.ahead (ps ++ rest)))) = true)
    (hscan : scanNumber byte first ⟨ps ++ rest, q⟩ = (.ok s, ⟨rest, q₁⟩)) :
    (isDecimalDigit first ||
      (first == '.' && isDecimalDigit (byte.ahead (ps ++ rest')))) = true := by
  cases ps with
  | cons p ps => exact hstarts
  | nil =>
      obtain hfirst | hpoint := Bool.or_eq_true_iff.mp hstarts
      · rw [hfirst, Bool.true_or]
      · obtain ⟨hfirst, hdigit⟩ := Bool.and_eq_true_iff.mp hpoint
        obtain rfl := beq_iff_eq.mp hfirst
        obtain ⟨v, hv, _⟩ := scanNumber_eq_ok_iff.mp hscan
        cases rest with
        | nil => cases hdigit
        | cons p rest => exact absurd (Numeral.length_lt_of_scan_point hdigit hv) (by simp)

/-- A symbol is read alike with another text behind it. -/
theorem scanSymbol_swap (halike : EndsAlike rest rest')
    (hscan : scanSymbol byte first ⟨ps ++ rest, q⟩ = (.ok s, ⟨rest, q₁⟩)) (q' : Position) :
    ∃ q₁', scanSymbol byte first ⟨ps ++ rest', q'⟩ = (.ok s, ⟨rest', q₁'⟩) := by
  have hswaps : Swaps rest rest' ⟨ps ++ rest, q⟩ ⟨ps ++ rest', q'⟩ := ⟨ps, rfl, rfl⟩
  unfold scanSymbol at hscan ⊢
  split at hscan
  · obtain ⟨hs, hc⟩ := Prod.mk.inj hscan
    have hrest : ps ++ rest' = rest' := hswaps.eq_of_rest (Cursor.mk.inj hc).1
    exact ⟨q', by rw [hs, hrest]⟩
  · split at hscan
    · rename_i hstarts
      obtain ⟨v, hv, rfl⟩ := scanNumber_eq_ok_iff.mp hscan
      obtain ⟨⟨_, q₁'⟩, hv', rfl⟩ := Numeral.scan_swap halike hswaps hv rfl
      rw [if_pos (starts_swap hstarts hscan)]
      exact ⟨q₁', scanNumber_eq_ok_iff.mpr ⟨v, hv', rfl⟩⟩
    · rename_i hstarts
      split at hscan
      · rename_i hletter
        -- a letter is no point, so what follows it is not looked at
        have hpoint : first ≠ '.' := by
          rintro rfl
          cases hletter
        have hstarts' : ¬ (isDecimalDigit first ||
            (first == '.' && isDecimalDigit (byte.ahead (ps ++ rest')))) = true := by
          simpa [hpoint] using hstarts
        obtain ⟨more, hspan, hword⟩ := scanWord_eq_ok_iff.mp hscan
        obtain ⟨⟨_, q₁'⟩, hspan', h₁⟩ :=
          span_swap halike (apart_gap rfl rfl rfl rfl rfl rfl) hswaps hspan (List.suffix_refl rest)
        obtain rfl := h₁.eq_of_rest rfl
        rw [if_neg hstarts', if_pos hletter]
        exact ⟨q₁', scanWord_eq_ok_iff.mpr ⟨more, hspan', hword⟩⟩
      · cases hscan

end Lexer

end TwoSorted
