import TwoSorted.Proofs.Parser.Symbols
import TwoSorted.Proofs.Text.Lines
import TwoSorted.Proofs.Token.Locality
import TwoSorted.Proofs.Token.LongestMatch

/-!
# White space and comments between tokens

In a text without a fault of its characters, white space and whole comments can be written
in front of any token and behind it. The same symbols are read then, and the text comes to
the same tree, or to the same fault (`parse_of_padded`).

Of what is written behind a token the lexer sees one character when it reads the token, and
skips all of it with what stands in front of the next token. So a proof can go token by
token, with some filler in front of the text that is left.
-/

namespace TwoSorted

open Lookahead Cursor

/-- White space and whole comments. -/
inductive Filler : List UInt8 → Prop
  | nil : Filler []
  | white {b g} (hb : isLayout (latin1 b) = true) (h : Filler g) : Filler (b :: g)
  | comment {body g} (hbody : ∀ b ∈ body, isPlain (latin1 b) = true) (h : Filler g) :
      Filler (0x2F :: 0x2F :: (body ++ 0x0A :: g))

/-- The second text is the first one with filler in front of some of its tokens and behind
some. -/
inductive Padded : List UInt8 → List UInt8 → Prop
  | rest (r : List UInt8) : Padded r r
  | token {skipped w rest name f g rest'}
      (hskipped : IsLongest layout skipped (skipped ++ (w ++ rest)))
      (hlexeme : Lexeme (w ++ rest) w name) (hf : Filler f) (hg : Filler g)
      (h : Padded rest rest') :
      Padded (skipped ++ (w ++ rest)) (skipped ++ (f ++ (w ++ (g ++ rest'))))

/-! ### Skipping -/

/-- The pieces of a comment begin with bytes of it. -/
theorem isPlain_of_mem_pieces {body : List UInt8}
    (hbody : ∀ b ∈ body, isPlain (latin1 b) = true) :
    ∀ p ∈ pieces body, isPlain (byte p) = true := by
  intro p hp
  obtain ⟨b, more, hbytes⟩ := List.exists_cons_of_ne_nil p.bytes_ne_nil
  have hlead : p.lead = b := by rw [Piece.lead, hbytes]; rfl
  have hmem : b ∈ Piece.join (pieces body) :=
    List.mem_flatMap.mpr ⟨p, hp, hbytes ▸ List.mem_cons_self⟩
  rw [join_pieces] at hmem
  rw [byte, hlead]
  exact hbody b hmem

theorem skipLayout_plain {look : Lookahead} {ps : List Piece}
    (h : ∀ p ∈ ps, isPlain (look p) = true) (q : Position) (rest : List Piece) :
    skipLayout look true q (ps ++ rest) = skipLayout look true (advance q ps) rest := by
  induction ps generalizing q with
  | nil => rfl
  | cons p ps ih =>
      obtain ⟨hp, hps⟩ := List.forall_mem_cons.mp h
      simp only [isPlain, Bool.and_eq_true, bne_iff_ne] at hp
      rw [List.cons_append, skipLayout, if_neg hp.1, if_neg hp.2, ih hps, advance_cons]

/-- Filler is skipped. -/
theorem Filler.skip {g : List UInt8} (h : Filler g) (r : List UInt8) (q : Position) :
    ∃ q', skipLayout byte false q (pieces (g ++ r)) = skipLayout byte false q' (pieces r) := by
  induction h generalizing q with
  | nil => exact ⟨q, rfl⟩
  | white hb _ ih =>
      rename_i b g _
      have hnarrow := narrow_isLayout.lt hb
      rw [List.cons_append, pieces_cons_narrow hnarrow, skipLayout,
        byte_char (toNat_latin1_lt hnarrow), if_pos hb]
      exact ih _
  | comment hbody _ ih =>
      rename_i body g _
      have hpieces : pieces (0x2F :: 0x2F :: (body ++ 0x0A :: g) ++ r) =
          .char '/' :: .char '/' :: (pieces body ++ .char '\n' :: pieces (g ++ r)) := by
        rw [List.cons_append, List.cons_append, List.append_assoc, List.cons_append,
          pieces_cons_narrow (by decide), pieces_cons_narrow (by decide),
          pieces_append_ascii (by decide)]
        rfl
      have hslash : byte (.char '/') = '/' := rfl
      have hfeed : byte (.char '\n') = '\n' := rfl
      rw [hpieces]
      simp only [skipLayout, hslash, hfeed, ahead_cons, Piece.read_char,
        skipLayout_plain (isPlain_of_mem_pieces hbody)]
      exact ih _

theorem Filler.cases {g : List UInt8} (h : Filler g) :
    g = [] ∨ ∃ b g', g = b :: g' ∧ b < 0x80 ∧ isGap (latin1 b) = true := by
  cases h with
  | nil => exact .inl rfl
  | white hb _ =>
      exact .inr ⟨_, _, rfl, narrow_isLayout.lt hb, by rw [isGap, hb, Bool.true_or, Bool.true_or]⟩
  | comment _ _ => exact .inr ⟨_, _, rfl, by decide, rfl⟩

section Skip

variable {look : Lookahead} {p : Piece} {ps rest : List Piece} {q q₁ : Position}

/-- A comment does not end in front of a piece, unless that is a `NUL`. -/
theorem skipLayout_true_ne (hp : look p ≠ '\x00') :
    skipLayout look true q (p :: rest) ≠ ⟨p :: rest, q₁⟩ := by
  intro h
  have hshort (b : Bool) : skipLayout look b (q.after p.read) rest ≠ ⟨p :: rest, q₁⟩ := by
    intro h
    have hle := (skipLayout_leads look b (q.after p.read) rest).length_le
    rw [h] at hle
    exact absurd hle (by simp)
  rw [skipLayout, if_neg hp] at h
  split at h
  · exact hshort false h
  · exact hshort true h

/-- Where white space and comments have been skipped, no comment is open. So whatever else
follows them is skipped as if it stood alone. -/
theorem skipLayout_append {inComment : Bool} (hp : look p ≠ '\x00')
    (h : skipLayout look inComment q (ps ++ p :: rest) = ⟨p :: rest, q₁⟩) (q' : Position)
    (ys : List Piece) :
    ∃ q₁', skipLayout look inComment q' (ps ++ ys) = skipLayout look false q₁' ys := by
  induction ps generalizing inComment q q' with
  | nil =>
      cases inComment with
      | false => exact ⟨q', rfl⟩
      | true => exact absurd h (skipLayout_true_ne hp)
  | cons p₁ ps ih =>
      have hlong : (⟨p₁ :: (ps ++ p :: rest), q⟩ : Cursor) ≠ ⟨p :: rest, q₁⟩ := by
        intro h
        have hlength := congrArg List.length (Cursor.mk.inj h).1
        simp only [List.length_cons, List.length_append] at hlength
        omega
      rw [List.cons_append] at h ⊢
      cases inComment with
      | true =>
          rw [skipLayout] at h ⊢
          split at h
          · rename_i hfeed
            rw [if_pos hfeed]
            exact ih h _
          · rename_i hfeed
            split at h
            · exact absurd h hlong
            · rename_i hnul
              rw [if_neg hfeed, if_neg hnul]
              exact ih h _
      | false =>
          rw [skipLayout] at h ⊢
          split at h
          · rename_i hblank
            rw [if_pos hblank]
            exact ih h _
          · rename_i hblank
            split at h
            · rename_i hslash
              -- the second slash is part of the comment, so it is not `p`
              have hslash' : p₁.read = '/' ∧ look.ahead (ps ++ ys) = '/' := by
                cases ps with
                | nil => exact absurd h (skipLayout_true_ne hp)
                | cons => exact hslash
              rw [if_neg hblank, if_pos hslash']
              exact ih h _
            · exact absurd h hlong

end Skip

theorem pieces_append_cons {b : UInt8} (hb : b < 0x80) (s t : List UInt8) :
    pieces (s ++ b :: t) = pieces s ++ pieces (b :: t) := by
  rw [pieces_append_ascii hb, pieces_cons_ascii hb]

theorem skipLayout_of_not_gap {b : UInt8} (hb : b < 0x80) (hgap : isGap (latin1 b) = false)
    (t : List UInt8) (q : Position) :
    skipLayout byte false q (pieces (b :: t)) = ⟨pieces (b :: t), q⟩ := by
  simp only [isGap, Bool.or_eq_false_iff, beq_eq_false_iff_ne] at hgap
  obtain ⟨⟨hblank, hslash⟩, _⟩ := hgap
  rw [pieces_cons_narrow hb, skipLayout, byte_char (toNat_latin1_lt hb)]
  simp [hblank, hslash]

/-- What is skipped in front of a token is skipped with filler around it as well. -/
theorem skipLayout_padded {skipped text f g : List UInt8} {b : UInt8} {q q₁ : Position}
    (hb : b < 0x80) (hgap : isGap (latin1 b) = false)
    (hskip : skipLayout byte false q (pieces (skipped ++ b :: text)) = ⟨pieces (b :: text), q₁⟩)
    (hf : Filler f) (hg : Filler g) (text' : List UInt8) (q' : Position) :
    ∃ q₁', skipLayout byte false q' (pieces (g ++ (skipped ++ (f ++ b :: text')))) =
      ⟨pieces (b :: text'), q₁'⟩ := by
  have hpieces : pieces (skipped ++ (f ++ b :: text')) =
      pieces skipped ++ pieces (f ++ b :: text') := by
    obtain rfl | ⟨x, f, rfl, hx, _⟩ := hf.cases
    · exact pieces_append_cons hb skipped text'
    · exact pieces_append_cons hx skipped (f ++ b :: text')
  have hnul : byte (.char (latin1 b)) ≠ '\x00' := by
    rw [byte_char (toNat_latin1_lt hb)]
    intro hnul
    rw [hnul] at hgap
    cases hgap
  rw [pieces_append_cons hb, pieces_cons_narrow hb] at hskip
  obtain ⟨q₂, h₂⟩ := hg.skip (skipped ++ (f ++ b :: text')) q'
  obtain ⟨q₃, h₃⟩ := skipLayout_append hnul hskip q₂ (pieces (f ++ b :: text'))
  obtain ⟨q₄, h₄⟩ := hf.skip (b :: text') q₃
  refine ⟨q₄, ?_⟩
  rw [h₂, hpieces, h₃, h₄, skipLayout_of_not_gap hb hgap]

/-! ### Tokens -/

namespace Lexer

section Lexemes

variable {t w w' : List UInt8} {name name' : String}

theorem isGap_of_lexeme {b : UInt8} (h : Lexeme (b :: t) w name) :
    isGap (latin1 b) = false := by
  obtain ⟨s, rest, q', _, _, hscan⟩ := scanSymbol_of_lexeme h .start
  refine Bool.eq_false_iff.mpr fun hgap => ?_
  rw [scanSymbol_gap hgap] at hscan
  cases hscan

theorem lexeme_ne_nil (h : Lexeme t w name) : w ≠ [] := by
  rintro rfl
  cases h with
  | word hname hw _ => rcases hname with rfl | rfl <;> cases hw
  | number hw _ =>
      obtain ⟨b, t, heq, _⟩ := starts_of_mem_numerals hw.mem []
      cases heq

/-- The lexeme with which a text begins is determined. -/
theorem lexeme_unique (h : Lexeme t w name) (h' : Lexeme t w' name') : w = w' := by
  cases t with
  | nil => exact absurd h (not_lexeme_nil w name)
  | cons b t =>
      obtain ⟨s, rest, q, ht, _, hscan⟩ := scanSymbol_of_lexeme h .start
      obtain ⟨s', rest', q', ht', _, hscan'⟩ := scanSymbol_of_lexeme h' .start
      rw [hscan] at hscan'
      have hpieces : pieces rest = pieces rest' := (Cursor.mk.inj (Prod.mk.inj hscan').2).1
      obtain rfl := pieces_injective hpieces
      exact List.append_cancel_right (ht.symm.trans ht')

end Lexemes

/-- A token is read alike if filler stands in front of it and the text behind it shows the
same character or a gap. -/
theorem next_padded [Conversions] {skipped text w rest rest' f g : List UInt8} {b : UInt8}
    {s : Symbol} {name : String} {q q₁ q₂ : Position} (hlexeme : Lexeme (b :: text) w name)
    (htext : b :: text = w ++ rest)
    (hskip : skipLayout byte false q (pieces (skipped ++ b :: text)) = ⟨pieces (b :: text), q₁⟩)
    (hsymbol : scanSymbol byte (latin1 b) ⟨pieces text, q₁.after (latin1 b)⟩ =
      (.ok s, ⟨pieces rest, q₂⟩))
    (hf : Filler f) (hg : Filler g) (halike : EndsAlike (pieces rest) (pieces rest'))
    (ending : Ending) (q' : Position) :
    ∃ q₁' q₂', (before (g ++ (skipped ++ (f ++ (w ++ rest')))) ending q').next =
      (.ok ⟨s, q₁'⟩, before rest' ending q₂') := by
  have hnarrow := lt_of_mem_lexeme hlexeme
  obtain ⟨x, more, rfl⟩ := List.exists_cons_of_ne_nil (lexeme_ne_nil hlexeme)
  rw [List.cons_append] at htext
  obtain ⟨rfl, rfl⟩ := List.cons.inj htext
  obtain ⟨hb, hmore⟩ := List.forall_mem_cons.mp hnarrow
  obtain ⟨q₃, hskip'⟩ :=
    skipLayout_padded hb (isGap_of_lexeme hlexeme) hskip hf hg (more ++ rest') q'
  rw [pieces_append_narrow hmore] at hsymbol
  obtain ⟨q₂', hsymbol'⟩ := scanSymbol_swap halike hsymbol (q₃.after (latin1 b))
  rw [← pieces_append_narrow hmore] at hsymbol'
  exact ⟨_, q₂', next_of_scanSymbol hskip' hb hsymbol'⟩

end Lexer

/-! ### Texts -/

section Texts

variable {r r' skipped w rest rest' g : List UInt8} {name : String}

/-- Behind a token a padded text shows the same character as before, or a gap. -/
theorem Padded.endsAlike (h : Padded rest rest') (hg : Filler g) :
    EndsAlike (pieces rest) (pieces (g ++ rest')) := by
  have hgap {f : List UInt8} (hf : Filler f) (hne : f ≠ []) (r r' : List UInt8) :
      EndsAlike (pieces r) (pieces (f ++ r')) := by
    obtain rfl | ⟨x, f, rfl, _, hx⟩ := hf.cases
    · exact absurd rfl hne
    · exact .inr (by rw [List.cons_append, ahead_pieces_cons]; exact hx)
  have hsame (b : UInt8) (r r' : List UInt8) : EndsAlike (pieces (b :: r)) (pieces (b :: r')) :=
    .inl (by rw [ahead_pieces_cons, ahead_pieces_cons])
  by_cases hne : g = []
  · subst hne
    cases h with
    | rest => exact .inl rfl
    | token _ hlexeme hf _ _ =>
        rename_i skipped w rest name f g' rest' _ _ _
        cases skipped with
        | cons x skipped => exact hsame x _ _
        | nil =>
            by_cases hne : f = []
            · subst hne
              obtain ⟨x, more, rfl⟩ := List.exists_cons_of_ne_nil (Lexer.lexeme_ne_nil hlexeme)
              exact hsame x _ _
            · exact hgap hf hne _ _
  · exact hgap hg hne _ _

/-- A padded text has its filler around the first token, and the text behind that is padded
as well. -/
theorem Padded.of_lexeme (h : Padded r r') (hr : r = skipped ++ (w ++ rest))
    (hskipped : IsLongest layout skipped r) (hlexeme : Lexeme (w ++ rest) w name) :
    ∃ f g rest', Filler f ∧ Filler g ∧ Padded rest rest' ∧
      r' = skipped ++ (f ++ (w ++ (g ++ rest'))) := by
  cases h with
  | rest => exact ⟨[], [], rest, .nil, .nil, .rest rest, hr⟩
  | token hskipped' hlexeme' hf hg h =>
      obtain rfl := hskipped.unique hskipped'
      have htext := List.append_cancel_left hr
      rw [htext] at hlexeme'
      obtain rfl := Lexer.lexeme_unique hlexeme hlexeme'
      obtain rfl := List.append_cancel_left htext
      exact ⟨_, _, _, hf, hg, h, rfl⟩

/-- Without a token there is no place for filler. -/
theorem Padded.eq_of_layout (h : Padded r r') (hr : IsLongest layout r r) : r' = r := by
  cases h with
  | rest => rfl
  | token hskipped hlexeme =>
      have htext := List.self_eq_append_right.mp (hskipped.unique hr)
      rw [htext] at hlexeme
      exact absurd hlexeme (Lexer.not_lexeme_nil _ _)

end Texts

section

variable [Conversions]

namespace Lexer

variable {r r' g : List UInt8} {ending : Ending} {q : Position}

/-- A text in which the lexer finds no token is white space and comments. -/
theorem isLongest_of_next_end {l : Lexer}
    (h : (before r ending q).next = (.error .endOfInput, l)) :
    IsLongest layout r r ∧ ending = .endOfFile := by
  obtain ⟨skipped, t, q', hr, hskipped, hskip⟩ := (skips r).1 q
  cases t with
  | nil =>
      rw [List.append_nil] at hr
      rw [next_before_nil hskip] at h
      exact ⟨hr ▸ hskipped, Ending.eq_of_stop_endOfInput (Except.error.inj (congrArg Prod.fst h))⟩
  | cons b t =>
      by_cases hlexeme : ∃ w name, Lexeme (b :: t) w name
      · obtain ⟨w, name, hlexeme⟩ := hlexeme
        obtain ⟨tok, rest, q'', _, _, hnext⟩ := next_of_lexeme hskip hlexeme
        rw [hnext] at h
        cases h
      · obtain ⟨q'', fault, hfault⟩ := next_of_not_lexeme hskip hlexeme
        rw [h] at hfault
        cases hfault

theorem next_of_isLongest (h : IsLongest layout r r) (hg : Filler g) (q : Position) :
    ∃ l, (before (g ++ r) .endOfFile q).next = (.error .endOfInput, l) := by
  obtain ⟨q₁, h₁⟩ := hg.skip r q
  obtain ⟨s, t, q', hr, hs, hskip⟩ := (skips r).1 q₁
  obtain rfl := hs.unique h
  obtain rfl : t = [] := List.self_eq_append_right.mp hr
  exact ⟨_, next_before_nil (h₁.trans hskip)⟩

/-- A padded text is cut into the same symbols. -/
theorem Yields.padded {ts : List Token} {l : Lexer}
    (h : (before r ending q).Yields ts .endOfInput l) (hpadded : Padded r r') (hg : Filler g)
    (q' : Position) :
    ∃ ts' l', (before (g ++ r') ending q').Yields ts' .endOfInput l' ∧
      ts.map Token.symbol = ts'.map Token.symbol := by
  generalize hl : before r ending q = l₀ at h
  generalize hstop : Stop.endOfInput = stop at h
  induction h generalizing r r' g q q' with
  | stopped hnext =>
      subst hl hstop
      obtain ⟨hlayout, rfl⟩ := isLongest_of_next_end hnext
      obtain rfl := hpadded.eq_of_layout hlayout
      obtain ⟨l', hnext'⟩ := next_of_isLongest hlayout hg q'
      exact ⟨[], l', .stopped hnext', rfl⟩
  | token hnext _ ih =>
      subst hl hstop
      obtain ⟨skipped, b, text, w, rest, q₁, q₂, hr, hskipped, htext, hlexeme, hskip, hsymbol,
        hread, _⟩ := exists_of_next_before (congrArg Prod.fst hnext)
      rw [hnext] at hread
      cases hread
      obtain ⟨f, g', rest', hf, hg', hrest, rfl⟩ :=
        hpadded.of_lexeme (htext ▸ hr) hskipped (htext ▸ hlexeme)
      rw [hr] at hskip
      obtain ⟨q₁', q₂', hnext'⟩ := next_padded hlexeme htext hskip hsymbol hf hg
        (hrest.endsAlike hg') ending q'
      obtain ⟨ts', l', hyields, hsymbols⟩ := ih hrest hg' q₂' rfl rfl
      exact ⟨_, l', .token hnext' hyields, by rw [List.map_cons, List.map_cons, hsymbols]⟩

end Lexer

/-- White space and comments between tokens make no difference. Where a text is cut into
tokens up to its end, it and the same text with filler around its tokens come to the same
tree, or both lack input, or they have the same fault. -/
theorem parse_of_padded {src : Source} {ts : List Token} {bytes : List UInt8}
    (hlexes : src.Lexes ts) (hpadded : Padded src.bytes bytes) :
    (∃ e, parse src = .ok e ∧ parse ⟨bytes, src.ending⟩ = .ok e) ∨
    (parse src = .error .endOfInput ∧ parse ⟨bytes, src.ending⟩ = .error .endOfInput) ∨
    ∃ q q' fault, parse src = .error (.syntactic q fault) ∧
      parse ⟨bytes, src.ending⟩ = .error (.syntactic q' fault) := by
  obtain ⟨l, hyields⟩ := hlexes
  obtain ⟨ts', l', hyields', hsymbols⟩ :=
    Lexer.Yields.padded (r := src.bytes) hyields hpadded .nil .start
  have hlikewise :
      Likewise .endOfInput .endOfInput Eq (parse src) (parse ⟨bytes, src.ending⟩) :=
    Lexer.parse_likewise hyields hyields' rfl rfl hsymbols
  generalize parse src = x at hlikewise
  generalize parse ⟨bytes, src.ending⟩ = y at hlikewise
  cases hlikewise with
  | onward h =>
      subst h
      exact .inl ⟨_, rfl, rfl⟩
  | lacking => exact .inr (.inl ⟨rfl, rfl⟩)
  | ended => exact .inr (.inl ⟨rfl, rfl⟩)
  | refused q q' fault => exact .inr (.inr ⟨q, q', fault, rfl, rfl⟩)

end

/-- In `true+)` a comment with a stray byte is written behind the first token and a tab in
front of the last one. -/
theorem parse_of_padded_comment :
    (Source.ofBytes [0x74, 0x72, 0x75, 0x65, 0x2B, 0x29]).Lexes
        [⟨.bool true, ⟨1, 1⟩⟩, ⟨.plus, ⟨1, 5⟩⟩, ⟨.closeParen, ⟨1, 6⟩⟩] ∧
    Padded [0x74, 0x72, 0x75, 0x65, 0x2B, 0x29]
      [0x74, 0x72, 0x75, 0x65, 0x2F, 0x2F, 0xFF, 0x0A, 0x2B, 0x09, 0x29] ∧
    parse (.ofBytes [0x74, 0x72, 0x75, 0x65, 0x2B, 0x29]) =
      .error (.syntactic ⟨1, 6⟩ (.unexpected .closeParen)) ∧
    ∃ q, parse (.ofBytes [0x74, 0x72, 0x75, 0x65, 0x2F, 0x2F, 0xFF, 0x0A, 0x2B, 0x09, 0x29]) =
      .error (.syntactic q (.unexpected .closeParen)) := by
  have hlexes : (Source.ofBytes [0x74, 0x72, 0x75, 0x65, 0x2B, 0x29]).Lexes
      [⟨.bool true, ⟨1, 1⟩⟩, ⟨.plus, ⟨1, 5⟩⟩, ⟨.closeParen, ⟨1, 6⟩⟩] :=
    ⟨_, .of_next rfl (.of_next rfl (.of_next rfl (.of_next_error rfl)))⟩
  have hstart {b : UInt8} (hblank : isLayout (latin1 b) = false) (hslash : latin1 b ≠ '/')
      (t : List UInt8) : IsLongest layout [] (b :: t) := by
    have hpast : PastByte (· == '/') (b :: t) := past_cons (beq_eq_false_iff_ne.mpr hslash)
    exact isLongest_layout_nil (past_cons hblank) hpast.noPrefix_one_mul
  have hpadded : Padded [0x74, 0x72, 0x75, 0x65, 0x2B, 0x29]
      [0x74, 0x72, 0x75, 0x65, 0x2F, 0x2F, 0xFF, 0x0A, 0x2B, 0x09, 0x29] := by
    have hcomment : Filler [0x2F, 0x2F, 0xFF, 0x0A] :=
      @Filler.comment [0xFF] [] (List.forall_mem_singleton.mpr rfl) .nil
    have hplus : Padded [0x2B, 0x29] [0x2B, 0x09, 0x29] :=
      @Padded.token [] [0x2B] [0x29] _ [] [0x09] [0x29] (hstart rfl (by decide) _)
        (.punctuation (by decide)) .nil (.white rfl .nil) (.rest _)
    exact @Padded.token [] [0x74, 0x72, 0x75, 0x65] _ _ [] _ _ (hstart rfl (by decide) _)
      (.word (.inl rfl) rfl (past_cons rfl)) .nil hcomment hplus
  have hparse : parse (.ofBytes [0x74, 0x72, 0x75, 0x65, 0x2B, 0x29]) =
      .error (.syntactic ⟨1, 6⟩ (.unexpected .closeParen)) := rfl
  refine ⟨hlexes, hpadded, hparse, ?_⟩
  obtain ⟨e, h, _⟩ | ⟨h, _⟩ | ⟨q, q', fault, h, h'⟩ := parse_of_padded hlexes hpadded
  · rw [hparse] at h
    cases h
  · rw [hparse] at h
    cases h
  · rw [hparse] at h
    cases h
    exact ⟨q', h'⟩

end TwoSorted
