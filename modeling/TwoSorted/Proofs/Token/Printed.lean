import TwoSorted.Proofs.Number.Text
import TwoSorted.Proofs.Token.Yield

/-!
# The tokens of a printed expression

`l.Gives ss l'` says that the lexer `l` gives tokens of the symbols `ss` one
after another and has become `l'` then. A printed expression is read as the
symbols that it was printed from (`Expr.reads_text`), provided that all its
operands are there and that its numbers are finite and have no sign: a sign is
no part of a numeral.
-/

namespace TwoSorted

namespace Expr

/-- No operand is missing, and every number is finite and has no sign. -/
def Printable : Expr → Prop
  | missing => False
  | bool _ => True
  | number v => v.isNaN = false ∧ v.isInfinite = false ∧ v.isNegative = false
  | add left right => left.Printable ∧ right.Printable
  | cond test yes no => test.Printable ∧ yes.Printable ∧ no.Printable

instance decidablePrintable : (e : Expr) → Decidable e.Printable
  | missing => inferInstanceAs (Decidable False)
  | bool _ => inferInstanceAs (Decidable True)
  | number _ => inferInstanceAs (Decidable (_ ∧ _ ∧ _))
  | add left right =>
    have := decidablePrintable left
    have := decidablePrintable right
    inferInstanceAs (Decidable (_ ∧ _))
  | cond test yes no =>
    have := decidablePrintable test
    have := decidablePrintable yes
    have := decidablePrintable no
    inferInstanceAs (Decidable (_ ∧ _ ∧ _))

/-- The symbols of the expression as it is printed. -/
def symbols : Expr → List Symbol
  | missing => []
  | bool b => [.bool b]
  | number v => [.number v]
  | add left right =>
    .openParen :: (left.symbols ++ .plus :: (right.symbols ++ [.closeParen]))
  | cond test yes no =>
    .openParen :: (test.symbols ++ .question ::
      (yes.symbols ++ .colon :: (no.symbols ++ [.closeParen])))

theorem symbols_ne_nil {e : Expr} (h : e.Printable) : e.symbols ≠ [] := by
  cases e with
  | missing => exact h.elim
  | bool b => simp [symbols]
  | number v => simp [symbols]
  | add left right => simp [symbols]
  | cond test yes no => simp [symbols]

/-- Expressions are printed in characters below `0x80`. -/
theorem toNat_lt_of_mem_text {e : Expr} (h : e.Printable) :
    ∀ c ∈ e.text.toList, c.toNat < 0x80 := by
  induction e with
  | missing => exact h.elim
  | bool b => cases b <;> simp [text]
  | number v => exact (Binary64.denotes_text h.1 h.2.1 h.2.2).toNat_lt
  | add left right ihleft ihright =>
      have hleft := ihleft h.1
      have hright := ihright h.2
      simp only [text, String.toList_append, List.forall_mem_append]
      exact ⟨⟨⟨⟨by simp, hleft⟩, by simp⟩, hright⟩, by simp⟩
  | cond test yes no ihtest ihyes ihno =>
      have htest := ihtest h.1
      have hyes := ihyes h.2.1
      have hno := ihno h.2.2
      simp only [text, String.toList_append, List.forall_mem_append]
      exact ⟨⟨⟨⟨⟨⟨by simp, htest⟩, by simp⟩, hyes⟩, by simp⟩, hno⟩, by simp⟩

end Expr

namespace Lexer

/-- The tokens come one after another and spell `ss`. -/
inductive Gives : Lexer → List Symbol → Lexer → Prop
  | nil {l} : Gives l [] l
  | cons {l t l₁ ss l'} (h : l.next = (.ok t, l₁)) (hrest : Gives l₁ ss l') :
      Gives l (t.symbol :: ss) l'

theorem Gives.trans {l l₁ l' : Lexer} {ss ss' : List Symbol} (h : l.Gives ss l₁)
    (h' : l₁.Gives ss' l') : l.Gives (ss ++ ss') l' := by
  induction h with
  | nil => exact h'
  | cons hnext _ ih => exact .cons hnext (ih h')

theorem Gives.yields {l l₁ l' : Lexer} {ss : List Symbol} {ts : List Token} {stop : Stop}
    (h : l.Gives ss l₁) (h' : l₁.Yields ts stop l') :
    ∃ us, us.map Token.symbol = ss ∧ l.Yields (us ++ ts) stop l' := by
  induction h with
  | nil => exact ⟨[], rfl, h'⟩
  | @cons l t l₁ ss l' hnext _ ih =>
      obtain ⟨us, rfl, hus⟩ := ih h'
      exact ⟨t :: us, rfl, .token hnext hus⟩

/-- The lexer in front of the pieces `rest` of a text that is all there. -/
def onText (rest : List Piece) (q : Position) : Lexer :=
  ⟨Lookahead.byte, .endOfFile, ⟨rest, q⟩, []⟩

/-- The symbols `ss` are read from `ps` and leave `rest`, wherever this begins. -/
def Reads (ps : List Piece) (ss : List Symbol) (rest : List Piece) : Prop :=
  ∀ q, ∃ q', (onText ps q).Gives ss (onText rest q')

theorem Reads.trans {ps qs rest : List Piece} {ss ss' : List Symbol} (h : Reads ps ss qs)
    (h' : Reads qs ss' rest) : Reads ps (ss ++ ss') rest := by
  intro q
  obtain ⟨q₁, hss⟩ := h q
  obtain ⟨q', hss'⟩ := h' q₁
  exact ⟨q', hss.trans hss'⟩

/-- A blank in front of a symbol makes no difference. -/
theorem Reads.blank {ps rest : List Piece} {ss : List Symbol} (h : Reads ps ss rest)
    (hne : ss ≠ []) : Reads (.char ' ' :: ps) ss rest := by
  intro q
  have hlayout : Cursor.isLayout (Lookahead.byte (.char ' ')) = true := rfl
  have hskip : Cursor.skipLayout Lookahead.byte false q (.char ' ' :: ps) =
      Cursor.skipLayout Lookahead.byte false (q.after ' ') ps := by
    simp only [Cursor.skipLayout, hlayout, if_true, Piece.read_char]
  have hnext : (onText (.char ' ' :: ps) q).next = (onText ps (q.after ' ')).next := by
    simp only [next, onText, scan, hskip]
  obtain ⟨q', hss⟩ := h (q.after ' ')
  refine ⟨q', ?_⟩
  cases hss with
  | nil => exact absurd rfl hne
  | cons hfirst hrest => exact .cons (hnext.trans hfirst) hrest

/-- A symbol that begins with `c` is read in front of `c`. -/
theorem reads_of_scanSymbol {c : Char} (hc : c.toNat < 0x80)
    (hlayout : Cursor.isLayout c = false) (hslash : c ≠ '/') {s : Symbol}
    {ps rest : List Piece}
    (h : ∀ q, ∃ q', scanSymbol Lookahead.byte c ⟨ps, q⟩ = (.ok s, ⟨rest, q'⟩)) :
    Reads (.char c :: ps) [s] rest := by
  intro q
  have hskip : Cursor.skipLayout Lookahead.byte false q (.char c :: ps) =
      ⟨.char c :: ps, q⟩ := by
    simp [Cursor.skipLayout, Lookahead.byte_char hc, hlayout, hslash]
  obtain ⟨q', hscan⟩ := h (q.after c)
  refine ⟨q', .cons (t := ⟨s, q.after c⟩) ?_ .nil⟩
  simp only [next, onText, scan, hskip, Piece.read_char, hscan]

theorem reads_ofChar {c : Char} {s : Symbol} (h : Symbol.ofChar? c = some s)
    (rest : List Piece) : Reads (.char c :: rest) [s] rest := by
  have hscan (q : Position) : scanSymbol Lookahead.byte c ⟨rest, q⟩ = (.ok s, ⟨rest, q⟩) := by
    simp only [scanSymbol, h]
  unfold Symbol.ofChar? at h
  split at h <;> cases h <;>
    exact reads_of_scanSymbol (by decide) (by decide) (by decide) fun q => ⟨q, hscan q⟩

/-! ### Literals -/

theorem scanWord_chars (first : Char) {more : List Char}
    (hmore : ∀ c ∈ more, c.toNat < 0x80 ∧ isWordPart c = true) {s : Symbol}
    (hword : Symbol.ofWord? (first :: more) = some s) {rest : List Piece}
    (hrest : EndsLiteral (Lookahead.byte.ahead rest)) (q : Position) :
    ∃ q', scanWord Lookahead.byte first ⟨more.map .char ++ rest, q⟩ =
      (.ok s, ⟨rest, q'⟩) := by
  have hend : isWordPart (Lookahead.byte.ahead rest) = false := by
    rcases hrest with h | h | h <;> rw [h] <;> rfl
  obtain ⟨q', hspan⟩ := Cursor.span_chars hmore hend q
  exact ⟨q', by simp only [scanWord, hspan, hword]⟩

theorem reads_bool (b : Bool) {rest : List Piece}
    (hrest : EndsLiteral (Lookahead.byte.ahead rest)) :
    Reads ((Expr.bool b).text.toList.map .char ++ rest) [.bool b] rest := by
  cases b with
  | true =>
      have hmore : ∀ c ∈ "rue".toList, c.toNat < 0x80 ∧ isWordPart c = true := by
        simp [isWordPart, isLetter]
      exact reads_of_scanSymbol (by decide) rfl (by decide)
        (scanWord_chars 't' hmore rfl hrest)
  | false =>
      have hmore : ∀ c ∈ "alse".toList, c.toNat < 0x80 ∧ isWordPart c = true := by
        simp [isWordPart, isLetter]
      exact reads_of_scanSymbol (by decide) rfl (by decide)
        (scanWord_chars 'f' hmore rfl hrest)

theorem isLayout_of_isDigit {c : Char} (h : c.isDigit = true) :
    Cursor.isLayout c = false := by
  rw [Bool.eq_false_iff]
  intro hlayout
  simp only [Cursor.isLayout, Bool.or_eq_true, beq_iff_eq] at hlayout
  rcases hlayout with ((rfl | rfl) | rfl) | rfl <;> cases h

/-- A digit begins nothing but a number. -/
theorem scanSymbol_of_isDigit {c : Char} (h : c.isDigit = true) (look : Lookahead)
    (cursor : Cursor) : scanSymbol look c cursor = scanNumber look c cursor := by
  have hnone : Symbol.ofChar? c = none := by
    unfold Symbol.ofChar?
    split <;> simp_all
  simp [scanSymbol, hnone, isDecimalDigit_of_isDigit h]

theorem reads_number {cs : List Char} {v : Binary64} (h : Numeral.Denotes cs v)
    {rest : List Piece} (hrest : EndsLiteral (Lookahead.byte.ahead rest)) :
    Reads (cs.map .char ++ rest) [.number v] rest := by
  obtain ⟨first, more, rfl, hfirst, hscan⟩ := h.scan
  have hslash : first ≠ '/' := by
    rintro rfl
    cases hfirst
  have hsymbol (q : Position) :
      ∃ q', scanSymbol Lookahead.byte first ⟨more.map .char ++ rest, q⟩ =
        (.ok (.number v), ⟨rest, q'⟩) := by
    obtain ⟨q', hnumeral⟩ := hscan rest q hrest
    exact ⟨q', by rw [scanSymbol_of_isDigit hfirst, scanNumber, hnumeral]⟩
  exact reads_of_scanSymbol (toNat_lt_of_isDigit hfirst) (isLayout_of_isDigit hfirst)
    hslash hsymbol

end Lexer

namespace Expr

open Lexer

/-- An operator has a blank on either side, and its second operand behind it. -/
theorem reads_operator {c : Char} {s : Symbol} (hc : Symbol.ofChar? c = some s) {e : Expr}
    (he : e.Printable) {ps rest : List Piece} (h : Reads ps e.symbols rest) :
    Reads (.char ' ' :: .char c :: .char ' ' :: ps) (s :: e.symbols) rest :=
  ((reads_ofChar hc _).blank (by simp)).trans (h.blank (symbols_ne_nil he))

/-- A printed expression is read as the symbols that it was printed from. -/
theorem reads_text {e : Expr} (h : e.Printable) {rest : List Piece}
    (hrest : EndsLiteral (Lookahead.byte.ahead rest)) :
    Reads (e.text.toList.map .char ++ rest) e.symbols rest := by
  have hblank (ps : List Piece) : EndsLiteral (Lookahead.byte.ahead (.char ' ' :: ps)) :=
    .inl rfl
  have hparen (ps : List Piece) : EndsLiteral (Lookahead.byte.ahead (.char ')' :: ps)) :=
    .inr (.inl rfl)
  have hclose (ps : List Piece) := reads_ofChar (c := ')') rfl ps
  -- an operand is followed by the rest of its parent, so `rest` varies
  induction e generalizing rest with
  | missing => exact h.elim
  | bool b => exact reads_bool b hrest
  | number v => exact reads_number (Binary64.denotes_text h.1 h.2.1 h.2.2) hrest
  | add left right ihleft ihright =>
      obtain ⟨hleft, hright⟩ := h
      have htext : (add left right).text.toList.map Piece.char ++ rest =
          .char '(' :: (left.text.toList.map .char ++ .char ' ' :: .char '+' :: .char ' ' ::
            (right.text.toList.map .char ++ .char ')' :: rest)) := by
        simp [text]
      have hplus := reads_operator (c := '+') rfl hright (ihright hright (hparen rest))
      rw [htext]
      exact (reads_ofChar rfl _).trans
        ((ihleft hleft (hblank _)).trans (hplus.trans (hclose rest)))
  | cond test yes no ihtest ihyes ihno =>
      obtain ⟨htest, hyes, hno⟩ := h
      have htext : (cond test yes no).text.toList.map Piece.char ++ rest =
          .char '(' :: (test.text.toList.map .char ++ .char ' ' :: .char '?' :: .char ' ' ::
            (yes.text.toList.map .char ++ .char ' ' :: .char ':' :: .char ' ' ::
              (no.text.toList.map .char ++ .char ')' :: rest))) := by
        simp [text]
      have hcolon := reads_operator (c := ':') rfl hno (ihno hno (hparen rest))
      have hquestion := (reads_operator (c := '?') rfl hyes (ihyes hyes (hblank _))).trans
        (hcolon.trans (hclose rest))
      rw [htext]
      exact (reads_ofChar rfl _).trans ((ihtest htest (hblank _)).trans hquestion)

end Expr

end TwoSorted
