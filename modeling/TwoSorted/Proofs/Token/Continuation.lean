import TwoSorted.Proofs.Text.Pieces
import TwoSorted.Proofs.Token.Yield

/-!
# A line feed behind a text

A line feed is no part of a token. So what the lexer makes of a text does not
change if a line feed and anything else are written behind it: `c.extend more` is
the cursor `c` with the pieces `more` behind its text, and if `more` begins with a
line feed, a scan from it does the same as a scan from `c`, unless the latter comes
to the end of the text. In that case the scan goes on behind the line feed.
-/

namespace TwoSorted

/-- A run ends at the latest before the first element that does not belong. -/
theorem takeWhile_append_cons {α : Type} (keep : α → Bool) {x : α} (hx : keep x = false)
    (xs ys : List α) : (xs ++ x :: ys).takeWhile keep = xs.takeWhile keep := by
  induction xs with
  | nil => simp [hx]
  | cons y xs ih => simp [List.takeWhile_cons, ih]

theorem dropWhile_append_cons {α : Type} (keep : α → Bool) {x : α} (hx : keep x = false)
    (xs ys : List α) :
    (xs ++ x :: ys).dropWhile keep = xs.dropWhile keep ++ x :: ys := by
  induction xs with
  | nil => simp [hx]
  | cons y xs ih =>
      by_cases hy : keep y
      · simp [hy, ih]
      · simp [hy]

/-- The piece that ends a line. -/
def Piece.newline : Piece := .char '\n'

/-- The pieces end with a line feed. -/
def EndsLine (ps : List Piece) : Prop :=
  ∃ init, ps = init ++ [Piece.newline]

namespace Cursor

/-- The cursor with more pieces behind its text. -/
def extend (c : Cursor) (more : List Piece) : Cursor :=
  ⟨c.rest ++ more, c.position⟩

@[simp] theorem rest_extend (c : Cursor) (more : List Piece) :
    (c.extend more).rest = c.rest ++ more := rfl

theorem extend_extend (c : Cursor) (more more' : List Piece) :
    (c.extend more).extend more' = c.extend (more ++ more') := by
  simp [extend]

end Cursor

section

variable {look : Lookahead} (hlook : look Piece.newline = '\n') (more : List Piece)

namespace Cursor

include hlook in
/-- What is looked for ahead is not found in a line feed, nor at the end. -/
theorem ahead_extend (ps : List Piece) (keep : Char → Bool) (hkeep : keep '\n' = false)
    (hend : keep '\x00' = false) :
    keep (look.ahead (ps ++ .newline :: more)) = keep (look.ahead ps) ∧
      (keep (look.ahead ps) → look.ahead (ps ++ .newline :: more) = look.ahead ps) := by
  cases ps with
  | nil => simp [hlook, hkeep, hend]
  | cons p rest => exact ⟨rfl, fun _ => rfl⟩

include hlook in
/-- A run of pieces that a line feed ends stays within the text. -/
theorem span_extend (c : Cursor) (keep : Char → Bool) (hkeep : keep '\n' = false) :
    (c.extend (.newline :: more)).span look keep =
      ((c.span look keep).1, (c.span look keep).2.extend (.newline :: more)) := by
  have hnewline : keep (look Piece.newline) = false := by rw [hlook, hkeep]
  have htake := takeWhile_append_cons (fun p => keep (look p)) hnewline c.rest more
  have hdrop := dropWhile_append_cons (fun p => keep (look p)) hnewline c.rest more
  simp only [span, extend, htake, hdrop]

include hlook in
theorem takeIf_extend (c : Cursor) (keep : Char → Bool) (hkeep : keep '\n' = false) :
    (c.extend (.newline :: more)).takeIf look keep =
      ((c.takeIf look keep).1, (c.takeIf look keep).2.extend (.newline :: more)) := by
  obtain ⟨rest, q⟩ := c
  cases rest with
  | nil => simp [takeIf, extend, hlook, hkeep]
  | cons p rest =>
      by_cases hp : keep (look p)
      · simp [takeIf, extend, hp]
      · simp [takeIf, extend, hp]

include hlook in
/-- White space and comments that reach the end of the text go on behind the line
feed, without a comment. -/
theorem skipLayout_extend (inComment : Bool) (q : Position) (ps : List Piece) :
    skipLayout look inComment q (ps ++ .newline :: more) =
      match skipLayout look inComment q ps with
      | ⟨[], q'⟩ => skipLayout look false (q'.after '\n') more
      | ⟨p :: rest, q'⟩ => ⟨p :: (rest ++ .newline :: more), q'⟩ := by
  have hread : Piece.newline.read = '\n' := rfl
  have hslash (ps : List Piece) :
      look.ahead (ps ++ .newline :: more) = '/' ↔ look.ahead ps = '/' := by
    cases ps <;> simp [hlook]
  induction ps generalizing inComment q with
  | nil => cases inComment <;> simp [skipLayout, hlook, hread, isLayout]
  | cons p rest ih =>
      cases inComment with
      | false =>
          simp only [skipLayout, List.cons_append, hslash, ih]
          split
          · rfl
          · split <;> rfl
      | true =>
          simp only [skipLayout, List.cons_append, ih]
          split
          · rfl
          · split <;> rfl

end Cursor

namespace Numeral

include hlook in
theorem scanExponent_extend (whole : List Char) (fraction : Option (List Char))
    (c : Cursor) :
    scanExponent look whole fraction (c.extend (.newline :: more)) =
      ((scanExponent look whole fraction c).1, (scanExponent look whole fraction c).2.1,
        (scanExponent look whole fraction c).2.2.extend (.newline :: more)) := by
  simp only [scanExponent, Cursor.takeIf_extend hlook more _ isExponentMark rfl,
    Cursor.takeIf_extend hlook more _ isSign rfl,
    Cursor.span_extend hlook more _ isDecimalDigit rfl]
  split <;> rfl

include hlook in
theorem scanParts_extend (first : Char) (c : Cursor) :
    scanParts look first (c.extend (.newline :: more)) =
      ((scanParts look first c).1, (scanParts look first c).2.1,
        (scanParts look first c).2.2.extend (.newline :: more)) := by
  simp only [scanParts, Cursor.span_extend hlook more _ isDecimalDigit rfl,
    Cursor.span_extend hlook more _ isHexDigit rfl,
    Cursor.takeIf_extend hlook more _ isHexMark rfl,
    Cursor.takeIf_extend hlook more _ (· == '.') rfl]
  split
  · exact scanExponent_extend hlook more _ _ _
  · split
    · rfl
    · split
      · exact scanExponent_extend hlook more _ _ _
      · exact scanExponent_extend hlook more _ _ _

include hlook in
theorem scan_extend [Conversions] (first : Char) (c : Cursor) :
    scan look first (c.extend (.newline :: more)) =
      ((scan look first c).1, (scan look first c).2.extend (.newline :: more)) := by
  have hparts := scanParts_extend hlook more first c
  rcases hc : scanParts look first c with ⟨whole, numeral, c'⟩
  rw [hc] at hparts
  obtain ⟨hletter, hnext⟩ := Cursor.ahead_extend hlook more c'.rest
    (fun next => isLetter next || next == '_') rfl rfl
  simp only [scan, hparts, hc, Cursor.rest_extend, hletter]
  split
  · rfl
  · split
    · rename_i h
      rw [hnext h]
    · split <;> rfl

end Numeral

namespace Lexer

include hlook in
theorem scanWord_extend (first : Char) (c : Cursor) :
    scanWord look first (c.extend (.newline :: more)) =
      ((scanWord look first c).1, (scanWord look first c).2.extend (.newline :: more)) := by
  simp only [scanWord, Cursor.span_extend hlook more c isWordPart rfl]
  split <;> rfl

variable [Conversions]

include hlook in
theorem scanNumber_extend (first : Char) (c : Cursor) :
    scanNumber look first (c.extend (.newline :: more)) =
      ((scanNumber look first c).1, (scanNumber look first c).2.extend (.newline :: more)) := by
  have hscan := Numeral.scan_extend hlook more first c
  rcases hc : Numeral.scan look first c with ⟨near | v, c'⟩ <;> rw [hc] at hscan <;>
    simp only [scanNumber, hc, hscan]

include hlook in
theorem scanSymbol_extend (first : Char) (c : Cursor) :
    scanSymbol look first (c.extend (.newline :: more)) =
      ((scanSymbol look first c).1, (scanSymbol look first c).2.extend (.newline :: more)) := by
  have hahead : isDecimalDigit (look.ahead (c.extend (.newline :: more)).rest) =
      isDecimalDigit (look.ahead c.rest) :=
    (Cursor.ahead_extend hlook more c.rest isDecimalDigit rfl rfl).1
  simp only [scanSymbol, hahead]
  split
  · rfl
  · split
    · exact scanNumber_extend hlook more first c
    · split
      · exact scanWord_extend hlook more first c
      · rfl

include hlook in
/-- A scan comes to the end of the text and goes on behind the line feed, or it is the
same with a line feed and more behind the text. -/
theorem scan_extend_newline (ending : Ending) (c : Cursor) :
    (∃ q, scan look ending c = (.error (ending.stop q), ⟨[], q⟩) ∧
      ∀ more, scan look ending (c.extend (.newline :: more)) =
        scan look ending ⟨more, q.after '\n'⟩) ∨
    (∃ t c', scan look ending c = (.ok t, c') ∧
      ∀ more, scan look ending (c.extend (.newline :: more)) =
        (.ok t, c'.extend (.newline :: more))) ∨
    ∃ q fault c', scan look ending c = (.error (.lexical q fault), c') ∧
      ∀ more, scan look ending (c.extend (.newline :: more)) =
        (.error (.lexical q fault), c'.extend (.newline :: more)) := by
  have hskip' := fun more => Cursor.skipLayout_extend hlook more false c.position c.rest
  rcases hskip : Cursor.skipLayout look false c.position c.rest with ⟨rest, q⟩
  rw [hskip] at hskip'
  cases rest with
  | nil =>
      exact .inl ⟨q, by simp only [scan, hskip],
        fun more => by simp only [scan, Cursor.extend, hskip']⟩
  | cons p rest =>
      right
      have hsymbol := fun more => scanSymbol_extend hlook more p.read ⟨rest, q.after p.read⟩
      rcases hs : scanSymbol look p.read ⟨rest, q.after p.read⟩ with ⟨fault | s, c'⟩ <;>
        rw [hs] at hsymbol <;> simp only [Cursor.extend] at hsymbol
      · exact .inr ⟨c'.position, fault, c', by simp only [scan, hskip, hs],
          fun more => by simp only [scan, Cursor.extend, hskip', hsymbol]⟩
      · exact .inl ⟨⟨s, q.after p.read⟩, c', by simp only [scan, hskip, hs],
          fun more => by simp only [scan, Cursor.extend, hskip', hsymbol]⟩

include hlook in
/-- A scan of a text of whole lines comes to the end of the text, or it is the same
with more behind it. -/
theorem scan_extend {c : Cursor} (h : EndsLine c.rest) (ending : Ending) :
    (∃ q, scan look ending c = (.error (ending.stop q), ⟨[], q⟩)) ∨
    (∃ t c', scan look ending c = (.ok t, c') ∧ EndsLine c'.rest ∧
      scan look ending (c.extend more) = (.ok t, c'.extend more)) ∨
    ∃ q fault c' c'', scan look ending c = (.error (.lexical q fault), c') ∧
      scan look ending (c.extend more) = (.error (.lexical q fault), c'') := by
  obtain ⟨init, hinit⟩ := h
  -- with or without `more`, it is the text before the last line feed with a rest behind it
  have hc : c = Cursor.extend ⟨init, c.position⟩ [.newline] := by simp [Cursor.extend, ← hinit]
  have hmore : c.extend more = Cursor.extend ⟨init, c.position⟩ (.newline :: more) := by
    simp [Cursor.extend, hinit]
  rw [hmore]
  obtain ⟨q, _, hscan⟩ | ⟨t, c', _, hscan⟩ | ⟨q, fault, c', _, hscan⟩ :=
    scan_extend_newline hlook ending ⟨init, c.position⟩
  · exact .inl ⟨q.after '\n', by rw [hc]; exact hscan []⟩
  · refine .inr (.inl ⟨t, c'.extend [.newline], by rw [hc]; exact hscan [], ⟨c'.rest, rfl⟩, ?_⟩)
    rw [hscan, Cursor.extend_extend, List.singleton_append]
  · exact .inr (.inr ⟨q, fault, _, _, by rw [hc]; exact hscan [], hscan more⟩)

end Lexer

end

end TwoSorted
