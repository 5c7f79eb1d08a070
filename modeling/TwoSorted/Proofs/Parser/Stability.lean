import TwoSorted.Proofs.Parser.Language
import TwoSorted.Proofs.Token.Continuation

/-!
# Rejection is stable under more input

A text of whole lines that is rejected stays rejected whatever is written behind
it, and for the same reason. So a session that reads a program line by line never
gives up on the beginning of a valid one. Only the fault of too deep a nesting at
the very end of the text can change: the token that more input puts there may be
a faulty one, or be named in the fault instead of the end.

The two runs are compared token by token: `extension more` relates a lexer that
has whole lines left to the same lexer with `more` behind them.
-/

namespace TwoSorted

theorem pieces_append_of_endsLine {p : List UInt8} (hp : p.getLast? = some 0x0A)
    (q : List UInt8) : EndsLine (pieces p) ∧ pieces (p ++ q) = pieces p ++ pieces q := by
  obtain ⟨init, rfl⟩ := List.getLast?_eq_some_iff.mp hp
  have hpieces := fun rest => pieces_append_ascii (x := 0x0A) (by decide) init rest
  have hp : pieces (init ++ [0x0A]) = pieces init ++ [Piece.newline] := hpieces []
  refine ⟨⟨pieces init, hp⟩, ?_⟩
  rw [hp, List.append_assoc, List.singleton_append, hpieces]
  simp [Piece.newline]

section

variable [Conversions]

namespace Lexer

/-- The lexer with more pieces behind its text. -/
def extend (l : Lexer) (more : List Piece) : Lexer :=
  { l with cursor := l.cursor.extend more }

/-- Whole lines are left, the last of which ends the file. -/
structure InLines (l : Lexer) : Prop where
  look_eq : l.look = Lookahead.byte
  ending_eq : l.ending = .endOfFile
  endsLine : EndsLine l.cursor.rest

/-- A lexer comes to the end of its text, or does the same with more behind it. -/
theorem next_extend {l : Lexer} (h : l.InLines) (more : List Piece) :
    (∃ l', l.next = (.error .endOfInput, l')) ∨
    (∃ t l', l.next = (.ok t, l') ∧ l'.InLines ∧
      (l.extend more).next = (.ok t, l'.extend more)) ∨
    ∃ q fault l' l'', l.next = (.error (.lexical q fault), l') ∧
      (l.extend more).next = (.error (.lexical q fault), l'') := by
  cases hheld : l.held with
  | cons t held =>
      exact .inr (.inl ⟨t, _, next_of_held hheld, ⟨h.look_eq, h.ending_eq, h.endsLine⟩,
        next_of_held (l := l.extend more) hheld⟩)
  | nil =>
      have hlook : l.look Piece.newline = '\n' := by
        rw [h.look_eq]
        rfl
      obtain ⟨q, hscan⟩ | ⟨t, c, hscan, hends, hscan'⟩ | ⟨q, fault, c, c', hscan, hscan'⟩ :=
        scan_extend hlook more h.endsLine l.ending
      · rw [h.ending_eq] at hscan
        exact .inl ⟨_, next_of_scan hheld (by rw [h.ending_eq, hscan]; rfl)⟩
      · exact .inr (.inl ⟨t, _, next_of_scan hheld hscan, ⟨h.look_eq, h.ending_eq, hends⟩,
          next_of_scan (l := l.extend more) hheld hscan'⟩)
      · exact .inr (.inr ⟨q, fault, _, _, next_of_scan hheld hscan,
          next_of_scan (l := l.extend more) hheld hscan'⟩)

/-- The second lexer has `more` behind the whole lines that are left. -/
def Continues (more : List Piece) (l l' : Lexer) : Prop :=
  l.InLines ∧ l' = l.extend more

/-- Nothing is left of the text. -/
def AtEnd (l : Lexer) : Prop :=
  l.next = (.error .endOfInput, l)

theorem ahead_continues {more : List Piece} {l l' : Lexer} (h : Continues more l l') :
    Agree True (fun x x' => x.1 = x'.1 ∧ Continues more x.2 x'.2)
      (fun x => x.1.symbol = .endOfText ∧ AtEnd x.2) l.ahead l'.ahead := by
  obtain ⟨hl, rfl⟩ := h
  obtain ⟨l₁, hnext⟩ | ⟨t, l₁, hnext, hl₁, hnext'⟩ | ⟨q, fault, l₁, l₁', hnext, hnext'⟩ :=
    next_extend hl more
  · rw [ahead_of_end hnext rfl]
    exact .ended ⟨rfl, next_of_end hnext rfl⟩
  · cases hheld : l.held with
    | cons t' held =>
        rw [ahead_of_held hheld, ahead_of_held (l := l.extend more) hheld]
        exact .onward ⟨rfl, hl, rfl⟩
    | nil =>
        rw [ahead_of_unheld hheld hnext, ahead_of_unheld (l := l.extend more) hheld hnext']
        exact .onward ⟨rfl, ⟨hl₁.look_eq, hl₁.ending_eq, hl₁.endsLine⟩, rfl⟩
  · rw [ahead_of_stop hnext rfl, ahead_of_stop hnext' rfl]
    exact .stopped _

theorem expect_continues {more : List Piece} {l l' : Lexer} (c : Symbol)
    (h : Continues more l l') :
    Agree True (Continues more) (fun _ => False) (l.expect c) (l'.expect c) := by
  obtain ⟨hl, rfl⟩ := h
  obtain ⟨l₁, hnext⟩ | ⟨t, l₁, hnext, hl₁, hnext'⟩ | ⟨q, fault, l₁, l₁', hnext, hnext'⟩ :=
    next_extend hl more
  · rw [expect_of_next_error hnext]
    exact .lacking trivial
  · rw [expect_of_next hnext, expect_of_next hnext']
    by_cases hsymbol : t.symbol = c
    · simp only [hsymbol, if_true]
      exact .onward ⟨hl₁, rfl⟩
    · simp only [hsymbol, if_false]
      exact .stopped _
  · rw [expect_of_next_error hnext, expect_of_next_error hnext']
    exact .stopped _

/-- A lexer and the same lexer with `more` behind its text, side by side. -/
def extension (more : List Piece) : Comparison reader reader where
  longer := True
  Meets := Continues more
  Over := AtEnd
  ahead_agree := ahead_continues
  take_agree := expect_continues
  expect_agree := expect_continues
  ahead_over := fun h => ⟨_, _, ahead_of_end h rfl, rfl, h⟩
  expect_over := fun c h => expect_of_next_error h c
  longer_of_over := fun _ => trivial
  ahead_ne := ahead_ne

/-- Reading whole lines as an expression, and reading them with `more` behind. -/
theorem parse_extend_agree {l : Lexer} (h : l.InLines) (hheld : l.held = [])
    (more : List Piece) :
    Agree True Eq (fun _ => True) l.parse (l.extend more).parse := by
  have hsize : l.size = l.cursor.rest.length := by simp [size, hheld]
  have hsize' : (l.extend more).size = (l.extend more).cursor.rest.length := by
    simp [size, extend, hheld]
  -- one bound that is large enough for both texts
  let large := l.size + (l.extend more).size + 1
  have hparse : l.parse = Parser.program reader large l :=
    Parser.program_congr reader_sized (by omega) (by omega)
  have hparse' : (l.extend more).parse = Parser.program reader large (l.extend more) :=
    Parser.program_congr reader_sized (by omega) (by omega)
  rw [hparse, hparse']
  exact (extension more).program_agree large ⟨h, rfl⟩

end Lexer

/-- A text of whole lines that is rejected is rejected with anything behind it,
and with the same fault unless that is one of nesting at the end of the text. -/
theorem parse_append_of_rejected (p q : List UInt8) (hp : p.getLast? = some 0x0A)
    {x : Stop} (hx : x ≠ .endOfInput) (h : parse (.ofBytes p) = .error x) :
    ∃ y, parse (.ofBytes (p ++ q)) = .error y ∧ y.isEnd = false ∧
      ((∀ pos, x ≠ .syntactic pos (.tooManyLevels .endOfText)) → y = x) := by
  obtain ⟨hends, happend⟩ := pieces_append_of_endsLine hp q
  have hlines : (Lexer.start (.ofBytes p)).InLines := ⟨rfl, rfl, hends⟩
  have hextend : Lexer.start (.ofBytes (p ++ q)) =
      (Lexer.start (.ofBytes p)).extend (pieces q) := by
    simp [Lexer.start, Lexer.startWith, Lexer.extend, Cursor.extend, Source.ofBytes,
      happend]
  have hagree := Lexer.parse_extend_agree hlines rfl (pieces q)
  rw [← hextend] at hagree
  change Agree True Eq (fun _ => True) (parse (.ofBytes p)) (parse (.ofBytes (p ++ q)))
    at hagree
  rw [h] at hagree
  have hfault {y : Stop} := @isEnd_of_parse _ (p ++ q) y
  generalize parse (.ofBytes (p ++ q)) = outcome at hagree hfault ⊢
  cases hagree with
  | stopped x => exact ⟨x, rfl, hfault rfl hx, fun _ => rfl⟩
  | level _ hy => exact ⟨_, rfl, hfault rfl hy, fun hlevel => absurd rfl (hlevel _)⟩
  | lacking _ => exact absurd rfl hx

end

/-- A stray parenthesis in the second line, behind a comment with a stray byte. -/
theorem parse_append_of_rejected_paren :
    parse (.ofBytes [0x74, 0x72, 0x75, 0x65, 0x2F, 0x2F, 0xFF, 0x0A, 0x29, 0x0A]) =
        .error (.syntactic ⟨2, 1⟩ (.trailing .closeParen)) ∧
      parse (.ofBytes
          ([0x74, 0x72, 0x75, 0x65, 0x2F, 0x2F, 0xFF, 0x0A, 0x29, 0x0A] ++ [0xC3])) =
        .error (.syntactic ⟨2, 1⟩ (.trailing .closeParen)) := by
  have h : parse (.ofBytes [0x74, 0x72, 0x75, 0x65, 0x2F, 0x2F, 0xFF, 0x0A, 0x29, 0x0A]) =
      .error (.syntactic ⟨2, 1⟩ (.trailing .closeParen)) := rfl
  obtain ⟨y, hy, _, hsame⟩ := parse_append_of_rejected _ [0xC3] rfl (by nofun) h
  rw [hsame nofun] at hy
  exact ⟨h, hy⟩

end TwoSorted
