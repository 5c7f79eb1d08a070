import TwoSorted.Proofs.Parser.Levels
import TwoSorted.Proofs.Token.Yield

/-!
# The parser goes by the symbols

The parser hands the positions of tokens on in its faults and does nothing else with
them. So two texts that are cut into tokens of the same symbols and end there come to the
same, but for the position of a fault and for what each says of its own end
(`Stream.program_likewise`).
-/

namespace TwoSorted

open Outcome

/-- Two outcomes that differ in positions and in how the texts end: results related by
`P`, or both lack input or are stopped at the end, `own` and `own'`, or the same fault is
found in both. -/
inductive Likewise {α β : Type} (own own' : Stop) (P : α → β → Prop) :
    Except Stop α → Except Stop β → Prop
  | onward {a b} (h : P a b) : Likewise own own' P (.ok a) (.ok b)
  | lacking : Likewise own own' P (.error .endOfInput) (.error .endOfInput)
  | ended : Likewise own own' P (.error own) (.error own')
  | refused (q q' : Position) (fault : SyntaxFault) :
      Likewise own own' P (.error (.syntactic q fault)) (.error (.syntactic q' fault))

theorem Likewise.bind {α β γ δ : Type} {own own' : Stop} {P : α → β → Prop}
    {P' : γ → δ → Prop} {x : Except Stop α} {y : Except Stop β} {f : α → Except Stop γ}
    {g : β → Except Stop δ} (h : Likewise own own' P x y)
    (honward : ∀ a b, P a b → Likewise own own' P' (f a) (g b)) :
    Likewise own own' P' (x >>= f) (y >>= g) := by
  cases h with
  | onward h => exact honward _ _ h
  | lacking => exact .lacking
  | ended => exact .ended
  | refused q q' fault => exact .refused q q' fault

namespace Stream

open TwoSorted.Parser

/-- Both streams have the same symbols, and then the text ends. -/
structure SpellsAs (own own' : Stop) (s s' : Stream) : Prop where
  spelling_eq : s.spelling = s'.spelling
  left : s.stop = own
  right : s'.stop = own'

section Runs

variable {own own' : Stop} {s s' : Stream}

/-- Both runs have read the same tree, and what is left is spelled alike. -/
abbrev ReadsAs (own own' : Stop) (x y : Except Stop (Expr × Stream)) : Prop :=
  Likewise own own' (fun p p' => p.1 = p'.1 ∧ SpellsAs own own' p.2 p'.2) x y

theorem SpellsAs.cases (h : SpellsAs own own' s s') :
    (s.tokens = [] ∧ s'.tokens = []) ∨
    ∃ t rest t' rest', s.tokens = t :: rest ∧ s'.tokens = t' :: rest' ∧
      t.symbol = t'.symbol ∧
      SpellsAs own own' { s with tokens := rest } { s' with tokens := rest' } := by
  obtain ⟨tokens, stop, q⟩ := s
  obtain ⟨tokens', stop', q'⟩ := s'
  obtain ⟨hspelling, hleft, hright⟩ := h
  cases tokens with
  | nil => exact .inl ⟨rfl, List.map_eq_nil_iff.mp hspelling.symm⟩
  | cons t rest =>
      obtain ⟨t', rest', rfl, hsymbol, hrest⟩ := List.map_eq_cons_iff.mp hspelling.symm
      exact .inr ⟨t, rest, t', rest', rfl, rfl, hsymbol.symm, hrest.symm, hleft, hright⟩

theorem expect_likewise (c : Symbol) (h : SpellsAs own own' s s') :
    Likewise own own' (SpellsAs own own') (s.expect c) (s'.expect c) := by
  obtain ⟨hnil, hnil'⟩ | ⟨t, rest, t', rest', htokens, htokens', hsymbol, hrest⟩ := h.cases
  · simp only [expect, hnil, hnil', h.left, h.right]
    exact .ended
  · simp only [expect, htokens, htokens', ← hsymbol]
    split
    · exact .onward hrest
    · exact .refused _ _ _

variable (hown : own.isEnd = true) (hown' : own'.isEnd = true)

include hown hown' in
theorem SpellsAs.exists_ahead (h : SpellsAs own own' s s') :
    ∃ t t', s.ahead = .ok (t, s) ∧ s'.ahead = .ok (t', s') ∧ t.symbol = t'.symbol := by
  obtain ⟨hnil, hnil'⟩ | ⟨t, rest, t', rest', htokens, htokens', hsymbol, _⟩ := h.cases
  · exact ⟨⟨.endOfText, s.position⟩, ⟨.endOfText, s'.position⟩,
      ahead_of_end hnil (h.left ▸ hown), ahead_of_end hnil' (h.right ▸ hown'), rfl⟩
  · exact ⟨t, t', ahead_of_tokens htokens, ahead_of_tokens htokens', hsymbol⟩

variable {nested : Stream → Except Stop (Expr × Stream)}
  (hn : ∀ s s', SpellsAs own own' s s' → ReadsAs own own' (nested s) (nested s'))

include hown hown' hn in
theorem operand_likewise (h : SpellsAs own own' s s') :
    ReadsAs own own' (operand reader nested s) (operand reader nested s') := by
  obtain ⟨t, t', hahead, hahead', hsymbol⟩ := h.exists_ahead hown hown'
  simp only [operand, reader_ahead, hahead, hahead', ok_bind, ← hsymbol]
  cases t.symbol with
  | bool b => exact (expect_likewise _ h).bind fun s₁ s₁' h₁ => .onward ⟨rfl, h₁⟩
  | number v => exact (expect_likewise _ h).bind fun s₁ s₁' h₁ => .onward ⟨rfl, h₁⟩
  | openParen =>
      refine (expect_likewise _ h).bind fun s₁ s₁' h₁ => (hn s₁ s₁' h₁).bind ?_
      rintro ⟨e, s₂⟩ ⟨_, s₂'⟩ ⟨rfl, h₂⟩
      exact (expect_likewise _ h₂).bind fun s₃ s₃' h₃ => .onward ⟨rfl, h₃⟩
  | endOfText => exact .lacking
  | plus => exact .refused _ _ _
  | question => exact .refused _ _ _
  | colon => exact .refused _ _ _
  | closeParen => exact .refused _ _ _

include hown hown' hn in
theorem summands_likewise (bound : Nat) (left : Expr) (h : SpellsAs own own' s s') :
    ReadsAs own own' (summands reader nested bound left s)
      (summands reader nested bound left s') := by
  induction bound generalizing left s s' with
  | zero => exact .onward ⟨rfl, h⟩
  | succ bound ih =>
      obtain ⟨t, t', hahead, hahead', hsymbol⟩ := h.exists_ahead hown hown'
      simp only [summands, reader_ahead, hahead, hahead', ok_bind, ← hsymbol]
      split
      · refine (expect_likewise _ h).bind fun s₁ s₁' h₁ =>
          (operand_likewise hown hown' hn h₁).bind ?_
        rintro ⟨right, s₂⟩ ⟨_, s₂'⟩ ⟨rfl, h₂⟩
        exact ih _ h₂
      · exact .onward ⟨rfl, h⟩

include hown hown' in
theorem expression_likewise (bound levels : Nat) (s s' : Stream) (h : SpellsAs own own' s s') :
    ReadsAs own own' (expression reader bound levels s) (expression reader bound levels s') := by
  induction levels generalizing s s' with
  | zero =>
      obtain ⟨t, t', hahead, hahead', hsymbol⟩ := h.exists_ahead hown hown'
      simp only [expression, reader_ahead, hahead, hahead', ok_bind, ← hsymbol]
      exact .refused _ _ _
  | succ levels ih =>
      have hsum : ReadsAs own own' (sum reader (expression reader bound levels) bound s)
          (sum reader (expression reader bound levels) bound s') := by
        refine (operand_likewise hown hown' ih h).bind ?_
        rintro ⟨left, s₁⟩ ⟨_, s₁'⟩ ⟨rfl, h₁⟩
        exact summands_likewise hown hown' ih bound left h₁
      refine hsum.bind ?_
      rintro ⟨test, s₁⟩ ⟨_, s₁'⟩ ⟨rfl, h₁⟩
      obtain ⟨t, t', hahead, hahead', hsymbol⟩ := SpellsAs.exists_ahead hown hown' h₁
      simp only [reader_ahead, hahead, hahead', ok_bind, ← hsymbol]
      split
      · refine (expect_likewise _ h₁).bind fun s₂ s₂' h₂ => (ih s₂ s₂' h₂).bind ?_
        rintro ⟨yes, s₃⟩ ⟨_, s₃'⟩ ⟨rfl, h₃⟩
        refine (expect_likewise _ h₃).bind fun s₄ s₄' h₄ => (ih s₄ s₄' h₄).bind ?_
        rintro ⟨no, s₅⟩ ⟨_, s₅'⟩ ⟨rfl, h₅⟩
        exact .onward ⟨rfl, h₅⟩
      · exact .onward ⟨rfl, h₁⟩

include hown hown' in
/-- What a whole run comes to depends on the symbols. -/
theorem program_likewise (bound : Nat) (h : SpellsAs own own' s s') :
    Likewise own own' Eq (program reader bound s) (program reader bound s') := by
  refine (expression_likewise hown hown' bound maxLevels s s' h).bind ?_
  rintro ⟨e, s₁⟩ ⟨_, s₁'⟩ ⟨rfl, h₁⟩
  obtain ⟨t, t', hahead, hahead', hsymbol⟩ := SpellsAs.exists_ahead hown hown' h₁
  simp only [reader_ahead, hahead, hahead', ok_bind, ← hsymbol]
  split
  · exact .onward rfl
  · exact .refused _ _ _

end Runs

end Stream

namespace Lexer

/-- Lexers that yield the same symbols up to the end of their texts read the same. -/
theorem parse_likewise [Conversions] {l l' m m' : Lexer} {ts ts' : List Token}
    (h : l.Yields ts .endOfInput m) (h' : l'.Yields ts' .endOfInput m') (hheld : l.held = [])
    (hheld' : l'.held = []) (hsymbols : ts.map Token.symbol = ts'.map Token.symbol) :
    Likewise .endOfInput .endOfInput Eq l.parse l'.parse := by
  have hbound : ts'.length < ts.length + 1 := by
    rw [← List.length_map Token.symbol, ← hsymbols, List.length_map]
    exact Nat.lt_succ_self _
  rw [parse_eq_program hheld h (Nat.lt_succ_self _), parse_eq_program hheld' h' hbound]
  exact Stream.program_likewise rfl rfl _ ⟨hsymbols, rfl, rfl⟩

end Lexer

end TwoSorted
