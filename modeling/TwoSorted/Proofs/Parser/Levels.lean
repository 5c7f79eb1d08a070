import TwoSorted.Proofs.Parser.Stream

/-!
# One more level

A parser that may nest expressions one level deeper gives the same answer, unless it
was for lack of levels that it stopped. Where it lacked a level at the end of the
text, the deeper parser lacks input: the expression for which there was no level is
not there either.
-/

namespace TwoSorted

open Outcome

/-- There was no level left for an expression, and the text ends in front of it. -/
def Stop.LevelAtEnd (x : Stop) : Prop :=
  ∃ q, x = .syntactic q (.tooManyLevels .endOfText)

/-- How an outcome compares with that of a parser that may nest one level deeper. Both
come to the same result, of which `P` holds, or to the same stop, or the first one
stopped for lack of a level. -/
inductive Deepens {α : Type} (P : α → Prop) : Except Stop α → Except Stop α → Prop
  | onward {a} (h : P a) : Deepens P (.ok a) (.ok a)
  | stopped {x} (h : ¬ x.LevelAtEnd) : Deepens P (.error x) (.error x)
  | ended (q : Position) :
      Deepens P (.error (.syntactic q (.tooManyLevels .endOfText))) (.error .endOfInput)
  | deeper {q found} (h : found ≠ .endOfText) (y : Except Stop α) :
      Deepens P (.error (.syntactic q (.tooManyLevels found))) y

namespace Deepens

variable {α β : Type} {P : α → Prop} {P' : β → Prop}

theorem bind {x y : Except Stop α} {f g : α → Except Stop β} (h : Deepens P x y)
    (honward : ∀ a, P a → Deepens P' (f a) (g a)) : Deepens P' (x >>= f) (y >>= g) := by
  cases h with
  | onward h => exact honward _ h
  | stopped h => exact .stopped h
  | ended q => exact .ended q
  | deeper h y => exact .deeper h _

theorem of_ok {x y : Except Stop α} {a : α} (h : Deepens P x y) (hx : x = .ok a) : P a := by
  cases h with
  | onward h =>
      cases hx
      exact h
  | stopped => cases hx
  | ended => cases hx
  | deeper => cases hx

theorem eq_endOfInput {q : Position} {y : Except Stop α}
    (h : Deepens P (.error (.syntactic q (.tooManyLevels .endOfText))) y) :
    y = .error .endOfInput := by
  cases h with
  | stopped h => exact absurd ⟨q, rfl⟩ h
  | ended => rfl
  | deeper h => exact absurd rfl h

end Deepens

namespace Stream

open TwoSorted.Parser

/-- What is left of the text just ends. -/
abbrev Ends (s : Stream) : Prop :=
  s.stop = .endOfInput

section Runs

variable {s : Stream}

theorem Ends.exists_ahead (h : s.Ends) : ∃ t, s.ahead = .ok (t, s) := by
  obtain ⟨tokens, stop, q⟩ := s
  cases h
  cases tokens with
  | nil => exact ⟨_, rfl⟩
  | cons t rest => exact ⟨t, rfl⟩

theorem expect_deepens (c : Symbol) (h : s.Ends) :
    Deepens Ends (s.expect c) (s.expect c) := by
  obtain ⟨tokens, stop, q⟩ := s
  cases h
  cases tokens with
  | nil => exact .stopped (by simp [Stop.LevelAtEnd])
  | cons t rest =>
      simp only [expect]
      split
      · exact .onward rfl
      · exact .stopped (by simp [Stop.LevelAtEnd])

variable {nested nested' : Stream → Except Stop (Expr × Stream)}
  (hn : ∀ s, s.Ends → Deepens (fun x => x.2.Ends) (nested s) (nested' s))

include hn in
theorem operand_deepens (h : s.Ends) :
    Deepens (fun x => x.2.Ends) (operand reader nested s) (operand reader nested' s) := by
  obtain ⟨t, ht⟩ := h.exists_ahead
  simp only [operand, reader_ahead, ht, ok_bind]
  cases t.symbol with
  | bool b => exact (expect_deepens _ h).bind fun s₁ h₁ => .onward h₁
  | number v => exact (expect_deepens _ h).bind fun s₁ h₁ => .onward h₁
  | openParen =>
      refine (expect_deepens _ h).bind fun s₁ h₁ => (hn s₁ h₁).bind ?_
      rintro ⟨e, s₂⟩ h₂
      exact (expect_deepens _ h₂).bind fun s₃ h₃ => .onward h₃
  | _ => exact .stopped (by simp [Stop.LevelAtEnd])

include hn in
theorem summands_deepens (bound : Nat) (left : Expr) (h : s.Ends) :
    Deepens (fun x => x.2.Ends) (summands reader nested bound left s)
      (summands reader nested' bound left s) := by
  induction bound generalizing left s with
  | zero => exact .onward h
  | succ bound ih =>
      obtain ⟨t, ht⟩ := h.exists_ahead
      simp only [summands, reader_ahead, ht, ok_bind]
      split
      · refine (expect_deepens _ h).bind fun s₁ h₁ => (operand_deepens hn h₁).bind ?_
        rintro ⟨right, s₂⟩ h₂
        exact ih _ h₂
      · exact .onward h

theorem expression_deepens (bound n : Nat) (s : Stream) (h : s.Ends) :
    Deepens (fun x => x.2.Ends) (expression reader bound n s)
      (expression reader bound (n + 1) s) := by
  induction n generalizing s with
  | zero =>
      obtain ⟨t, ht⟩ := h.exists_ahead
      by_cases hend : t.symbol = .endOfText
      · simp only [expression, sum, operand, reader_ahead, ht, ok_bind, hend, error_bind]
        exact .ended _
      · simp only [expression, reader_ahead, ht, ok_bind]
        exact .deeper hend _
  | succ n ih =>
      have hsum : Deepens (fun x => x.2.Ends) (sum reader (expression reader bound n) bound s)
          (sum reader (expression reader bound (n + 1)) bound s) := by
        refine (operand_deepens ih h).bind ?_
        rintro ⟨left, s₁⟩ h₁
        exact summands_deepens ih bound left h₁
      refine hsum.bind ?_
      rintro ⟨test, s₁⟩ h₁
      obtain ⟨t, ht⟩ := Ends.exists_ahead h₁
      simp only [reader_ahead, ht, ok_bind]
      split
      · refine (expect_deepens _ h₁).bind fun s₂ h₂ => (ih s₂ h₂).bind ?_
        rintro ⟨yes, s₃⟩ h₃
        refine (expect_deepens _ h₃).bind fun s₄ h₄ => (ih s₄ h₄).bind ?_
        rintro ⟨no, s₅⟩ h₅
        exact .onward h₅
      · exact .onward h₁

end Runs

end Stream

end TwoSorted
