import TwoSorted.Proofs.Parser.Bound

/-!
# Two runs side by side

A `Comparison` relates the states of two readers that give the same tokens, so
that the parser does the same on both. The second text may be `longer`: where
the first one ends, nothing is said about what the second one goes on with.
From there on the first run takes no more tokens, so it succeeds or lacks input,
unless it is about to begin an expression at too deep a level. In that case the
second run stops too, at the token that it finds there.

If the second text is not longer, the two runs give the same answer.
-/

namespace TwoSorted

open Outcome

/-- How two outcomes of which the second may come from a longer text compare.
Results are related by `P`; from a result of which `O` holds the first run has
reached the end of its text. -/
inductive Agree {α β : Type} (longer : Prop) (P : α → β → Prop) (O : α → Prop) :
    Except Stop α → Except Stop β → Prop
  | onward {a b} (h : P a b) : Agree longer P O (.ok a) (.ok b)
  | stopped (x : Stop) : Agree longer P O (.error x) (.error x)
  | level {q y} (h : longer) (hy : y ≠ .endOfInput) :
      Agree longer P O (.error (.syntactic q (.tooManyLevels .endOfText))) (.error y)
  | ended {a y} (h : O a) : Agree longer P O (.ok a) y
  | lacking {y} (h : longer) : Agree longer P O (.error .endOfInput) y

namespace Agree

variable {α β γ δ : Type} {longer : Prop} {P : α → β → Prop} {O : α → Prop}
  {P' : γ → δ → Prop} {O' : γ → Prop}

/-- Outcomes that agree still agree after one more step each. A first run that
has reached its end must agree with anything. -/
theorem bind {x : Except Stop α} {y : Except Stop β} {f : α → Except Stop γ}
    {g : β → Except Stop δ} (h : Agree longer P O x y)
    (honward : ∀ a b, P a b → Agree longer P' O' (f a) (g b))
    (hover : ∀ a, O a → ∀ y', Agree longer P' O' (f a) y') :
    Agree longer P' O' (x >>= f) (y >>= g) := by
  cases h with
  | onward h => exact honward _ _ h
  | stopped x => exact stopped x
  | level h hy => exact level h hy
  | ended h => exact hover _ h _
  | lacking h => exact lacking h

/-- If the second text is not longer, related results are the only ones. -/
theorem eq_of_not_longer {x y : Except Stop α}
    (h : Agree longer Eq (fun _ => longer) x y) (hlonger : ¬ longer) : x = y := by
  cases h with
  | onward h => rw [h]
  | stopped x => rfl
  | level h hy => exact absurd h hlonger
  | ended h => exact absurd h hlonger
  | lacking h => exact absurd h hlonger

end Agree

/-- Two readers whose states can be compared. -/
structure Comparison {σ τ : Type} (r : Reader σ) (r' : Reader τ) where
  /-- Whether the second text may go on where the first one ends. -/
  longer : Prop
  /-- Both readers are at the same place. -/
  Meets : σ → τ → Prop
  /-- The first reader is at the end of its text. -/
  Over : σ → Prop
  ahead_agree : ∀ {s s'}, Meets s s' →
    Agree longer (fun x x' => x.1 = x'.1 ∧ Meets x.2 x'.2)
      (fun x => x.1.symbol = .endOfText ∧ Over x.2) (r.ahead s) (r'.ahead s')
  take_agree : ∀ {s s'} c, Meets s s' →
    Agree longer Meets (fun _ => False) (r.take c s) (r'.take c s')
  expect_agree : ∀ {s s'} c, Meets s s' →
    Agree longer Meets (fun _ => False) (r.expect c s) (r'.expect c s')
  ahead_over : ∀ {s}, Over s →
    ∃ t s₁, r.ahead s = .ok (t, s₁) ∧ t.symbol = .endOfText ∧ Over s₁
  expect_over : ∀ {s} c, Over s → r.expect c s = .error .endOfInput
  longer_of_over : ∀ {s}, Over s → longer
  ahead_ne : ∀ s', r'.ahead s' ≠ .error .endOfInput

namespace Comparison

open TwoSorted.Parser

variable {σ τ : Type} {r : Reader σ} {r' : Reader τ}

/-- Both runs have read the same tree and are at the same place, or the first
one is at its end. -/
abbrev Reads (c : Comparison r r') (x : Except Stop (Expr × σ))
    (y : Except Stop (Expr × τ)) : Prop :=
  Agree c.longer (fun p p' => p.1 = p'.1 ∧ c.Meets p.2 p'.2) (fun p => c.Over p.2) x y

/-- Both readers of nested expressions agree wherever they meet. -/
abbrev Nested (c : Comparison r r') (nested : σ → Except Stop (Expr × σ))
    (nested' : τ → Except Stop (Expr × τ)) : Prop :=
  ∀ s s', c.Meets s s' → c.Reads (nested s) (nested' s')

theorem operand_agree (c : Comparison r r')
    {nested : σ → Except Stop (Expr × σ)} {nested' : τ → Except Stop (Expr × τ)}
    (hn : c.Nested nested nested') {s : σ} {s' : τ} (h : c.Meets s s') :
    c.Reads (operand r nested s) (operand r' nested' s') := by
  refine (c.ahead_agree h).bind ?_ ?_
  · rintro ⟨t, s₁⟩ ⟨_, s₁'⟩ ⟨rfl, hmeets⟩
    dsimp only
    cases t.symbol with
    | bool b =>
        refine (c.take_agree _ hmeets).bind ?_ (fun _ => False.elim)
        intro s₂ s₂' hmeets
        exact .onward ⟨rfl, hmeets⟩
    | number v =>
        refine (c.take_agree _ hmeets).bind ?_ (fun _ => False.elim)
        intro s₂ s₂' hmeets
        exact .onward ⟨rfl, hmeets⟩
    | openParen =>
        refine (c.take_agree _ hmeets).bind ?_ (fun _ => False.elim)
        intro s₂ s₂' hmeets
        refine (hn _ _ hmeets).bind ?_ ?_
        · rintro ⟨e, s₃⟩ ⟨_, s₃'⟩ ⟨rfl, hmeets⟩
          refine (c.expect_agree _ hmeets).bind ?_ (fun _ => False.elim)
          intro s₄ s₄' hmeets
          exact .onward ⟨rfl, hmeets⟩
        · rintro ⟨e, s₃⟩ hover y
          dsimp only
          rw [c.expect_over _ hover]
          exact .lacking (c.longer_of_over hover)
    | plus => exact .stopped _
    | question => exact .stopped _
    | colon => exact .stopped _
    | closeParen => exact .stopped _
    | endOfText => exact .stopped _
  · rintro ⟨t, s₁⟩ ⟨hend, hover⟩ y
    dsimp only at hend ⊢
    simp only [hend]
    exact .lacking (c.longer_of_over hover)

/-- A loop over summands that has reached the end of its text ends there. -/
theorem summands_over (c : Comparison r r')
    {nested : σ → Except Stop (Expr × σ)} (bound : Nat) (left : Expr) {s : σ}
    (h : c.Over s) (y : Except Stop (Expr × τ)) :
    c.Reads (summands r nested bound left s) y := by
  cases bound with
  | zero => exact .ended h
  | succ bound =>
      obtain ⟨t, s₁, hahead, hend, hover⟩ := c.ahead_over h
      simp only [summands, hahead, ok_bind, hend, reduceCtorEq, if_false]
      exact .ended hover

theorem summands_agree (c : Comparison r r')
    {nested : σ → Except Stop (Expr × σ)} {nested' : τ → Except Stop (Expr × τ)}
    (hn : c.Nested nested nested') (bound : Nat) (left : Expr) {s : σ} {s' : τ}
    (h : c.Meets s s') :
    c.Reads (summands r nested bound left s) (summands r' nested' bound left s') := by
  induction bound generalizing left s s' with
  | zero => exact .onward ⟨rfl, h⟩
  | succ bound ih =>
      refine (c.ahead_agree h).bind ?_ ?_
      · rintro ⟨t, s₁⟩ ⟨_, s₁'⟩ ⟨rfl, hmeets⟩
        dsimp only at hmeets ⊢
        by_cases hplus : t.symbol = .plus
        · simp only [hplus, if_true]
          refine (c.take_agree _ hmeets).bind ?_ (fun _ => False.elim)
          intro s₂ s₂' hmeets
          refine (c.operand_agree hn hmeets).bind ?_ ?_
          · rintro ⟨right, s₃⟩ ⟨_, s₃'⟩ ⟨rfl, hmeets⟩
            exact ih _ hmeets
          · rintro ⟨right, s₃⟩ hover y
            exact c.summands_over _ _ hover y
        · simp only [hplus, if_false]
          exact .onward ⟨rfl, hmeets⟩
      · rintro ⟨t, s₁⟩ ⟨hend, hover⟩ y
        dsimp only at hend ⊢
        simp only [hend, reduceCtorEq, if_false]
        exact .ended hover

theorem sum_agree (c : Comparison r r')
    {nested : σ → Except Stop (Expr × σ)} {nested' : τ → Except Stop (Expr × τ)}
    (hn : c.Nested nested nested') (bound : Nat) {s : σ} {s' : τ}
    (h : c.Meets s s') :
    c.Reads (sum r nested bound s) (sum r' nested' bound s') := by
  refine (c.operand_agree hn h).bind ?_ ?_
  · rintro ⟨left, s₁⟩ ⟨_, s₁'⟩ ⟨rfl, hmeets⟩
    exact c.summands_agree hn bound left hmeets
  · rintro ⟨left, s₁⟩ hover y
    exact c.summands_over bound left hover y

/-- Where no level is left both runs stop. If the first text ends there, the
second run stops at whatever it finds. -/
theorem expression_zero_agree (c : Comparison r r') (bound : Nat) {s : σ} {s' : τ}
    (h : c.Meets s s') :
    c.Reads (expression r bound 0 s) (expression r' bound 0 s') := by
  have hahead := c.ahead_agree h
  simp only [expression]
  -- `Agree.bind` asks too much: at its end the first run agrees with a refusal only
  cases hs : r.ahead s with
  | error x =>
      rw [hs] at hahead
      generalize r'.ahead s' = y at hahead ⊢
      cases hahead with
      | stopped => exact .stopped _
      | level hlonger hy => exact .level hlonger hy
      | lacking hlonger => exact .lacking hlonger
  | ok found =>
      obtain ⟨t, s₁⟩ := found
      rw [hs] at hahead
      rcases hs' : r'.ahead s' with y | ⟨t', s₁'⟩ <;> rw [hs'] at hahead
      · cases hahead with
        | ended hover =>
            obtain ⟨hend, hover⟩ := hover
            dsimp only at hend
            simp only [ok_bind, error_bind, hend]
            exact .level (c.longer_of_over hover) fun hy => c.ahead_ne s' (hy ▸ hs')
      · cases hahead with
        | onward hpair =>
            obtain ⟨rfl, _⟩ := hpair
            exact .stopped _
        | ended hover =>
            obtain ⟨hend, hover⟩ := hover
            dsimp only at hend
            simp only [ok_bind, hend]
            exact .level (c.longer_of_over hover) (by simp)

theorem expression_agree (c : Comparison r r') (bound levels : Nat) :
    c.Nested (expression r bound levels) (expression r' bound levels) := by
  induction levels with
  | zero => exact fun s s' h => c.expression_zero_agree bound h
  | succ levels ih =>
      intro s s' h
      refine (c.sum_agree ih bound h).bind ?_ ?_
      · rintro ⟨test, s₁⟩ ⟨_, s₁'⟩ ⟨rfl, hmeets⟩
        refine (c.ahead_agree hmeets).bind ?_ ?_
        · rintro ⟨t, s₂⟩ ⟨_, s₂'⟩ ⟨rfl, hmeets⟩
          dsimp only at hmeets ⊢
          by_cases hquestion : t.symbol = .question
          · simp only [hquestion, if_true]
            refine (c.take_agree _ hmeets).bind ?_ (fun _ => False.elim)
            intro s₃ s₃' hmeets
            refine (ih _ _ hmeets).bind ?_ ?_
            · rintro ⟨yes, s₄⟩ ⟨_, s₄'⟩ ⟨rfl, hmeets⟩
              refine (c.expect_agree _ hmeets).bind ?_ (fun _ => False.elim)
              intro s₅ s₅' hmeets
              refine (ih _ _ hmeets).bind ?_ ?_
              · rintro ⟨no, s₆⟩ ⟨_, s₆'⟩ ⟨rfl, hmeets⟩
                exact .onward ⟨rfl, hmeets⟩
              · rintro ⟨no, s₆⟩ hover y
                exact .ended hover
            · rintro ⟨yes, s₄⟩ hover y
              dsimp only
              rw [c.expect_over _ hover]
              exact .lacking (c.longer_of_over hover)
          · simp only [hquestion, if_false]
            exact .onward ⟨rfl, hmeets⟩
        · rintro ⟨t, s₂⟩ ⟨hend, hover⟩ y
          dsimp only at hend ⊢
          simp only [hend, reduceCtorEq, if_false]
          exact .ended hover
      · rintro ⟨test, s₁⟩ hover y
        obtain ⟨t, s₂, hahead, hend, hover⟩ := c.ahead_over hover
        simp only [hahead, ok_bind, hend, reduceCtorEq, if_false]
        exact .ended hover

/-- Two whole runs from states that meet. -/
theorem program_agree (c : Comparison r r') (bound : Nat) {s : σ} {s' : τ}
    (h : c.Meets s s') :
    Agree c.longer Eq (fun _ => c.longer) (program r bound s) (program r' bound s') := by
  refine (c.expression_agree bound maxLevels _ _ h).bind ?_ ?_
  · rintro ⟨e, s₁⟩ ⟨_, s₁'⟩ ⟨rfl, hmeets⟩
    refine (c.ahead_agree hmeets).bind ?_ ?_
    · rintro ⟨t, s₂⟩ ⟨_, s₂'⟩ ⟨rfl, hmeets⟩
      dsimp only
      by_cases hend : t.symbol = .endOfText
      · simp only [hend, if_true]
        exact .onward rfl
      · simp only [hend, if_false]
        exact .stopped _
    · rintro ⟨t, s₂⟩ ⟨hend, hover⟩ y
      dsimp only at hend ⊢
      simp only [hend, if_true]
      exact .ended (c.longer_of_over hover)
  · rintro ⟨e, s₁⟩ hover y
    obtain ⟨t, s₂, hahead, hend, hover⟩ := c.ahead_over hover
    simp only [hahead, ok_bind, hend, if_true]
    exact .ended (c.longer_of_over hover)

end Comparison

end TwoSorted
