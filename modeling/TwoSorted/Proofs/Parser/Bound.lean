import TwoSorted.Proofs.Parser.Contract

/-!
# The bound on the operands of a sum

The parser takes a bound on the number of operands of a sum. For a reader that
has a size, which no look ahead makes larger and which every token taken makes
smaller, the parser never gives back a larger state than it got, so every bound
above the size of the state leads to the same answer.
-/

namespace TwoSorted

open Outcome

/-- A size that no look ahead makes larger and every token taken smaller. -/
structure Reader.Sized {σ : Type} (r : Reader σ) (size : σ → Nat) : Prop where
  ahead_le : ∀ {s t s'}, r.ahead s = .ok (t, s') → size s' ≤ size s
  take_lt : ∀ {c s s'}, r.take c s = .ok s' → size s' < size s
  expect_lt : ∀ {c s s'}, r.expect c s = .ok s' → size s' < size s

/-- A size that is at most `n` stays so. -/
theorem Reader.Sized.keeps_le {σ : Type} {r : Reader σ} {size : σ → Nat}
    (hr : r.Sized size) (n : Nat) :
    r.Keeps (fun s => size s ≤ n) fun _ => True where
  ahead {s} h := by
    cases hahead : r.ahead s with
    | error x => trivial
    | ok found =>
        exact ⟨Nat.le_trans (hr.ahead_le hahead) h, fun _ => trivial, fun _ => trivial⟩
  take {s} c h := by
    cases htake : r.take c s with
    | error x => trivial
    | ok s' => exact Nat.le_trans (Nat.le_of_lt (hr.take_lt htake)) h
  expect {s} c h := by
    cases hexpect : r.expect c s with
    | error x => trivial
    | ok s' => exact Nat.le_trans (Nat.le_of_lt (hr.expect_lt hexpect)) h

namespace Parser

variable {σ : Type} {r : Reader σ} {size : σ → Nat}

/-- Whatever `read` leaves of a state is no larger than the state. -/
def Shrinks (size : σ → Nat) (read : σ → Except Stop (Expr × σ)) : Prop :=
  ∀ s e s', read s = .ok (e, s') → size s' ≤ size s

theorem shrinks_iff {read : σ → Except Stop (Expr × σ)} :
    Shrinks size read ↔ ∀ n s, size s ≤ n →
      Satisfies (fun _ => True) (fun x => size x.2 ≤ n) (read s) := by
  constructor
  · intro h n s hs
    cases hread : read s with
    | error x => trivial
    | ok found => exact Nat.le_trans (h s found.1 found.2 hread) hs
  · intro h s e s' hread
    have hs := h (size s) s (Nat.le_refl _)
    rw [hread] at hs
    exact hs

theorem operand_shrinks (hr : r.Sized size)
    {nested : σ → Except Stop (Expr × σ)} (hn : Shrinks size nested) :
    Shrinks size (operand r nested) :=
  shrinks_iff.mpr fun n _ hs => operand_keeps (hr.keeps_le n) (shrinks_iff.mp hn n) hs

theorem sum_shrinks (hr : r.Sized size)
    {nested : σ → Except Stop (Expr × σ)} (hn : Shrinks size nested) (bound : Nat) :
    Shrinks size (sum r nested bound) :=
  shrinks_iff.mpr fun n _ hs => sum_keeps (hr.keeps_le n) (shrinks_iff.mp hn n) bound hs

theorem expression_shrinks (hr : r.Sized size) (bound levels : Nat) :
    Shrinks size (expression r bound levels) :=
  shrinks_iff.mpr fun n s hs => expression_keeps (hr.keeps_le n) bound levels s hs

/-- An operand is read alike with two readers of nested expressions that agree
on all smaller states. -/
theorem operand_congr (hr : r.Sized size)
    {nested nested' : σ → Except Stop (Expr × σ)} {s : σ}
    (hn : ∀ s', size s' < size s → nested s' = nested' s') :
    operand r nested s = operand r nested' s := by
  refine bind_congr fun ⟨t, s₁⟩ hahead => ?_
  have hle := hr.ahead_le hahead
  dsimp only
  cases t.symbol with
  | openParen =>
      refine bind_congr fun s₂ htake => ?_
      have hlt := hr.take_lt htake
      rw [hn s₂ (by omega)]
  | _ => rfl

/-- Two bounds above the size of the state read the same summands. -/
theorem summands_congr (hr : r.Sized size)
    {nested nested' : σ → Except Stop (Expr × σ)} (hshrinks : Shrinks size nested)
    {bound bound' : Nat} {left : Expr} {s : σ}
    (hn : ∀ s', size s' < size s → nested s' = nested' s')
    (h : size s < bound) (h' : size s < bound') :
    summands r nested bound left s = summands r nested' bound' left s := by
  induction bound generalizing bound' left s with
  | zero => omega
  | succ bound ih =>
      obtain ⟨bound', rfl⟩ : ∃ k, bound' = k + 1 := ⟨bound' - 1, by omega⟩
      refine bind_congr fun ⟨t, s₁⟩ hahead => ?_
      have hle := hr.ahead_le hahead
      by_cases hplus : t.symbol = .plus
      · simp only [hplus, if_true]
        refine bind_congr fun s₂ htake => ?_
        have hlt := hr.take_lt htake
        rw [← operand_congr hr fun s' hs' => hn s' (by omega)]
        refine bind_congr fun ⟨right, s₃⟩ hright => ?_
        have hright := operand_shrinks hr hshrinks _ _ _ hright
        dsimp only
        exact ih (fun s' hs' => hn s' (by omega)) (by omega) (by omega)
      · simp only [hplus, if_false]

theorem expression_congr (hr : r.Sized size) {bound bound' levels : Nat} {s : σ}
    (h : size s < bound) (h' : size s < bound') :
    expression r bound levels s = expression r bound' levels s := by
  induction levels generalizing s with
  | zero => rfl
  | succ levels ih =>
      have hshrinks := expression_shrinks hr bound levels
      have hnested : ∀ s', size s' < size s →
          expression r bound levels s' = expression r bound' levels s' :=
        fun s' hs' => ih (by omega) (by omega)
      have hsum : sum r (expression r bound levels) bound s =
          sum r (expression r bound' levels) bound' s := by
        simp only [sum]
        rw [← operand_congr hr hnested]
        refine bind_congr fun ⟨left, s₁⟩ hleft => ?_
        have hle := operand_shrinks hr hshrinks _ _ _ hleft
        dsimp only
        exact summands_congr hr hshrinks (fun s' hs' => hnested s' (by omega))
          (by omega) (by omega)
      simp only [expression]
      rw [← hsum]
      refine bind_congr fun ⟨test, s₁⟩ htest => bind_congr fun ⟨t, s₂⟩ hahead => ?_
      have htest := sum_shrinks hr hshrinks bound _ _ _ htest
      have hahead : size s₂ ≤ size s₁ := hr.ahead_le hahead
      by_cases hquestion : t.symbol = .question
      · simp only [hquestion, if_true]
        refine bind_congr fun s₃ htake => ?_
        have htake := hr.take_lt htake
        rw [← hnested s₃ (by omega)]
        refine bind_congr fun ⟨yes, s₄⟩ hyes => bind_congr fun s₅ hexpect => ?_
        have hyes := hshrinks _ _ _ hyes
        have hexpect : size s₅ < size s₄ := hr.expect_lt hexpect
        rw [hnested s₅ (by omega)]
      · simp only [hquestion, if_false]

/-- Every bound above the size of the state leads to the same answer. -/
theorem program_congr (hr : r.Sized size) {bound bound' : Nat} {s : σ}
    (h : size s < bound) (h' : size s < bound') :
    program r bound s = program r bound' s := by
  simp only [program]
  rw [expression_congr hr h h']

end Parser

end TwoSorted
