import TwoSorted.Parser
import TwoSorted.Proofs.Outcome

/-!
# What a run of the parser keeps

A property of states that a reader keeps is kept by the parser on top of it, and
a property of stops that the reader's own stops have, and the stops at the tokens
that it gives, belongs to every stop of the parser. The parser lacks input only
where the reader shows the end of the text, and it is nowhere else that a run comes
to a result.
-/

namespace TwoSorted

open Outcome

/-- The reader keeps `I`, and `P` holds of every stop of its own and of every
stop at a token that it gives. -/
structure Reader.Keeps {σ : Type} (r : Reader σ) (I : σ → Prop) (P : Stop → Prop) :
    Prop where
  ahead : ∀ {s}, I s →
    Satisfies P (fun x => I x.2 ∧ (∀ fault, P (.syntactic x.1.position fault)) ∧
      (x.1.symbol = .endOfText → P .endOfInput)) (r.ahead s)
  take : ∀ {s} c, I s → Satisfies P I (r.take c s)
  expect : ∀ {s} c, I s → Satisfies P I (r.expect c s)

namespace Parser

variable {σ : Type} {r : Reader σ} {I : σ → Prop} {P : Stop → Prop}

theorem operand_keeps (hr : r.Keeps I P) {nested : σ → Except Stop (Expr × σ)}
    (hn : ∀ s, I s → Satisfies P (fun x => I x.2) (nested s)) {s : σ} (h : I s) :
    Satisfies P (fun x => I x.2) (operand r nested s) := by
  refine (hr.ahead h).bind fun ⟨t, s₁⟩ ⟨h₁, hstop, hend⟩ => ?_
  dsimp only at h₁ hstop hend ⊢
  cases hsymbol : t.symbol with
  | bool b => exact (hr.take _ h₁).bind fun s₂ h₂ => h₂
  | number v => exact (hr.take _ h₁).bind fun s₂ h₂ => h₂
  | openParen =>
      refine (hr.take _ h₁).bind fun s₂ h₂ => ?_
      refine (hn s₂ h₂).bind fun ⟨e, s₃⟩ h₃ => ?_
      exact (hr.expect _ h₃).bind fun s₄ h₄ => h₄
  | endOfText => exact hend hsymbol
  | plus => exact hstop _
  | question => exact hstop _
  | colon => exact hstop _
  | closeParen => exact hstop _

theorem summands_keeps (hr : r.Keeps I P) {nested : σ → Except Stop (Expr × σ)}
    (hn : ∀ s, I s → Satisfies P (fun x => I x.2) (nested s)) (bound : Nat)
    (left : Expr) {s : σ} (h : I s) :
    Satisfies P (fun x => I x.2) (summands r nested bound left s) := by
  induction bound generalizing left s with
  | zero => exact h
  | succ bound ih =>
      refine (hr.ahead h).bind fun ⟨t, s₁⟩ ⟨h₁, _⟩ => ?_
      dsimp only at h₁ ⊢
      split
      · refine (hr.take _ h₁).bind fun s₂ h₂ => ?_
        exact (operand_keeps hr hn h₂).bind fun ⟨right, s₃⟩ h₃ => ih _ h₃
      · exact h₁

theorem sum_keeps (hr : r.Keeps I P) {nested : σ → Except Stop (Expr × σ)}
    (hn : ∀ s, I s → Satisfies P (fun x => I x.2) (nested s)) (bound : Nat)
    {s : σ} (h : I s) : Satisfies P (fun x => I x.2) (sum r nested bound s) :=
  (operand_keeps hr hn h).bind fun ⟨left, _⟩ h₁ => summands_keeps hr hn bound left h₁

theorem expression_keeps (hr : r.Keeps I P) (bound levels : Nat) (s : σ) (h : I s) :
    Satisfies P (fun x => I x.2) (expression r bound levels s) := by
  induction levels generalizing s with
  | zero => exact (hr.ahead h).bind fun ⟨t, s₁⟩ ⟨_, hstop, _⟩ => hstop _
  | succ levels ih =>
      refine (sum_keeps hr ih bound h).bind fun ⟨test, s₁⟩ h₁ => ?_
      refine (hr.ahead h₁).bind fun ⟨t, s₂⟩ ⟨h₂, _⟩ => ?_
      dsimp only at h₂ ⊢
      split
      · refine (hr.take _ h₂).bind fun s₃ h₃ => ?_
        refine (ih s₃ h₃).bind fun ⟨yes, s₄⟩ h₄ => ?_
        refine (hr.expect _ h₄).bind fun s₅ h₅ => ?_
        exact (ih s₅ h₅).bind fun ⟨no, s₆⟩ h₆ => h₆
      · exact h₂

/-- Every stop of a whole run has the property, and a run that comes to a result
has seen the end of the text. -/
theorem program_keeps (hr : r.Keeps I P) (bound : Nat) {s : σ} (h : I s) :
    Satisfies P (fun _ => P .endOfInput) (program r bound s) := by
  refine (expression_keeps hr bound maxLevels s h).bind fun ⟨e, s₁⟩ h₁ => ?_
  refine (hr.ahead h₁).bind fun ⟨t, s₂⟩ ⟨_, hstop, hend⟩ => ?_
  dsimp only at hstop hend ⊢
  split
  · rename_i hsymbol
    exact hend hsymbol
  · exact hstop _

end Parser

end TwoSorted
