import TwoSorted.Parser
import TwoSorted.Proofs.Outcome

/-!
# What the parser asks of its reader

The parser goes on after no stop. So a run makes a request of its reader, in a certain
state, exactly if it ends with any stop that is put in the place of the answer
(`Parser.Asks`). Two readers that answer all these requests alike lead to the same outcome
(`program_depends`).

What can be said of the states in which requests are made comes from what the answers keep.
A symbol is taken only where it has just been seen ahead, which is more than a property that
all answers keep can say (`due_of_asks`).
-/

namespace TwoSorted

open Outcome

/-- What the parser can ask. -/
inductive Request where
  | ahead
  | take (s : Symbol)
  | expect (s : Symbol)
  deriving DecidableEq

namespace Reader

variable {σ : Type}

/-- Both readers answer the request alike in the state. -/
def AgreesAt (r r' : Reader σ) : Request → σ → Prop
  | .ahead, s => r'.ahead s = r.ahead s
  | .take c, s => r'.take c s = r.take c s
  | .expect c, s => r'.expect c s = r.expect c s

open Classical in
/-- The reader that answers one request, in one state, with the stop `x`. -/
noncomputable def failingAt (r : Reader σ) (q : Request) (s : σ) (x : Stop) : Reader σ where
  ahead s' := if q = .ahead ∧ s' = s then .error x else r.ahead s'
  take c s' := if q = .take c ∧ s' = s then .error x else r.take c s'
  expect c s' := if q = .expect c ∧ s' = s then .error x else r.expect c s'

theorem agreesAt_failingAt {r : Reader σ} {q q' : Request} {s s' : σ} {x : Stop}
    (h : ¬ (q = q' ∧ s' = s)) : r.AgreesAt (r.failingAt q s x) q' s' := by
  cases q' with
  | ahead => exact if_neg h
  | take c => exact if_neg h
  | expect c => exact if_neg h

/-- The answers keep `I`, and `Seen` holds of a symbol where it has just been seen ahead,
the end of the text apart. -/
structure Sees (r : Reader σ) (I : σ → Prop) (Seen : Symbol → σ → Prop) : Prop where
  ahead : ∀ {s t s'}, I s → r.ahead s = .ok (t, s') →
    I s' ∧ (t.symbol ≠ .endOfText → Seen t.symbol s')
  take : ∀ {c s s'}, Seen c s → r.take c s = .ok s' → I s'
  expect : ∀ {c s s'}, I s → r.expect c s = .ok s' → I s'

end Reader

namespace Parser

variable {σ α β : Type}

/-- The run from `start` makes the request `q` in the state `s`. -/
def Asks (r : Reader σ) (bound : Nat) (start : σ) (q : Request) (s : σ) : Prop :=
  ∀ x, program (r.failingAt q s x) bound start = .error x

/-! ### The outcome depends on the requests -/

/-- What must hold where a request is made: `I` where the parser looks ahead or expects a
symbol, `Seen` where it takes one. -/
def Due (I : σ → Prop) (Seen : Symbol → σ → Prop) : Request → σ → Prop
  | .ahead, s => I s
  | .take c, s => Seen c s
  | .expect _, s => I s

/-- With another reader the computation comes to the same, or it makes a request that the
two readers answer differently, in a state where `D` holds of this request. With the reader
`r` itself `Q` holds of the result. -/
structure Depends (r : Reader σ) (D : Request → σ → Prop) (Q : α → Prop)
    (run : Reader σ → Except Stop α) : Prop where
  result : ∀ {a}, run r = .ok a → Q a
  request : ∀ r', run r' = run r ∨
    ∃ q s, D q s ∧ ¬ r.AgreesAt r' q s ∧ ∀ x, run (r.failingAt q s x) = .error x

namespace Depends

variable {r : Reader σ} {D : Request → σ → Prop} {Q : α → Prop} {Q' : β → Prop}
  {run : Reader σ → Except Stop α} {f : Reader σ → α → Except Stop β}

theorem ok {a : α} (h : Q a) : Depends r D Q fun _ => .ok a where
  result ha := Except.ok.inj ha ▸ h
  request _ := .inl rfl

theorem error (x : Stop) : Depends r D Q fun _ => .error x where
  result ha := by cases ha
  request _ := .inl rfl

/-- A request that fails is made, or nothing comes of it. -/
theorem failingAt_cases (h : Depends r D Q run) (q : Request) (s : σ) (x : Stop) :
    run (r.failingAt q s x) = run r ∨ D q s ∧ run (r.failingAt q s x) = .error x := by
  obtain hsame | ⟨q', s', hD, hdiffer, hfails⟩ := h.request (r.failingAt q s x)
  · exact .inl hsame
  · by_cases hmade : q = q' ∧ s' = s
    · obtain ⟨rfl, rfl⟩ := hmade
      exact .inr ⟨hD, hfails x⟩
    · exact absurd (Reader.agreesAt_failingAt hmade) hdiffer

theorem bind (h : Depends r D Q run) (hf : ∀ a, Q a → Depends r D Q' fun r => f r a) :
    Depends r D Q' fun r => run r >>= f r where
  result hb := by
    obtain ⟨a, ha, hb⟩ := bind_eq_ok_iff.mp hb
    exact (hf a (h.result ha)).result hb
  request r' := by
    obtain hsame | ⟨q, s, hD, hdiffer, hfails⟩ := h.request r'
    · cases hrun : run r with
      | error e => exact .inl (by simp only [hsame, hrun, error_bind])
      | ok a =>
          obtain hsame' | ⟨q, s, hD, hdiffer, hfails⟩ := (hf a (h.result hrun)).request r'
          · exact .inl (by simp only [hsame, hrun, ok_bind, hsame'])
          · refine .inr ⟨q, s, hD, hdiffer, fun x => ?_⟩
            obtain hok | ⟨_, herror⟩ := h.failingAt_cases q s x
            · simp only [hok, hrun, ok_bind, hfails x]
            · simp only [herror, error_bind]
    · exact .inr ⟨q, s, hD, hdiffer, fun x => by simp only [hfails x, error_bind]⟩

end Depends

section Depends

variable {r : Reader σ} {I : σ → Prop} {Seen : Symbol → σ → Prop}
  {nested : Reader σ → σ → Except Stop (Expr × σ)} (hr : r.Sees I Seen)

include hr

theorem ahead_depends {s : σ} (h : I s) :
    Depends r (Due I Seen) (fun x => I x.2 ∧ (x.1.symbol ≠ .endOfText → Seen x.1.symbol x.2))
      fun r => r.ahead s where
  result hahead := hr.ahead h hahead
  request r' := by
    by_cases hagrees : r.AgreesAt r' .ahead s
    · exact .inl hagrees
    · exact .inr ⟨.ahead, s, h, hagrees, fun x => if_pos ⟨rfl, rfl⟩⟩

theorem take_depends {c : Symbol} {s : σ} (h : Seen c s) :
    Depends r (Due I Seen) I fun r => r.take c s where
  result htake := hr.take h htake
  request r' := by
    by_cases hagrees : r.AgreesAt r' (.take c) s
    · exact .inl hagrees
    · exact .inr ⟨.take c, s, h, hagrees, fun x => if_pos ⟨rfl, rfl⟩⟩

theorem expect_depends (c : Symbol) {s : σ} (h : I s) :
    Depends r (Due I Seen) I fun r => r.expect c s where
  result hexpect := hr.expect h hexpect
  request r' := by
    by_cases hagrees : r.AgreesAt r' (.expect c) s
    · exact .inl hagrees
    · exact .inr ⟨.expect c, s, h, hagrees, fun x => if_pos ⟨rfl, rfl⟩⟩

theorem operand_depends
    (hn : ∀ s, I s → Depends r (Due I Seen) (fun x => I x.2) fun r => nested r s)
    {s : σ} (h : I s) :
    Depends r (Due I Seen) (fun x => I x.2) fun r => operand r (nested r) s := by
  refine (ahead_depends hr h).bind ?_
  rintro ⟨t, s₁⟩ ⟨_, hseen⟩
  dsimp only at hseen ⊢
  cases hsymbol : t.symbol with
  | bool b =>
      rw [hsymbol] at hseen
      exact (take_depends hr (hseen (by simp))).bind fun s₂ h₂ => .ok h₂
  | number v =>
      rw [hsymbol] at hseen
      exact (take_depends hr (hseen (by simp))).bind fun s₂ h₂ => .ok h₂
  | openParen =>
      rw [hsymbol] at hseen
      refine (take_depends hr (hseen (by simp))).bind fun s₂ h₂ => (hn s₂ h₂).bind ?_
      rintro ⟨e, s₃⟩ h₃
      exact (expect_depends hr _ h₃).bind fun s₄ h₄ => .ok h₄
  | endOfText => exact .error _
  | plus => exact .error _
  | question => exact .error _
  | colon => exact .error _
  | closeParen => exact .error _

theorem summands_depends
    (hn : ∀ s, I s → Depends r (Due I Seen) (fun x => I x.2) fun r => nested r s)
    (bound : Nat) (left : Expr) {s : σ} (h : I s) :
    Depends r (Due I Seen) (fun x => I x.2) fun r => summands r (nested r) bound left s := by
  induction bound generalizing left s with
  | zero => exact .ok h
  | succ bound ih =>
      refine (ahead_depends hr h).bind ?_
      rintro ⟨t, s₁⟩ ⟨h₁, hseen⟩
      dsimp only at h₁ hseen ⊢
      by_cases hplus : t.symbol = .plus
      · rw [hplus] at hseen
        simp only [hplus, if_true]
        refine (take_depends hr (hseen (by simp))).bind fun s₂ h₂ => ?_
        refine (operand_depends hr hn h₂).bind ?_
        rintro ⟨right, s₃⟩ h₃
        exact ih _ h₃
      · simp only [hplus, if_false]
        exact .ok h₁

theorem sum_depends
    (hn : ∀ s, I s → Depends r (Due I Seen) (fun x => I x.2) fun r => nested r s)
    (bound : Nat) {s : σ} (h : I s) :
    Depends r (Due I Seen) (fun x => I x.2) fun r => sum r (nested r) bound s := by
  refine (operand_depends hr hn h).bind ?_
  rintro ⟨left, s₁⟩ h₁
  exact summands_depends hr hn bound left h₁

theorem expression_depends (bound levels : Nat) (s : σ) (h : I s) :
    Depends r (Due I Seen) (fun x => I x.2) fun r => expression r bound levels s := by
  induction levels generalizing s with
  | zero => exact (ahead_depends hr h).bind fun _ _ => .error _
  | succ levels ih =>
      refine (sum_depends hr ih bound h).bind ?_
      rintro ⟨test, s₁⟩ h₁
      refine (ahead_depends hr h₁).bind ?_
      rintro ⟨t, s₂⟩ ⟨h₂, hseen⟩
      dsimp only at h₂ hseen ⊢
      by_cases hquestion : t.symbol = .question
      · rw [hquestion] at hseen
        simp only [hquestion, if_true]
        refine (take_depends hr (hseen (by simp))).bind fun s₃ h₃ => (ih s₃ h₃).bind ?_
        rintro ⟨yes, s₄⟩ h₄
        refine (expect_depends hr _ h₄).bind fun s₅ h₅ => (ih s₅ h₅).bind ?_
        rintro ⟨no, s₆⟩ h₆
        exact .ok h₆
      · simp only [hquestion, if_false]
        exact .ok h₂

/-- A run comes to the same with every reader that answers the requests made in it alike, and
where a request is made holds what is due there. -/
theorem program_depends (bound : Nat) {start : σ} (h : I start) :
    Depends r (Due I Seen) (fun _ => True) fun r => program r bound start := by
  refine (expression_depends hr bound maxLevels start h).bind ?_
  rintro ⟨e, s₁⟩ h₁
  refine (ahead_depends hr h₁).bind ?_
  rintro ⟨t, s₂⟩ _
  dsimp only
  by_cases hend : t.symbol = .endOfText
  · simp only [hend, if_true]
    exact .ok trivial
  · simp only [hend, if_false]
    exact .error _

/-- Where a request is made holds what is due there. -/
theorem due_of_asks {bound : Nat} {start s : σ} {q : Request} (h : I start)
    (hasks : Asks r bound start q s) : Due I Seen q s := by
  have hcases (x : Stop) := (program_depends hr bound h).failingAt_cases q s x
  obtain hsame | ⟨hdue, _⟩ := hcases .endOfInput
  · obtain hsame' | ⟨hdue, _⟩ := hcases (.syntactic Position.start (.unexpected .endOfText))
    · -- the outcome without the request is one, and two stops are not
      rw [hasks] at hsame hsame'
      cases hsame.trans hsame'.symm
    · exact hdue
  · exact hdue

end Depends

end Parser

end TwoSorted
