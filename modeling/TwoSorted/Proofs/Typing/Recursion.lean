import Mathlib.Data.List.Basic
import Mathlib.Logic.Relation
import TwoSorted.Proofs.Outcome
import TwoSorted.Typing.Checker

/-!
# The checker as a recursion

`Expr.infer path e` is the type of the tree `e` that stands at `path`, or its first
fault, by recursion on the tree. The checker walks the tree with a stack of
frames instead. From a new frame for `e` on top of the stack its steps lead to the
answer if `e` has a fault, and otherwise back to a frame for `e` with the types of
all its operands, from which the type of `e` is found (`visit`). So the stack
comes to the same answer as the recursion.

On its way the checker never looks for an operand's type that is not there: a node
is resolved when it has one type for each of its operands.
-/

namespace TwoSorted

/-- The type of a tree that stands at `path`, or its first fault. -/
def Expr.infer (path : List Nat) : Expr → Except TypeFault Ty
  | missing => .error .missing
  | bool _ => .ok .boolean
  | number _ => .ok .number
  | add left right => do
    let l ← left.infer (path ++ [0])
    if l ≠ .number then
      .error (.mismatch ⟨.numberExpected, .left, add left right, path⟩)
    else
      let r ← right.infer (path ++ [1])
      if r ≠ .number then
        .error (.mismatch ⟨.numberExpected, .right, add left right, path⟩)
      else .ok .number
  | cond test yes no => do
    let c ← test.infer (path ++ [0])
    if c ≠ .boolean then
      .error (.mismatch ⟨.booleanExpected, .condition, cond test yes no, path⟩)
    else
      let y ← yes.infer (path ++ [1])
      let n ← no.infer (path ++ [2])
      if y ≠ n then
        .error (.mismatch ⟨.branchMismatch, .branches, cond test yes no, path⟩)
      else .ok y

namespace Checker

/-- A top frame and the frames below it. -/
abbrev State := Frame × List Frame

/-- One step that gives no answer yet. -/
def Moves (s s' : State) : Prop :=
  step s.1 s.2 = .onward s'.1 s'.2

/-- Any number of steps without an answer. -/
abbrev Reaches : State → State → Prop :=
  Relation.ReflTransGen Moves

/-- The steps from `s` lead to the answer `result`. -/
def Halts (s : State) (result : Except TypeFault Ty) : Prop :=
  ∃ s', Reaches s s' ∧ step s'.1 s'.2 = .answer result

/-- The steps from `s` lead to the top frame `f`, and its node has the type `t`. -/
def Finishes (s : State) (f : Frame) (below : List Frame) (t : Ty) : Prop :=
  Reaches s (f, below) ∧ f.next? = none ∧ f.resolve below = .ok t

theorem Halts.of_reaches {s s' : State} {result : Except TypeFault Ty}
    (h : Reaches s s') (h' : Halts s' result) : Halts s result := by
  obtain ⟨s'', hreaches, hanswer⟩ := h'
  exact ⟨s'', h.trans hreaches, hanswer⟩

/-- A run gives the answer to which the steps lead. -/
theorem Halts.run_eq {s : State} {result : Except TypeFault Ty} (h : Halts s result) :
    run s.1 s.2 = result := by
  obtain ⟨s', hreaches, hanswer⟩ := h
  induction hreaches using Relation.ReflTransGen.head_induction_on with
  | refl =>
      rw [run]
      split <;> simp_all
  | head hmoves _ ih =>
      rw [run]
      split <;> simp_all [Moves]

/-! ### From a frame to its next operand and back -/

theorem pathOver_cons (f : Frame) (below : List Frame) :
    Frame.pathOver (f :: below) = Frame.pathOver below ++ [f.done.length] := by
  simp [Frame.pathOver]

/-- What the checker makes of the tree `e` in a new frame on top of `below`. -/
def Visits (e : Expr) (below : List Frame) : Prop :=
  match e.infer (Frame.pathOver below) with
  | .error fault => e = .missing ∨ Halts (⟨e, []⟩, below) (.error fault)
  | .ok t => ∃ done, Finishes (⟨e, []⟩, below) ⟨e, done⟩ below t

/-- Where the next operand has a fault, the steps lead to that fault. -/
theorem halts_of_operand_error {f : Frame} {below : List Frame} {child : Expr}
    {fault : TypeFault} (hnext : f.next? = some child) (hvisits : Visits child (f :: below))
    (h : child.infer (Frame.pathOver below ++ [f.done.length]) = .error fault) :
    Halts (f, below) (.error fault) := by
  rw [Visits, pathOver_cons, h] at hvisits
  by_cases hmissing : child = .missing
  · subst hmissing
    cases h
    exact ⟨(f, below), .refl, by simp [step, hnext]⟩
  · have hdown : Moves (f, below) (⟨child, []⟩, f :: below) := by
      simp [Moves, step, hnext]
    exact .of_reaches (.single hdown) (hvisits.resolve_left hmissing)

/-- Where the next operand has a type, the steps lead to it. -/
theorem finishes_operand {f : Frame} {below : List Frame} {child : Expr} {t : Ty}
    (hnext : f.next? = some child) (hvisits : Visits child (f :: below))
    (h : child.infer (Frame.pathOver below ++ [f.done.length]) = .ok t) :
    ∃ done, Finishes (f, below) ⟨child, done⟩ (f :: below) t := by
  rw [Visits, pathOver_cons, h] at hvisits
  obtain ⟨done, hreaches, hdone, hresolve⟩ := hvisits
  have hmissing : child ≠ .missing := by
    rintro rfl
    cases h
  have hdown : Moves (f, below) (⟨child, []⟩, f :: below) := by
    simp [Moves, step, hnext]
  exact ⟨done, .head hdown hreaches, hdone, hresolve⟩

theorem halts_of_accept_error {f : Frame} {below : List Frame} {child : Expr} {t : Ty}
    {fault : TypeFault} (hnext : f.next? = some child)
    (hvisits : Visits child (f :: below))
    (h : child.infer (Frame.pathOver below ++ [f.done.length]) = .ok t)
    (haccept : f.accept below t = .error fault) : Halts (f, below) (.error fault) := by
  obtain ⟨done, hreaches, hdone, hresolve⟩ := finishes_operand hnext hvisits h
  exact ⟨_, hreaches, by simp [step, hdone, hresolve, haccept]⟩

theorem reaches_of_accept_ok {f : Frame} {below : List Frame} {child : Expr} {t : Ty}
    {f' : Frame} (hnext : f.next? = some child) (hvisits : Visits child (f :: below))
    (h : child.infer (Frame.pathOver below ++ [f.done.length]) = .ok t)
    (haccept : f.accept below t = .ok f') : Reaches (f, below) (f', below) := by
  obtain ⟨done, hreaches, hdone, hresolve⟩ := finishes_operand hnext hvisits h
  exact hreaches.tail (by simp [Moves, step, hdone, hresolve, haccept])

/-! ### A whole tree -/

theorem halts_of_resolve_error {f : Frame} {below : List Frame} {fault : TypeFault}
    (hdone : f.next? = none) (hresolve : f.resolve below = .error fault) :
    Halts (f, below) (.error fault) :=
  ⟨_, .refl, by simp [step, hdone, hresolve]⟩

theorem visits_add {left right : Expr} (below : List Frame)
    (hleft : ∀ below, Visits left below) (hright : ∀ below, Visits right below) :
    Visits (.add left right) below := by
  unfold Visits
  -- `f₀` and `f₁` wait for the left and the right operand
  let f₀ : Frame := ⟨.add left right, []⟩
  have hnext₀ : f₀.next? = some left := rfl
  simp only [Expr.infer]
  cases hl : left.infer (Frame.pathOver below ++ [0]) with
  | error fault => exact .inr (halts_of_operand_error hnext₀ (hleft _) hl)
  | ok l =>
      cases l with
      | boolean => exact .inr (halts_of_accept_error hnext₀ (hleft _) hl rfl)
      | number =>
          let f₁ : Frame := ⟨.add left right, [.number]⟩
          have hnext₁ : f₁.next? = some right := rfl
          have hreaches₁ : Reaches (f₀, below) (f₁, below) :=
            reaches_of_accept_ok hnext₀ (hleft _) hl rfl
          cases hr : right.infer (Frame.pathOver below ++ [1]) with
          | error fault =>
              exact .inr (.of_reaches hreaches₁
                (halts_of_operand_error hnext₁ (hright _) hr))
          | ok r =>
              cases r with
              | boolean =>
                  exact .inr (.of_reaches hreaches₁
                    (halts_of_accept_error hnext₁ (hright _) hr rfl))
              | number =>
                  exact ⟨[.number, .number], hreaches₁.trans
                    (reaches_of_accept_ok hnext₁ (hright _) hr rfl), rfl, rfl⟩

theorem visits_cond {test yes no : Expr} (below : List Frame)
    (htest : ∀ below, Visits test below) (hyes : ∀ below, Visits yes below)
    (hno : ∀ below, Visits no below) : Visits (.cond test yes no) below := by
  unfold Visits
  let f₀ : Frame := ⟨.cond test yes no, []⟩
  have hnext₀ : f₀.next? = some test := rfl
  simp only [Expr.infer]
  cases hc : test.infer (Frame.pathOver below ++ [0]) with
  | error fault => exact .inr (halts_of_operand_error hnext₀ (htest _) hc)
  | ok c =>
      cases c with
      | number => exact .inr (halts_of_accept_error hnext₀ (htest _) hc rfl)
      | boolean =>
          let f₁ : Frame := ⟨.cond test yes no, [.boolean]⟩
          have hnext₁ : f₁.next? = some yes := rfl
          have hreaches₁ : Reaches (f₀, below) (f₁, below) :=
            reaches_of_accept_ok hnext₀ (htest _) hc rfl
          cases hy : yes.infer (Frame.pathOver below ++ [1]) with
          | error fault =>
              exact .inr (.of_reaches hreaches₁
                (halts_of_operand_error hnext₁ (hyes _) hy))
          | ok y =>
              let f₂ : Frame := ⟨.cond test yes no, [.boolean, y]⟩
              have hnext₂ : f₂.next? = some no := rfl
              have hreaches₂ : Reaches (f₀, below) (f₂, below) :=
                hreaches₁.trans (reaches_of_accept_ok hnext₁ (hyes _) hy rfl)
              cases hn : no.infer (Frame.pathOver below ++ [2]) with
              | error fault =>
                  exact .inr (.of_reaches hreaches₂
                    (halts_of_operand_error hnext₂ (hno _) hn))
              | ok n =>
                  let f₃ : Frame := ⟨.cond test yes no, [.boolean, y, n]⟩
                  have hreaches₃ : Reaches (f₀, below) (f₃, below) :=
                    hreaches₂.trans (reaches_of_accept_ok hnext₂ (hno _) hn rfl)
                  by_cases hsame : y = n
                  · subst hsame
                    simp only [Outcome.ok_bind, ne_eq, not_true_eq_false, if_false]
                    exact ⟨[.boolean, y, y], hreaches₃, rfl, by simp [Frame.resolve]⟩
                  · simp only [Outcome.ok_bind, ne_eq, hsame, not_true_eq_false,
                      not_false_eq_true, if_true, if_false]
                    exact .inr (.of_reaches hreaches₃ (halts_of_resolve_error rfl
                      (by simp [f₃, Frame.resolve, Frame.fault, hsame])))

/-- What the checker makes of a tree agrees with the recursion, on top of any
stack. -/
theorem visit (e : Expr) (below : List Frame) : Visits e below := by
  induction e generalizing below with
  | missing => exact .inl rfl
  | bool b => exact ⟨[], .refl, rfl, rfl⟩
  | number v => exact ⟨[], .refl, rfl, rfl⟩
  | add left right hleft hright => exact visits_add below hleft hright
  | cond test yes no htest hyes hno => exact visits_cond below htest hyes hno

/-- The steps from a new stack lead to what the recursion gives. -/
theorem halts_infer {e : Expr} (h : e ≠ .missing) :
    Halts (⟨e, []⟩, []) (e.infer []) := by
  have hvisits := visit e []
  rw [Visits, show Frame.pathOver [] = [] from rfl] at hvisits
  cases hinfer : e.infer [] with
  | error fault =>
      rw [hinfer] at hvisits
      exact hvisits.resolve_left h
  | ok t =>
      rw [hinfer] at hvisits
      obtain ⟨done, hreaches, hdone, hresolve⟩ := hvisits
      exact ⟨_, hreaches, by simp [step, hdone, hresolve]⟩

/-! ### Places of the operands' types -/

/-- A frame has no more types than operands, and one that waits for an operand
has fewer. -/
def Fits (s : State) : Prop :=
  s.1.done.length ≤ s.1.node.children.length ∧
    ∀ f ∈ s.2, f.done.length < f.node.children.length

theorem Fits.of_moves {s s' : State} (h : Fits s) (hmoves : Moves s s') : Fits s' := by
  obtain ⟨top, below⟩ := s
  obtain ⟨top', below'⟩ := s'
  obtain ⟨htop, hbelow⟩ := h
  dsimp only [Moves] at hmoves htop hbelow
  obtain ⟨child, hnext, _, rfl, rfl⟩ | ⟨parent, t, _, _, rfl, haccept⟩ :=
    step_eq_onward hmoves
  · obtain ⟨hlt, _⟩ := List.getElem?_eq_some_iff.mp hnext
    exact ⟨Nat.zero_le _, List.forall_mem_cons.mpr ⟨hlt, hbelow⟩⟩
  · obtain ⟨hparent, hrest⟩ := List.forall_mem_cons.mp hbelow
    rw [accept_eq_ok haccept]
    exact ⟨by simpa using Nat.succ_le_of_lt hparent, hrest⟩

theorem Fits.of_reaches {s s' : State} (h : Fits s) (hreaches : Reaches s s') :
    Fits s' := by
  induction hreaches with
  | refl => exact h
  | tail _ hmoves ih => exact ih.of_moves hmoves

/-- A node without a next operand has one type for each operand. -/
theorem Fits.length_eq {top : Frame} {below : List Frame} (h : Fits (top, below))
    (hnext : top.next? = none) : top.done.length = top.node.children.length := by
  have hle := List.getElem?_eq_none_iff.mp hnext
  exact Nat.le_antisymm h.1 hle

end Checker

/-- The checker's stack comes to the same answer as the recursion, by a finite
number of steps, and a conditional is resolved with the types of its three
operands at hand. -/
theorem typeOf_eq_infer (e : Expr) :
    typeOf e = e.infer [] ∧
    (e ≠ .missing → Checker.Halts (⟨e, []⟩, []) (e.infer [])) ∧
    ∀ top below, Checker.Reaches (⟨e, []⟩, []) (top, below) → top.next? = none →
      ∀ test yes no, top.node = .cond test yes no → ∃ c y n, top.done = [c, y, n] := by
  refine ⟨?_, Checker.halts_infer, ?_⟩
  · by_cases hmissing : e = .missing
    · subst hmissing
      rfl
    · have hrun := (Checker.halts_infer hmissing).run_eq
      cases e with
      | missing => exact absurd rfl hmissing
      | _ => exact hrun
  · intro top below hreaches hnext test yes no hnode
    have hfits := Checker.Fits.of_reaches (s := (⟨e, []⟩, [])) ⟨Nat.zero_le _, by simp⟩
      hreaches
    have hlength := hfits.length_eq hnext
    rw [hnode] at hlength
    exact List.length_eq_three.mp hlength

end TwoSorted
