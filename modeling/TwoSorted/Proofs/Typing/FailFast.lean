import TwoSorted.Proofs.Typing.Rules

/-!
# Nothing counts behind the first fault

The checker goes through a tree from the left and stops at the first fault. Here it is
said how far it has come then. `Stops place path e fault` derives the fault of the tree
`e` at `path` together with the place of the operand that is looked at last, by one rule
for each way down to that operand.

`SameUpTo place e e'` says that two trees differ at most in operands that come later
than the one at `place`: those to the right of it and to the right of the nodes above it.
A derivation for `e` that ends at `place` is then one for `e'` as well, with the same
operands in the same types on its way. Only the node that the fault names may differ, if
it has later operands of its own.
-/

namespace TwoSorted

open Outcome

/-- The place of the operand that is looked at last before a fault is found there. -/
def Locus.place : Locus → Nat
  | left => 0
  | right => 1
  | condition => 0
  | branches => 2

/-- The trees are the same up to the operand at `place`, and this operand is the same.
To the right of it, and to the right of the nodes above it, there may be anything. -/
inductive SameUpTo : (place : List Nat) → Expr → Expr → Prop
  | here (e : Expr) : SameUpTo [] e e
  | left {place left left'} (h : SameUpTo place left left') (right right' : Expr) :
      SameUpTo (0 :: place) (.add left right) (.add left' right')
  | right (left : Expr) {place right right'} (h : SameUpTo place right right') :
      SameUpTo (1 :: place) (.add left right) (.add left right')
  | test {place test test'} (h : SameUpTo place test test') (yes no yes' no' : Expr) :
      SameUpTo (0 :: place) (.cond test yes no) (.cond test' yes' no')
  | yes (test : Expr) {place yes yes'} (h : SameUpTo place yes yes') (no no' : Expr) :
      SameUpTo (1 :: place) (.cond test yes no) (.cond test yes' no')
  | no (test yes : Expr) {place no no'} (h : SameUpTo place no no') :
      SameUpTo (2 :: place) (.cond test yes no) (.cond test yes no')

/-- The first fault of the tree `e` at `path`. The operand that is looked at last is at
`place` in `e`, and all operands before it have the types that are wanted. -/
inductive Stops : (place path : List Nat) → Expr → TypeFault → Prop
  | missing {path} : Stops [] path .missing .missing
  | mismatch {path kind locus e} (h : Violates kind locus e) :
      Stops [locus.place] path e (.mismatch ⟨kind, locus, e, path⟩)
  | left {place path left right fault} (h : Stops place (path ++ [0]) left fault) :
      Stops (0 :: place) path (.add left right) fault
  | right {place path left right fault} (hleft : HasType left .number)
      (h : Stops place (path ++ [1]) right fault) :
      Stops (1 :: place) path (.add left right) fault
  | test {place path test yes no fault} (h : Stops place (path ++ [0]) test fault) :
      Stops (0 :: place) path (.cond test yes no) fault
  | yes {place path test yes no fault} (htest : HasType test .boolean)
      (h : Stops place (path ++ [1]) yes fault) :
      Stops (1 :: place) path (.cond test yes no) fault
  | no {place path test yes no t fault} (htest : HasType test .boolean)
      (hyes : HasType yes t) (h : Stops place (path ++ [2]) no fault) :
      Stops (2 :: place) path (.cond test yes no) fault

/-! ### Derivations of faults and the recursion -/

/-- Where an operand stops, the node above it does. -/
theorem Stops.satisfies_operand {path : List Nat} {e child : Expr} {i : Nat}
    (hrule : ∀ {place fault}, Stops place (path ++ [i]) child fault →
      Stops (i :: place) path e fault)
    (h : Satisfies (fun fault => ∃ place, Stops place (path ++ [i]) child fault)
      (HasType child) (child.infer (path ++ [i]))) :
    Satisfies (fun fault => ∃ place, Stops place path e fault) (HasType child)
      (child.infer (path ++ [i])) := by
  refine h.imp ?_ fun _ => id
  rintro fault ⟨place, hstops⟩
  exact ⟨i :: place, hrule hstops⟩

/-- The recursion stops at some operand if it does not find a type. -/
theorem Expr.infer_stops (path : List Nat) (e : Expr) :
    Satisfies (fun fault => ∃ place, Stops place path e fault) (HasType e) (e.infer path) := by
  induction e generalizing path with
  | missing => exact ⟨[], .missing⟩
  | bool b => exact .bool b
  | number v => exact .number v
  | add left right ihleft ihright =>
      refine (Stops.satisfies_operand .left (ihleft _)).bind fun l hleft => ?_
      cases l with
      | boolean => exact ⟨_, .mismatch (.left hleft)⟩
      | number =>
          refine (Stops.satisfies_operand (.right hleft) (ihright _)).bind fun r hright => ?_
          cases r with
          | boolean => exact ⟨_, .mismatch (.right hleft hright)⟩
          | number => exact HasType.add hleft hright
  | cond test yes no ihtest ihyes ihno =>
      refine (Stops.satisfies_operand .test (ihtest _)).bind fun c htest => ?_
      cases c with
      | number => exact ⟨_, .mismatch (.condition htest)⟩
      | boolean =>
          refine (Stops.satisfies_operand (.yes htest) (ihyes _)).bind fun y hyes => ?_
          refine (Stops.satisfies_operand (.no htest hyes) (ihno _)).bind fun n hno => ?_
          by_cases hsame : y = n
          · subst hsame
            simp only [ne_eq, not_true_eq_false, if_false]
            exact HasType.cond htest hyes hno
          · simp only [ne_eq, hsame, not_false_eq_true, if_true]
            exact ⟨_, .mismatch (.branches htest hyes hno hsame)⟩

theorem Violates.infer_eq {kind : FaultKind} {locus : Locus} {e : Expr}
    (h : Violates kind locus e) (path : List Nat) :
    e.infer path = .error (.mismatch ⟨kind, locus, e, path⟩) := by
  cases h with
  | left hleft => simp [Expr.infer, hleft.infer_eq]
  | right hleft hright => simp [Expr.infer, hleft.infer_eq, hright.infer_eq]
  | condition htest => simp [Expr.infer, htest.infer_eq]
  | branches htest hyes hno hne =>
      simp [Expr.infer, htest.infer_eq, hyes.infer_eq, hno.infer_eq, hne]

/-- The recursion finds every fault that is derived. -/
theorem Stops.infer_eq {place path : List Nat} {e : Expr} {fault : TypeFault}
    (h : Stops place path e fault) : e.infer path = .error fault := by
  induction h with
  | missing => rfl
  | mismatch h => exact h.infer_eq _
  | left h ih => simp [Expr.infer, ih]
  | right hleft h ih => simp [Expr.infer, hleft.infer_eq, ih]
  | test h ih => simp [Expr.infer, ih]
  | yes htest h ih => simp [Expr.infer, htest.infer_eq, ih]
  | no htest hyes h ih => simp [Expr.infer, htest.infer_eq, hyes.infer_eq, ih]

theorem typeOf_eq_error_iff {e : Expr} {fault : TypeFault} :
    typeOf e = .error fault ↔ ∃ place, Stops place [] e fault := by
  rw [typeOf_eq_infer_root]
  constructor
  · intro hinfer
    have hstops := e.infer_stops []
    rw [hinfer] at hstops
    exact hstops
  · rintro ⟨place, hstops⟩
    exact hstops.infer_eq

/-! ### Where a tree stops -/

/-- A fault of the types tells the operand that is looked at last. -/
theorem Stops.place_eq {place path : List Nat} {e : Expr} {m : Mismatch}
    (h : Stops place path e (.mismatch m)) : m.path ++ [m.locus.place] = path ++ place := by
  generalize hfault : TypeFault.mismatch m = fault at h
  induction h with
  | missing => cases hfault
  | mismatch h =>
      cases hfault
      rfl
  | _ => simp_all

/-- A missing operand is the one that is looked at last. -/
theorem Stops.at?_eq {place path : List Nat} {e : Expr} (h : Stops place path e .missing) :
    e.at? place = some .missing := by
  generalize hfault : TypeFault.missing = fault at h
  induction h with
  | missing => rfl
  | mismatch h => cases hfault
  | left h ih => exact ih hfault
  | right hleft h ih => exact ih hfault
  | test h ih => exact ih hfault
  | yes htest h ih => exact ih hfault
  | no htest hyes h ih => exact ih hfault

theorem HasType.whole {e : Expr} {t : Ty} (h : HasType e t) : e.Whole := by
  induction h with
  | bool b => trivial
  | number v => trivial
  | add _ _ ihleft ihright => exact ⟨ihleft, ihright⟩
  | cond _ _ _ ihtest ihyes ihno => exact ⟨ihtest, ihyes, ihno⟩

theorem Expr.Whole.at? {e node : Expr} {place : List Nat} (h : e.Whole)
    (hat : e.at? place = some node) : node.Whole := by
  induction place generalizing e with
  | nil =>
      cases hat
      exact h
  | cons i place ih =>
      obtain ⟨child, hchild, hat⟩ := Option.bind_eq_some_iff.mp hat
      exact ih (h.of_child hchild) hat

/-- No operand is missing from a tree that has a type. -/
theorem HasType.at?_ne {e : Expr} {t : Ty} (h : HasType e t) (place : List Nat) :
    e.at? place ≠ some .missing :=
  fun hat => h.whole.at? hat

/-! ### Trees that are the same up to there -/

/-- The faults are the same but for the node that is named. -/
inductive TypeFault.SameAs : TypeFault → TypeFault → Prop
  | missing : SameAs missing missing
  | mismatch {kind locus path} (node node' : Expr) :
      SameAs (mismatch ⟨kind, locus, node, path⟩) (mismatch ⟨kind, locus, node', path⟩)

theorem SameUpTo.eq {e e' : Expr} (h : SameUpTo [] e e') : e = e' := by
  cases h
  rfl

/-- The rule for a node is broken in the same way if the operands up to the last one that
is looked at are the same. -/
theorem Violates.of_sameUpTo {kind : FaultKind} {locus : Locus} {e e' : Expr}
    (h : Violates kind locus e) (hsame : SameUpTo [locus.place] e e') :
    Violates kind locus e' := by
  cases h with
  | left hleft =>
      cases hsame with
      | left hsame => exact .left (hsame.eq ▸ hleft)
  | right hleft hright =>
      cases hsame with
      | right _ hsame => exact .right hleft (hsame.eq ▸ hright)
  | condition htest =>
      cases hsame with
      | test hsame => exact .condition (hsame.eq ▸ htest)
  | branches htest hyes hno hne =>
      cases hsame with
      | no _ _ hsame => exact .branches htest hyes (hsame.eq ▸ hno) hne

/-- What comes later than the operand that is looked at last does not matter. -/
theorem Stops.of_sameUpTo {place path : List Nat} {e e' : Expr} {fault : TypeFault}
    (h : Stops place path e fault) (hsame : SameUpTo place e e') :
    ∃ fault', Stops place path e' fault' ∧ fault.SameAs fault' := by
  induction h generalizing e' with
  | missing =>
      cases hsame
      exact ⟨.missing, .missing, .missing⟩
  | mismatch h => exact ⟨_, .mismatch (h.of_sameUpTo hsame), .mismatch _ _⟩
  | left h ih =>
      cases hsame with
      | left hsame =>
          obtain ⟨fault', hstops, hfault⟩ := ih hsame
          exact ⟨fault', .left hstops, hfault⟩
  | right hleft h ih =>
      cases hsame with
      | right _ hsame =>
          obtain ⟨fault', hstops, hfault⟩ := ih hsame
          exact ⟨fault', .right hleft hstops, hfault⟩
  | test h ih =>
      cases hsame with
      | test hsame =>
          obtain ⟨fault', hstops, hfault⟩ := ih hsame
          exact ⟨fault', .test hstops, hfault⟩
  | yes htest h ih =>
      cases hsame with
      | yes _ hsame =>
          obtain ⟨fault', hstops, hfault⟩ := ih hsame
          exact ⟨fault', .yes htest hstops, hfault⟩
  | no htest hyes h ih =>
      cases hsame with
      | no _ _ hsame =>
          obtain ⟨fault', hstops, hfault⟩ := ih hsame
          exact ⟨fault', .no htest hyes hstops, hfault⟩

/-- Of several missing operands the first one is met, so what comes later than any of
them does not matter. -/
theorem Stops.of_sameUpTo_missing {place path p : List Nat} {e e' : Expr}
    (h : Stops place path e .missing) (hp : e.at? p = some .missing)
    (hsame : SameUpTo p e e') : Stops place path e' .missing := by
  generalize hfault : TypeFault.missing = fault at h ⊢
  -- the derivation and the way to the operand at `p` part where the latter turns right
  induction h generalizing p e' with
  | missing =>
      cases hsame
      exact .missing
  | mismatch h => cases hfault
  | left h ih =>
      cases hsame with
      | here => exact .left h
      | left hsame => exact .left (ih hp hsame hfault)
      | right => exact .left h
  | right hleft h ih =>
      cases hsame with
      | here => exact .right hleft h
      | left hsame => exact absurd hp (hleft.at?_ne _)
      | right _ hsame => exact .right hleft (ih hp hsame hfault)
  | test h ih =>
      cases hsame with
      | here => exact .test h
      | test hsame => exact .test (ih hp hsame hfault)
      | yes => exact .test h
      | no => exact .test h
  | yes htest h ih =>
      cases hsame with
      | here => exact .yes htest h
      | test hsame => exact absurd hp (htest.at?_ne _)
      | yes _ hsame => exact .yes htest (ih hp hsame hfault)
      | no => exact .yes htest h
  | no htest hyes h ih =>
      cases hsame with
      | here => exact .no htest hyes h
      | test hsame => exact absurd hp (htest.at?_ne _)
      | yes _ hsame => exact absurd hp (hyes.at?_ne _)
      | no _ _ hsame => exact .no htest hyes (ih hp hsame hfault)

/-- Checking is fail-fast. A tree without a type has the same fault whatever is put in the
place of the operands that come later than the one looked at last: for a fault of the
types this is the operand of the faulty node that the locus tells, and else an operand
that is missing. -/
theorem typeOf_of_sameUpTo (e : Expr) :
    (∀ m, typeOf e = .error (.mismatch m) →
      ∀ e', SameUpTo (m.path ++ [m.locus.place]) e e' →
        ∃ m', typeOf e' = .error (.mismatch m') ∧ m'.kind = m.kind ∧ m'.locus = m.locus ∧
          m'.path = m.path) ∧
    (typeOf e = .error .missing →
      (∃ place, e.at? place = some .missing) ∧
      ∀ place, e.at? place = some .missing →
        ∀ e', SameUpTo place e e' → typeOf e' = .error .missing) := by
  constructor
  · intro m hfault e' hsame
    obtain ⟨place, hstops⟩ := typeOf_eq_error_iff.mp hfault
    rw [hstops.place_eq] at hsame
    obtain ⟨fault', hstops', hfault'⟩ := hstops.of_sameUpTo hsame
    cases hfault' with
    | mismatch node node' =>
        exact ⟨_, typeOf_eq_error_iff.mpr ⟨place, hstops'⟩, rfl, rfl, rfl⟩
  · intro hfault
    obtain ⟨place, hstops⟩ := typeOf_eq_error_iff.mp hfault
    refine ⟨⟨place, hstops.at?_eq⟩, fun p hp e' hsame => ?_⟩
    exact typeOf_eq_error_iff.mpr ⟨place, hstops.of_sameUpTo_missing hp hsame⟩

/-- A number as a condition, with both branches and the operand behind the conditional
exchanged, and a missing operand with everything behind it exchanged. -/
theorem typeOf_of_sameUpTo_condition :
    let e := Expr.add (.cond (.number ⟨1⟩) .missing (.bool true)) (.bool false)
    let e' := Expr.add (.cond (.number ⟨1⟩) (.bool true) (.number ⟨2⟩)) .missing
    let f := Expr.cond (.bool true) (.add .missing (.bool true)) (.bool false)
    let f' := Expr.cond (.bool true) (.add .missing (.number ⟨1⟩)) (.add (.bool true) .missing)
    (∃ m m', typeOf e = .error (.mismatch m) ∧ SameUpTo (m.path ++ [m.locus.place]) e e' ∧
      typeOf e' = .error (.mismatch m') ∧ m'.kind = .booleanExpected ∧
      m'.locus = .condition ∧ m'.path = [0]) ∧
    typeOf f = .error .missing ∧ f.at? [1, 0] = some .missing ∧ SameUpTo [1, 0] f f' ∧
      typeOf f' = .error .missing := by
  intro e e' f f'
  have he : typeOf e = .error (.mismatch ⟨.booleanExpected, .condition,
      .cond (.number ⟨1⟩) .missing (.bool true), [0]⟩) := by
    rw [typeOf_eq_infer_root]
    rfl
  have hf : typeOf f = .error .missing := by
    rw [typeOf_eq_infer_root]
    rfl
  have hsame : SameUpTo [0, 0] e e' := .left (.test (.here _) _ _ _ _) _ _
  have hsame' : SameUpTo [1, 0] f f' := .yes _ (.left (.here _) _ _) _ _
  obtain ⟨m', hm'⟩ := (typeOf_of_sameUpTo e).1 _ he e' hsame
  exact ⟨⟨_, m', he, hsame, hm'⟩, hf, rfl, hsame',
    ((typeOf_of_sameUpTo f).2 hf).2 [1, 0] rfl f' hsame'⟩

end TwoSorted
