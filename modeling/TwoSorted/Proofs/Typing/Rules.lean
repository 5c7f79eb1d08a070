import TwoSorted.Proofs.Typing.Recursion

/-!
# The typing rules

`HasType e t` is derived by one rule for each form of expression, and
`Violates kind locus e` lists the ways in which the types of the operands of a
node can break its rule. The checker gives a tree a type exactly if the rules do.
A fault that it reports is true: the node is found in the tree at the path of the
fault, and it breaks its rule in the way that the kind and the locus say.

Both directions are shown of the recursion `Expr.infer` first. A tree of which no
operand is missing is called whole; nothing else keeps a fault from being about
the types.
-/

namespace TwoSorted

open Outcome

namespace Expr

/-- No operand is missing anywhere in the tree. -/
def Whole : Expr → Prop
  | missing => False
  | bool _ => True
  | number _ => True
  | add left right => left.Whole ∧ right.Whole
  | cond test yes no => test.Whole ∧ yes.Whole ∧ no.Whole

instance decidableWhole : (e : Expr) → Decidable e.Whole
  | missing => inferInstanceAs (Decidable False)
  | bool _ => inferInstanceAs (Decidable True)
  | number _ => inferInstanceAs (Decidable True)
  | add left right =>
    have := decidableWhole left
    have := decidableWhole right
    inferInstanceAs (Decidable (_ ∧ _))
  | cond test yes no =>
    have := decidableWhole test
    have := decidableWhole yes
    have := decidableWhole no
    inferInstanceAs (Decidable (_ ∧ _ ∧ _))

/-- The node to which a path leads, by the places of the operands. -/
def at? : Expr → List Nat → Option Expr
  | e, [] => some e
  | e, i :: path => e.children[i]?.bind fun child => child.at? path

theorem at?_cons {e child : Expr} {i : Nat} (h : e.children[i]? = some child)
    (path : List Nat) : e.at? (i :: path) = child.at? path := by
  rw [at?, h, Option.bind_some]

/-- The operands of a whole tree are whole. -/
theorem Whole.of_child {e child : Expr} (h : e.Whole) {i : Nat}
    (hchild : e.children[i]? = some child) : child.Whole := by
  have hmem := List.mem_of_getElem? hchild
  cases e with
  | missing => exact h.elim
  | bool b => simp [children] at hmem
  | number v => simp [children] at hmem
  | add left right =>
      obtain ⟨hleft, hright⟩ := h
      rcases hmem with _ | ⟨_, hmem⟩
      · exact hleft
      · rw [List.mem_singleton.mp hmem]
        exact hright
  | cond test yes no =>
      obtain ⟨htest, hyes, hno⟩ := h
      rcases hmem with _ | ⟨_, hmem⟩
      · exact htest
      · rcases hmem with _ | ⟨_, hmem⟩
        · exact hyes
        · rw [List.mem_singleton.mp hmem]
          exact hno

end Expr

/-- The typing rules. -/
inductive HasType : Expr → Ty → Prop
  | bool (b : Bool) : HasType (.bool b) .boolean
  | number (v : Binary64) : HasType (.number v) .number
  | add {left right} (hleft : HasType left .number) (hright : HasType right .number) :
      HasType (.add left right) .number
  | cond {test yes no t} (htest : HasType test .boolean) (hyes : HasType yes t)
      (hno : HasType no t) : HasType (.cond test yes no) t

/-- The ways in which a node breaks the rule for its form, the operands before the
one to blame being in order. -/
inductive Violates : FaultKind → Locus → Expr → Prop
  | left {left right} (hleft : HasType left .boolean) :
      Violates .numberExpected .left (.add left right)
  | right {left right} (hleft : HasType left .number) (hright : HasType right .boolean) :
      Violates .numberExpected .right (.add left right)
  | condition {test yes no} (htest : HasType test .number) :
      Violates .booleanExpected .condition (.cond test yes no)
  | branches {test yes no t u} (htest : HasType test .boolean) (hyes : HasType yes t)
      (hno : HasType no u) (hne : t ≠ u) :
      Violates .branchMismatch .branches (.cond test yes no)

/-- The fault is one that the tree `e` at `path` really has. -/
def Explains (path : List Nat) (e : Expr) : TypeFault → Prop
  | .missing => ¬ e.Whole
  | .mismatch m => ∃ tail, m.path = path ++ tail ∧ e.at? tail = some m.node ∧
      Violates m.kind m.locus m.node

/-- A fault of an operand is a fault of the node above it. -/
theorem Explains.of_operand {path : List Nat} {e child : Expr} {i : Nat}
    (hchild : e.children[i]? = some child) {fault : TypeFault}
    (h : Explains (path ++ [i]) child fault) : Explains path e fault := by
  cases fault with
  | missing => exact fun he => h (he.of_child hchild)
  | mismatch m =>
      obtain ⟨tail, hpath, hat, hviolates⟩ := h
      refine ⟨i :: tail, ?_, ?_, hviolates⟩
      · rw [hpath, List.append_assoc, List.singleton_append]
      · rw [Expr.at?_cons hchild, hat]

/-- A fault of the node itself. -/
theorem Explains.root {path : List Nat} {e : Expr} {kind : FaultKind} {locus : Locus}
    (h : Violates kind locus e) : Explains path e (.mismatch ⟨kind, locus, e, path⟩) :=
  ⟨[], (List.append_nil path).symm, rfl, h⟩

namespace Expr

/-- The type of an operand is derivable, or its fault is one of the whole node. -/
theorem satisfies_operand {path : List Nat} {e child : Expr} {i : Nat}
    (hchild : e.children[i]? = some child)
    (h : Satisfies (Explains (path ++ [i]) child) (HasType child)
      (child.infer (path ++ [i]))) :
    Satisfies (Explains path e) (HasType child) (child.infer (path ++ [i])) :=
  h.imp (fun _ => Explains.of_operand hchild) fun _ => id

/-- The recursion gives types that the rules derive, and faults that the tree has. -/
theorem infer_satisfies (path : List Nat) (e : Expr) :
    Satisfies (Explains path e) (HasType e) (e.infer path) := by
  induction e generalizing path with
  | missing => exact id
  | bool b => exact .bool b
  | number v => exact .number v
  | add left right ihleft ihright =>
      refine (satisfies_operand (i := 0) rfl (ihleft _)).bind fun l hleft => ?_
      cases l with
      | boolean => exact .root (.left hleft)
      | number =>
          refine (satisfies_operand (i := 1) rfl (ihright _)).bind fun r hright => ?_
          cases r with
          | boolean => exact .root (.right hleft hright)
          | number => exact HasType.add hleft hright
  | cond test yes no ihtest ihyes ihno =>
      refine (satisfies_operand (i := 0) rfl (ihtest _)).bind fun c htest => ?_
      cases c with
      | number => exact .root (.condition htest)
      | boolean =>
          refine (satisfies_operand (i := 1) rfl (ihyes _)).bind fun y hyes => ?_
          refine (satisfies_operand (i := 2) rfl (ihno _)).bind fun n hno => ?_
          by_cases hsame : y = n
          · subst hsame
            simp only [ne_eq, not_true_eq_false, if_false]
            exact HasType.cond htest hyes hno
          · simp only [ne_eq, hsame, not_false_eq_true, if_true]
            exact .root (.branches htest hyes hno hsame)

end Expr

/-- The recursion finds every type that the rules derive. -/
theorem HasType.infer_eq {e : Expr} {t : Ty} (h : HasType e t) (path : List Nat) :
    e.infer path = .ok t := by
  induction h generalizing path with
  | bool b => rfl
  | number v => rfl
  | add hleft hright ihleft ihright => simp [Expr.infer, ihleft, ihright]
  | cond htest hyes hno ihtest ihyes ihno => simp [Expr.infer, ihtest, ihyes, ihno]

/-- The checker on a tree is the recursion from its root. -/
theorem typeOf_eq_infer_root (e : Expr) : typeOf e = e.infer [] := by
  have hrun := fun h : e ≠ .missing => (Checker.halts_infer h).run_eq
  cases e with
  | missing => rfl
  | _ => exact hrun nofun

/-- A type that the checker finds is derivable, whether or not operands are missing
elsewhere. -/
theorem hasType_of_typeOf {e : Expr} {t : Ty} (h : typeOf e = .ok t) : HasType e t := by
  have hinfer := e.infer_satisfies []
  rw [← typeOf_eq_infer_root, h] at hinfer
  exact hinfer

theorem HasType.typeOf_eq {e : Expr} {t : Ty} (h : HasType e t) : typeOf e = .ok t := by
  rw [typeOf_eq_infer_root, h.infer_eq]

/-- A whole tree has a type that the rules derive, or a fault that is true of the
node at its path. -/
theorem typeOf_cases {e : Expr} (h : e.Whole) :
    (∃ t, typeOf e = .ok t ∧ HasType e t) ∨
    ∃ m, typeOf e = .error (.mismatch m) ∧ e.at? m.path = some m.node ∧
      Violates m.kind m.locus m.node := by
  have hinfer := e.infer_satisfies []
  rw [← typeOf_eq_infer_root] at hinfer
  generalize typeOf e = outcome at hinfer ⊢
  rcases outcome with (_ | m) | t
  · exact absurd h hinfer
  · obtain ⟨tail, hpath, hat, hviolates⟩ := hinfer
    rw [List.nil_append] at hpath
    exact .inr ⟨m, rfl, hpath ▸ hat, hviolates⟩
  · exact .inl ⟨t, rfl, hinfer⟩

/-- The checker decides the typing rules, and what it says of a tree without a
type is true of the node that it names. -/
theorem typeOf_iff_hasType {e : Expr} (h : e.Whole) :
    (∀ t, typeOf e = .ok t ↔ HasType e t) ∧
    ∀ fault, typeOf e = .error fault → ∃ m, fault = .mismatch m ∧
      e.at? m.path = some m.node ∧ Violates m.kind m.locus m.node := by
  constructor
  · intro t
    constructor
    · intro htype
      obtain ⟨t', htype', hrule⟩ | ⟨m, hfault, _⟩ := typeOf_cases h
      · rw [htype] at htype'
        cases htype'
        exact hrule
      · rw [htype] at hfault
        cases hfault
    · intro hrule
      rw [typeOf_eq_infer_root, hrule.infer_eq]
  · intro fault hfault
    obtain ⟨t, htype, _⟩ | ⟨m, hfault', hat, hviolates⟩ := typeOf_cases h
    · rw [hfault] at htype
      cases htype
    · rw [hfault] at hfault'
      cases hfault'
      exact ⟨m, rfl, hat, hviolates⟩

/-- A sum in the last branch of a conditional has an operand with branches of
different types, and the operand right of it is not looked at. -/
theorem typeOf_iff_hasType_branches :
    let node := Expr.cond (.bool false) (.bool true) (.number ⟨0⟩)
    let e := Expr.cond (.bool true) (.number ⟨1⟩) (.add (.add (.number ⟨2⟩) node) (.bool true))
    e.Whole ∧ typeOf e = .error (.mismatch ⟨.branchMismatch, .branches, node, [2, 0, 1]⟩) ∧
      e.at? [2, 0, 1] = some node ∧ Violates .branchMismatch .branches node := by
  intro node e
  have hwhole : e.Whole := by decide
  have hfault : typeOf e =
      .error (.mismatch ⟨.branchMismatch, .branches, node, [2, 0, 1]⟩) := by
    rw [typeOf_eq_infer_root]
    rfl
  obtain ⟨m, hm, hat, hviolates⟩ := (typeOf_iff_hasType hwhole).2 _ hfault
  cases hm
  exact ⟨hwhole, hfault, hat, hviolates⟩

end TwoSorted
