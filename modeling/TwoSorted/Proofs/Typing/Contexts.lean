import TwoSorted.Proofs.Typing.Rules

/-!
# Trees with a hole

A `Context` is a tree in which one operand, or the whole tree, is left open. What
the checker makes of the tree depends on what is put into the hole only through
its type: two trees of the same type lead to the same type of the whole, or to
the same fault at the same path, which is never in the hole.

`Alike place` relates the outcomes of two such trees, `place` being the path to
the hole. It is kept by every step of the recursion `Expr.infer`, so it holds of
the whole tree by induction on the context.
-/

namespace TwoSorted

open Outcome

/-- A tree with a hole, and trees in the place of all other operands. -/
inductive Context where
  | hole
  | left (c : Context) (right : Expr)
  | right (left : Expr) (c : Context)
  | test (c : Context) (yes no : Expr)
  | yes (test : Expr) (c : Context) (no : Expr)
  | no (test yes : Expr) (c : Context)

namespace Context

/-- The tree with `e` in the hole. -/
def fill (e : Expr) : Context → Expr
  | hole => e
  | left c r => .add (c.fill e) r
  | right l c => .add l (c.fill e)
  | test c y n => .cond (c.fill e) y n
  | yes t c n => .cond t (c.fill e) n
  | no t y c => .cond t y (c.fill e)

/-- The path to the hole. -/
def path : Context → List Nat
  | hole => []
  | left c _ => 0 :: c.path
  | right _ c => 1 :: c.path
  | test c _ _ => 0 :: c.path
  | yes _ c _ => 1 :: c.path
  | no _ _ c => 2 :: c.path

/-- The path to the hole leads to what is put there. -/
theorem at?_fill (e : Expr) (c : Context) : (c.fill e).at? c.path = some e := by
  induction c with
  | hole => rfl
  | left c r ih => exact ih
  | right l c ih => exact ih
  | test c y n ih => exact ih
  | yes t c n ih => exact ih
  | no t y c ih => exact ih

end Context

/-- Two outcomes with the same type, or with the same fault but for its node. The
fault is at a path that does not pass through `place`. -/
inductive Alike (place : List Nat) : Except TypeFault Ty → Except TypeFault Ty → Prop
  | type (t : Ty) : Alike place (.ok t) (.ok t)
  | missing : Alike place (.error .missing) (.error .missing)
  | mismatch {kind locus node node' path} (h : ¬ place <+: path) :
      Alike place (.error (.mismatch ⟨kind, locus, node, path⟩))
        (.error (.mismatch ⟨kind, locus, node', path⟩))

namespace Alike

variable {place : List Nat}

theorem bind {x y : Except TypeFault Ty} {f g : Ty → Except TypeFault Ty}
    (h : Alike place x y) (hnext : ∀ t, Alike place (f t) (g t)) :
    Alike place (x >>= f) (y >>= g) := by
  cases h with
  | type t => exact hnext t
  | missing => exact .missing
  | mismatch h => exact .mismatch h

/-- A fault of the node above the place. -/
theorem above {kind : FaultKind} {locus : Locus} {node node' : Expr} (path : List Nat)
    (i : Nat) (tail : List Nat) :
    Alike (path ++ i :: tail) (.error (.mismatch ⟨kind, locus, node, path⟩))
      (.error (.mismatch ⟨kind, locus, node', path⟩)) := by
  refine .mismatch fun hpre => ?_
  have hle := hpre.length_le
  simp only [List.length_append, List.length_cons] at hle
  omega

/-- The faults of an operand are not at the place of another operand. -/
theorem beside (e : Expr) (path : List Nat) {i j : Nat} (tail : List Nat) (h : i ≠ j) :
    Alike (path ++ i :: tail) (e.infer (path ++ [j])) (e.infer (path ++ [j])) := by
  have hinfer := e.infer_satisfies (path ++ [j])
  generalize e.infer (path ++ [j]) = x at hinfer ⊢
  rcases x with (_ | m) | t
  · exact .missing
  · obtain ⟨rest, hpath, _⟩ := hinfer
    refine .mismatch ?_
    rw [hpath, List.append_assoc, List.prefix_append_right_inj, List.singleton_append,
      List.cons_prefix_cons]
    exact fun hpre => h hpre.1
  · exact .type t

end Alike

/-- A sum whose operands have outcomes that are alike. -/
theorem Expr.infer_add_alike {left right left' right' : Expr} (path : List Nat) {i : Nat}
    {tail : List Nat}
    (hleft : Alike (path ++ i :: tail) (left.infer (path ++ [0])) (left'.infer (path ++ [0])))
    (hright : Alike (path ++ i :: tail) (right.infer (path ++ [1]))
      (right'.infer (path ++ [1]))) :
    Alike (path ++ i :: tail) ((add left right).infer path)
      ((add left' right').infer path) := by
  refine hleft.bind fun l => ?_
  cases l with
  | boolean => exact .above path i tail
  | number =>
      refine hright.bind fun r => ?_
      cases r with
      | boolean => exact .above path i tail
      | number => exact .type .number

/-- A conditional whose operands have outcomes that are alike. -/
theorem Expr.infer_cond_alike {test yes no test' yes' no' : Expr} (path : List Nat)
    {i : Nat} {tail : List Nat}
    (htest : Alike (path ++ i :: tail) (test.infer (path ++ [0])) (test'.infer (path ++ [0])))
    (hyes : Alike (path ++ i :: tail) (yes.infer (path ++ [1])) (yes'.infer (path ++ [1])))
    (hno : Alike (path ++ i :: tail) (no.infer (path ++ [2])) (no'.infer (path ++ [2]))) :
    Alike (path ++ i :: tail) ((cond test yes no).infer path)
      ((cond test' yes' no').infer path) := by
  refine htest.bind fun c => ?_
  cases c with
  | number => exact .above path i tail
  | boolean =>
      refine hyes.bind fun y => hno.bind fun n => ?_
      by_cases hsame : y = n
      · simp only [hsame, ne_eq, not_true_eq_false, if_false]
        exact .type n
      · simp only [ne_eq, hsame, not_false_eq_true, if_true]
        exact .above path i tail

/-- Two trees of the same type make no difference to the tree around them. -/
theorem Context.infer_fill {a b : Expr} {t : Ty} (ha : HasType a t) (hb : HasType b t)
    (c : Context) (path : List Nat) :
    Alike (path ++ c.path) ((c.fill a).infer path) ((c.fill b).infer path) := by
  induction c generalizing path with
  | hole =>
      simp only [fill, ha.infer_eq, hb.infer_eq]
      exact .type t
  | left c r ih =>
      have hhole := ih (path ++ [0])
      rw [List.append_assoc] at hhole
      exact Expr.infer_add_alike path hhole (.beside r path c.path (by decide))
  | right l c ih =>
      have hhole := ih (path ++ [1])
      rw [List.append_assoc] at hhole
      exact Expr.infer_add_alike path (.beside l path c.path (by decide)) hhole
  | test c y n ih =>
      have hhole := ih (path ++ [0])
      rw [List.append_assoc] at hhole
      exact Expr.infer_cond_alike path hhole (.beside y path c.path (by decide))
        (.beside n path c.path (by decide))
  | yes t c n ih =>
      have hhole := ih (path ++ [1])
      rw [List.append_assoc] at hhole
      exact Expr.infer_cond_alike path (.beside t path c.path (by decide)) hhole
        (.beside n path c.path (by decide))
  | no t y c ih =>
      have hhole := ih (path ++ [2])
      rw [List.append_assoc] at hhole
      exact Expr.infer_cond_alike path (.beside t path c.path (by decide))
        (.beside y path c.path (by decide)) hhole

/-- Checking is compositional: trees of the same type can be put in the place of each
other. The whole has the same type then, or the same fault, and a fault is never in
the part that was replaced. -/
theorem typeOf_fill {a b : Expr} {t : Ty} (ha : typeOf a = .ok t) (hb : typeOf b = .ok t)
    (c : Context) :
    (∃ u, typeOf (c.fill a) = .ok u ∧ typeOf (c.fill b) = .ok u) ∨
    (typeOf (c.fill a) = .error .missing ∧ typeOf (c.fill b) = .error .missing) ∨
    ∃ m m', typeOf (c.fill a) = .error (.mismatch m) ∧
      typeOf (c.fill b) = .error (.mismatch m') ∧
      m.kind = m'.kind ∧ m.locus = m'.locus ∧ m.path = m'.path ∧ ¬ c.path <+: m.path := by
  have halike := c.infer_fill (hasType_of_typeOf ha) (hasType_of_typeOf hb) []
  rw [← typeOf_eq_infer_root, ← typeOf_eq_infer_root, List.nil_append] at halike
  generalize typeOf (c.fill a) = x, typeOf (c.fill b) = y at halike ⊢
  cases halike with
  | type u => exact .inl ⟨u, rfl, rfl⟩
  | missing => exact .inr (.inl ⟨rfl, rfl⟩)
  | mismatch h => exact .inr (.inr ⟨_, _, rfl, rfl, rfl, rfl, rfl, h⟩)

/-- A number in the last branch of a conditional whose other branch is a truth value:
the fault is at the conditional, whichever number it is. -/
theorem typeOf_fill_branches :
    let a := Expr.number ⟨1⟩
    let b := Expr.add (.number ⟨2⟩) (.number ⟨3⟩)
    let c := Context.left (.no (.bool true) (.bool false) .hole) .missing
    typeOf a = .ok .number ∧ typeOf b = .ok .number ∧
      ∃ m m', typeOf (c.fill a) = .error (.mismatch m) ∧
        typeOf (c.fill b) = .error (.mismatch m') ∧
        m.kind = m'.kind ∧ m.locus = m'.locus ∧ m.path = m'.path ∧ ¬ [0, 2] <+: m.path := by
  intro a b c
  have ha : typeOf a = .ok .number := by
    rw [typeOf_eq_infer_root]
    rfl
  have hb : typeOf b = .ok .number := by
    rw [typeOf_eq_infer_root]
    rfl
  have hfault : typeOf (c.fill a) = .error (.mismatch
      ⟨.branchMismatch, .branches, .cond (.bool true) (.bool false) a, [0]⟩) := by
    rw [typeOf_eq_infer_root]
    rfl
  refine ⟨ha, hb, ?_⟩
  obtain ⟨u, hu, _⟩ | ⟨hmissing, _⟩ | hmismatch := typeOf_fill ha hb c
  · rw [hfault] at hu
    cases hu
  · rw [hfault] at hmissing
    cases hmissing
  · exact hmismatch

end TwoSorted
