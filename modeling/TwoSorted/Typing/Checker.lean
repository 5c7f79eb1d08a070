import TwoSorted.Typing.Fault

/-!
# The type checker

`typeOf` finds the type of a tree, or the first fault in it from the left. The
tree is walked with a stack of frames, each a node with the types of those of
its operands that are done, so a tree may be as deep as memory allows. The
frames form a path down from the root: each node below the top waits for the
operand right after those that are done, and that operand is the node of the
next frame.

An operand is accepted as soon as its type is known. What lies to the right of
a fault is never looked at.
-/

namespace TwoSorted

/-- A node and the types of its first operands. -/
structure Frame where
  node : Expr
  done : List Ty

namespace Frame

/-- The operand to be checked next. -/
def next? (f : Frame) : Option Expr :=
  f.node.children[f.done.length]?

/-- The path from the root to the node above the frames of a stack. -/
def pathOver (below : List Frame) : List Nat :=
  (below.map fun f => f.done.length).reverse

/-- A fault of the node, which stands above the frames `below`. -/
def fault (f : Frame) (below : List Frame) (kind : FaultKind) (locus : Locus) :
    TypeFault :=
  .mismatch ⟨kind, locus, f.node, pathOver below⟩

/-- Takes the type of the next operand, unless a sum gets an operand that is no
number or a conditional a condition that is no truth value. -/
def accept (f : Frame) (below : List Frame) (t : Ty) : Except TypeFault Frame :=
  match f.node, f.done, t with
  | .add _ _, [], .boolean => .error (f.fault below .numberExpected .left)
  | .add _ _, _, .boolean => .error (f.fault below .numberExpected .right)
  | .cond _ _ _, [], .number => .error (f.fault below .booleanExpected .condition)
  | _, _, _ => .ok { f with done := f.done ++ [t] }

/-- The type of a node whose operands are all done. -/
def resolve (f : Frame) (below : List Frame) : Except TypeFault Ty :=
  match f.node, f.done with
  | .bool _, _ => .ok .boolean
  | .number _, _ => .ok .number
  | .add _ _, _ => .ok .number
  | .cond _ _ _, [_, yes, no] =>
    if yes = no then .ok yes
    else .error (f.fault below .branchMismatch .branches)
  | _, _ => .error .missing

end Frame

namespace Checker

/-- What comes of one step: a new stack, or the answer. -/
inductive Step where
  | onward (top : Frame) (below : List Frame)
  | answer (result : Except TypeFault Ty)

/-- One step: down to the next operand of the top node, or, when there is none,
up to the node that waits for the type of the top node. -/
def step (top : Frame) (below : List Frame) : Step :=
  match top.next? with
  | some .missing => .answer (.error .missing)
  | some child => .onward ⟨child, []⟩ (top :: below)
  | none =>
    match top.resolve below with
    | .error fault => .answer (.error fault)
    | .ok t =>
      match below with
      | [] => .answer (.ok t)
      | parent :: rest =>
        match parent.accept rest t with
        | .error fault => .answer (.error fault)
        | .ok parent => .onward parent rest

/-- The nodes below the operands of `f` from place `i` on. -/
def pending (f : Frame) (i : Nat) : Nat :=
  Expr.totalSize (f.node.children.drop i)

/-- The steps that a stack can still take. -/
def work (top : Frame) (below : List Frame) : Nat :=
  2 * pending top top.done.length + 1 +
    below.foldr (fun f n => 2 * pending f (f.done.length + 1) + 1 + n) 0

theorem pending_of_next? {f : Frame} {child : Expr} (h : f.next? = some child) :
    pending f f.done.length = child.size + pending f (f.done.length + 1) := by
  obtain ⟨hlt, hget⟩ := List.getElem?_eq_some_iff.mp h
  simp only [pending]
  rw [List.drop_eq_getElem_cons hlt, hget, Expr.totalSize_cons]

theorem pending_start (e : Expr) : pending ⟨e, []⟩ 0 + 1 = e.size := by
  rw [Expr.size_eq]
  simp only [pending, List.drop_zero]
  omega

/-- A frame that accepts a type has it as one more type done. -/
theorem accept_eq_ok {f g : Frame} {below : List Frame} {t : Ty}
    (h : f.accept below t = .ok g) : g = { f with done := f.done ++ [t] } := by
  unfold Frame.accept at h
  split at h <;> simp_all

/-- A step that gives no answer goes down to the next operand of the top node, or up
to the node below it, which accepts the type of the top node. -/
theorem step_eq_onward {top top' : Frame} {below below' : List Frame}
    (h : step top below = .onward top' below') :
    (∃ child, top.next? = some child ∧ child ≠ .missing ∧ top' = ⟨child, []⟩ ∧
      below' = top :: below) ∨
    ∃ parent t, top.next? = none ∧ top.resolve below = .ok t ∧
      below = parent :: below' ∧ parent.accept below' t = .ok top' := by
  unfold step at h
  split at h
  · cases h
  · rename_i child hne hnext
    cases h
    exact .inl ⟨child, hnext, hne, rfl, rfl⟩
  · rename_i hnext
    split at h
    · cases h
    · rename_i t hresolve
      split at h
      · cases h
      · rename_i parent rest
        split at h
        · cases h
        · rename_i haccept
          cases h
          exact .inr ⟨parent, t, hnext, hresolve, rfl, haccept⟩

theorem work_lt_of_step {top top' : Frame} {below below' : List Frame}
    (h : step top below = .onward top' below') :
    work top' below' < work top below := by
  obtain ⟨child, hnext, _, rfl, rfl⟩ | ⟨parent, t, _, _, rfl, haccept⟩ :=
    step_eq_onward h
  · have hpend := pending_of_next? hnext
    have hstart := pending_start child
    simp only [work, List.foldr_cons, List.length_nil]
    omega
  · rw [accept_eq_ok haccept]
    simp only [work, pending, List.foldr_cons, List.length_append,
      List.length_cons, List.length_nil, Nat.zero_add]
    omega

/-- Takes steps until there is an answer. -/
def run (top : Frame) (below : List Frame) : Except TypeFault Ty :=
  match _h : step top below with
  | .answer result => result
  | .onward top below => run top below
termination_by work top below
decreasing_by exact work_lt_of_step _h

end Checker

/-- The type of a tree, or its first fault. -/
def typeOf : Expr → Except TypeFault Ty
  | .missing => .error .missing
  | e => Checker.run ⟨e, []⟩ []

end TwoSorted
