import TwoSorted.Number.Text

/-!
# Expressions

An expression is a literal, a sum, or a conditional `test ? yes : no`. A tree
put together by hand may lack an operand; `missing` stands in its place, and
no tree read from a text has one.

`Expr.depth` walks the tree with an agenda of nodes still to be seen and not by
recursion, so a tree may be as deep as memory allows.
-/

namespace TwoSorted

/-- An expression tree. -/
inductive Expr where
  | missing
  | bool (b : Bool)
  | number (v : Binary64)
  | add (left right : Expr)
  | cond (test yes no : Expr)
  deriving DecidableEq

namespace Expr

/-- The operands, in the order in which they are checked. -/
def children : Expr → List Expr
  | add left right => [left, right]
  | cond test yes no => [test, yes, no]
  | _ => []

/-- The expression fully parenthesised. -/
def text : Expr → String
  | missing => "<nil>"
  | bool true => "true"
  | bool false => "false"
  | number v => v.text
  | add left right => "(" ++ left.text ++ " + " ++ right.text ++ ")"
  | cond test yes no =>
    "(" ++ test.text ++ " ? " ++ yes.text ++ " : " ++ no.text ++ ")"

/-- The number of nodes. -/
def size : Expr → Nat
  | add left right => 1 + left.size + right.size
  | cond test yes no => 1 + test.size + yes.size + no.size
  | _ => 1

/-- The number of nodes of several trees. -/
def totalSize (es : List Expr) : Nat :=
  es.foldr (fun e n => e.size + n) 0

@[simp] theorem totalSize_nil : totalSize [] = 0 := rfl

@[simp] theorem totalSize_cons (e : Expr) (es : List Expr) :
    totalSize (e :: es) = e.size + totalSize es := rfl

theorem totalSize_append (es fs : List Expr) :
    totalSize (es ++ fs) = totalSize es + totalSize fs := by
  induction es with
  | nil => simp
  | cons e es ih => simp [ih, Nat.add_assoc]

theorem totalSize_reverse (es : List Expr) :
    totalSize es.reverse = totalSize es := by
  induction es with
  | nil => rfl
  | cons e es ih => simp [totalSize_append, ih, Nat.add_comm]

theorem size_eq (e : Expr) : e.size = 1 + totalSize e.children := by
  cases e <;> simp [size, children] <;> omega

/-- A walk through a tree: the nodes still to be seen, each with its own depth and
the next one in front, and the greatest depth seen so far. -/
structure Walk where
  agenda : List (Expr × Nat)
  best : Nat

namespace Walk

def start (e : Expr) : Walk :=
  ⟨[(e, 1)], 0⟩

/-- Sees one node, if there is one. Its operands are put in front of the agenda one
after the other, so the last of them comes next. -/
def step? (w : Walk) : Option Walk :=
  match w.agenda with
  | [] => none
  | (e, d) :: rest =>
    some ⟨(e.children.map (·, d + 1)).reverse ++ rest, max w.best d⟩

/-- The number of nodes that the walk has not seen. -/
def size (w : Walk) : Nat :=
  totalSize (w.agenda.map Prod.fst)

/-- A step leaves one node less to be seen. -/
theorem size_of_step? {w w' : Walk} (h : w.step? = some w') :
    w.size = w'.size + 1 := by
  obtain ⟨agenda, best⟩ := w
  cases agenda with
  | nil => cases h
  | cons item rest =>
    cases h
    simp only [size, List.map_cons, totalSize_cons, size_eq item.1,
      List.map_append, List.map_reverse, List.map_map, Function.comp_def,
      List.map_id', totalSize_append, totalSize_reverse]
    omega

/-- Goes on until all nodes are seen. -/
def run (w : Walk) : Nat :=
  match _h : w.step? with
  | none => w.best
  | some w => run w
termination_by w.size
decreasing_by
  rw [size_of_step? _h]
  exact Nat.lt_succ_self _

end Walk

/-- The number of nodes on the longest path down from the root. A missing
operand counts as a leaf, a missing root as nothing. -/
def depth : Expr → Nat
  | missing => 0
  | e => (Walk.start e).run

end Expr

end TwoSorted
