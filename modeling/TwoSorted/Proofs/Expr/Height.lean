import TwoSorted.Expr

/-!
# The depth of a tree as its height

`Expr.height` is found by recursion on the tree. `Expr.depth` goes through an agenda
of nodes instead, in an order that the recursion does not have, and keeps the
greatest depth that it meets.

What a walk comes to is bounded by `n` exactly if the depth met so far is, and for
each node on the agenda the depth at which the tree below it ends (`Walk.Within`).
This does not depend on the order of the agenda, and no step changes it. A walk
takes one step for each node that it has not seen, and then it is at its end.
-/

namespace TwoSorted

namespace Expr

/-- The number of nodes on the longest path down, by recursion. A missing operand is
a leaf like any other. -/
def height : Expr → Nat
  | missing => 1
  | bool _ => 1
  | number _ => 1
  | add left right => 1 + max left.height right.height
  | cond test yes no => 1 + max test.height (max yes.height no.height)

theorem height_pos (e : Expr) : 0 < e.height := by
  cases e <;> simp only [height] <;> omega

/-- A tree whose root is at depth `d` ends no deeper than `n` if its operands, which
are one deeper, do not. -/
theorem add_height_le_iff {e : Expr} {d n : Nat} :
    d + e.height ≤ n + 1 ↔ d ≤ n ∧ ∀ child ∈ e.children, d + 1 + child.height ≤ n + 1 := by
  cases e <;> simp only [height, children, List.forall_mem_cons, List.not_mem_nil,
    false_implies, implies_true, and_true] <;> omega

theorem height_lt_of_mem {e child : Expr} (h : child ∈ e.children) :
    child.height < e.height := by
  have hpos := e.height_pos
  have hle : 0 + e.height ≤ (e.height - 1) + 1 := by omega
  have hchild := (add_height_le_iff.mp hle).2 child h
  omega

namespace Walk

theorem run_of_step?_none {w : Walk} (h : w.step? = none) : w.run = w.best := by
  rw [run]
  split <;> simp_all

theorem run_of_step? {w w' : Walk} (h : w.step? = some w') : w.run = w'.run := by
  rw [run]
  split <;> simp_all

theorem agenda_of_step?_none {w : Walk} (h : w.step? = none) : w.agenda = [] := by
  unfold step? at h
  split at h
  · assumption
  · cases h

/-! ### What the walk comes to -/

/-- No node that the walk has seen or is still to see is deeper than `n`. -/
def Within (w : Walk) (n : Nat) : Prop :=
  w.best ≤ n ∧ ∀ item ∈ w.agenda, item.2 + item.1.height ≤ n + 1

theorem within_start {e : Expr} {n : Nat} : (start e).Within n ↔ e.height ≤ n := by
  simp only [Within, start, List.forall_mem_singleton]
  omega

/-- A step changes nothing about how deep the nodes are. -/
theorem within_of_step? {w w' : Walk} (h : w.step? = some w') (n : Nat) :
    w.Within n ↔ w'.Within n := by
  obtain ⟨agenda, best⟩ := w
  cases agenda with
  | nil => cases h
  | cons item rest =>
      obtain ⟨e, d⟩ := item
      cases h
      simp only [Within, List.forall_mem_append, List.mem_reverse, List.forall_mem_map,
        List.forall_mem_cons, add_height_le_iff (e := e), Nat.max_le, and_assoc]

/-- The walk ends with the least bound on the depths of its nodes. -/
theorem run_le_iff (w : Walk) (n : Nat) : w.run ≤ n ↔ w.Within n := by
  induction w using run.induct with
  | case1 w hnone =>
      simp [run_of_step?_none hnone, Within, agenda_of_step?_none hnone]
  | case2 w w' hstep ih => rw [run_of_step? hstep, ih, within_of_step? hstep]

theorem run_start (e : Expr) : (start e).run = e.height := by
  have hle (n : Nat) : (start e).run ≤ n ↔ e.height ≤ n :=
    (run_le_iff _ n).trans within_start
  exact Nat.le_antisymm ((hle _).mpr (Nat.le_refl _)) ((hle _).mp (Nat.le_refl _))

/-! ### How long it takes -/

/-- The walk after `k` steps, if it takes so many. -/
def after : Nat → Walk → Option Walk
  | 0, w => some w
  | k + 1, w => w.step?.bind (after k)

/-- After one step for each node that it has not seen the walk is at its end. -/
theorem after_size (w : Walk) : after w.size w = some ⟨[], w.run⟩ := by
  induction w using run.induct with
  | case1 w hnone =>
      have hagenda := agenda_of_step?_none hnone
      have hsize : w.size = 0 := by simp [size, hagenda]
      rw [hsize, after, run_of_step?_none hnone, ← hagenda]
  | case2 w w' hstep ih =>
      rw [size_of_step? hstep, after, hstep, Option.bind_some, ih, run_of_step? hstep]

end Walk

theorem depth_of_ne_missing {e : Expr} (h : e ≠ missing) : e.depth = e.height := by
  cases e with
  | missing => exact absurd rfl h
  | _ => exact Walk.run_start _

/-- The depth of a tree is its height, unless the tree is missing as a whole. The walk
that finds it has no node left after as many steps as the tree has nodes. -/
theorem depth_eq_height (e : Expr) :
    (e.depth = if e = missing then 0 else e.height) ∧
    ∃ w, Walk.after e.size (Walk.start e) = some w ∧ w.step? = none ∧ w.best = e.height := by
  constructor
  · split
    · next h => rw [h, depth]
    · next h => exact depth_of_ne_missing h
  · have hsize : (Walk.start e).size = e.size := rfl
    refine ⟨⟨[], e.height⟩, ?_, rfl, rfl⟩
    rw [← hsize, Walk.after_size, Walk.run_start]

end Expr

end TwoSorted
