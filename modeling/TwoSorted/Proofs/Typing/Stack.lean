import Mathlib.Data.List.Chain
import TwoSorted.Proofs.Expr.Height
import TwoSorted.Proofs.Typing.Rules

/-!
# The stack of the checker

Whatever turn the checker is at, its stack is a path down from the root of the tree:
each frame waits for the operand whose node the frame above it has. A frame is `Sound`
if its types are those which the checker, started anew, gives to the first operands of
its node, each of them accepted. All frames on the stack are sound at every turn.

A step down puts a new frame on the stack, without types. A step up hands the type of
the top node to the frame below, and by the typing rules it is what the checker gives to
the whole tree under that node. Since the frames are a path, there are no more of them
than the tree is deep.
-/

namespace TwoSorted

namespace Frame

/-- The types of a frame are those of the first operands of its node, and each was
accepted after those before it. -/
structure Sound (f : Frame) : Prop where
  types : (f.node.children.take f.done.length).map typeOf = f.done.map .ok
  accepted : ∀ i t, f.done[i]? = some t → ∀ below,
    accept ⟨f.node, f.done.take i⟩ below t = .ok ⟨f.node, f.done.take (i + 1)⟩

theorem sound_new (e : Expr) : Sound ⟨e, []⟩ :=
  ⟨rfl, fun i t h => by cases h⟩

/-! ### Types that are accepted -/

/-- The frames below only have a part in the fault. -/
theorem accept_eq_ok_of_below {f g : Frame} {below : List Frame} {t : Ty}
    (h : f.accept below t = .ok g) (below' : List Frame) : f.accept below' t = .ok g := by
  unfold accept at h ⊢
  split at h <;> simp_all

theorem eq_number_of_accept {left right : Expr} {done : List Ty} {below : List Frame}
    {t : Ty} {g : Frame} (h : accept ⟨.add left right, done⟩ below t = .ok g) :
    t = .number := by
  cases t with
  | number => rfl
  | boolean => cases done <;> cases h

theorem eq_boolean_of_accept {test yes no : Expr} {below : List Frame} {t : Ty} {g : Frame}
    (h : accept ⟨.cond test yes no, []⟩ below t = .ok g) : t = .boolean := by
  cases t with
  | boolean => rfl
  | number => cases h

/-- A frame stays sound when it accepts the type of its next operand. -/
theorem Sound.accept {f g : Frame} {below : List Frame} {child : Expr} {t : Ty}
    (h : f.Sound) (hnext : f.next? = some child) (htype : typeOf child = .ok t)
    (haccept : f.accept below t = .ok g) : g.Sound := by
  have hg := Checker.accept_eq_ok haccept
  subst hg
  constructor
  · have htake : f.node.children.take (f.done.length + 1) =
        f.node.children.take f.done.length ++ [child] := by
      rw [List.take_add_one, show f.node.children[f.done.length]? = some child from hnext,
        Option.toList_some]
    simp only [List.length_append, List.length_singleton, htake, List.map_append, h.types,
      List.map_singleton, htype]
  · intro i u hu below'
    rcases Nat.lt_or_ge i f.done.length with hlt | hge
    · rw [List.getElem?_append_left hlt] at hu
      rw [List.take_append_of_le_length (Nat.le_of_lt hlt),
        List.take_append_of_le_length hlt]
      exact h.accepted i u hu below'
    · -- the type that is new
      obtain ⟨rfl, rfl⟩ : i = f.done.length ∧ u = t := by
        rw [List.getElem?_append_right hge, List.getElem?_singleton] at hu
        split at hu
        · exact ⟨by omega, (Option.some.inj hu).symm⟩
        · cases hu
      have hall : (f.done ++ [u]).length ≤ f.done.length + 1 := by simp
      rw [List.take_left, List.take_of_length_le hall]
      exact accept_eq_ok_of_below haccept below'

/-! ### Types that are resolved -/

theorem Sound.length_eq {f : Frame} (h : f.Sound) (hnext : f.next? = none) :
    f.done.length = f.node.children.length := by
  have hge : f.node.children.length ≤ f.done.length := List.getElem?_eq_none_iff.mp hnext
  have hlength := congrArg List.length h.types
  simp only [List.length_map, List.length_take] at hlength
  omega

/-- The type that a sound frame gives to its node is derivable. -/
theorem Sound.hasType {f : Frame} {below : List Frame} {t : Ty} (h : f.Sound)
    (hnext : f.next? = none) (hresolve : f.resolve below = .ok t) : HasType f.node t := by
  have hlength := h.length_eq hnext
  obtain ⟨htypes, haccepted⟩ := h
  obtain ⟨node, done⟩ := f
  cases node with
  | missing => cases hresolve
  | bool b =>
      cases hresolve
      exact .bool b
  | number v =>
      cases hresolve
      exact .number v
  | add left right =>
      obtain ⟨l, r, rfl⟩ := List.length_eq_two.mp hlength
      obtain rfl := eq_number_of_accept (haccepted 0 l rfl [])
      obtain rfl := eq_number_of_accept (haccepted 1 r rfl [])
      obtain ⟨hleft, hright⟩ : typeOf left = .ok .number ∧ typeOf right = .ok .number := by
        simpa [Expr.children] using htypes
      cases hresolve
      exact .add (hasType_of_typeOf hleft) (hasType_of_typeOf hright)
  | cond test yes no =>
      obtain ⟨c, y, n, rfl⟩ := List.length_eq_three.mp hlength
      obtain rfl := eq_boolean_of_accept (haccepted 0 c rfl [])
      obtain ⟨htest, hyes, hno⟩ :
          typeOf test = .ok .boolean ∧ typeOf yes = .ok y ∧ typeOf no = .ok n := by
        simpa [Expr.children] using htypes
      simp only [resolve] at hresolve
      split at hresolve
      · next hsame =>
          cases hresolve
          subst hsame
          exact .cond (hasType_of_typeOf htest) (hasType_of_typeOf hyes)
            (hasType_of_typeOf hno)
      · cases hresolve

end Frame

namespace Checker

/-- The frames of a state, from the root on. -/
def stack (s : State) : List Frame :=
  (s.1 :: s.2).reverse

/-- The frames of a state are a path down from the root of `e`, and all of them are
sound. -/
structure OnPath (e : Expr) (s : State) : Prop where
  root : (s.1 :: s.2).getLast?.map Frame.node = some e
  linked : (s.1 :: s.2).IsChain fun g f => f.next? = some g.node
  sound : ∀ f ∈ s.1 :: s.2, f.Sound

theorem onPath_start (e : Expr) : OnPath e (⟨e, []⟩, []) :=
  ⟨rfl, .singleton _, List.forall_mem_singleton.mpr (Frame.sound_new e)⟩

/-- A step down adds a frame that has no types yet. -/
theorem OnPath.down {e child : Expr} {top : Frame} {below : List Frame}
    (h : OnPath e (top, below)) (hnext : top.next? = some child) :
    OnPath e (⟨child, []⟩, top :: below) where
  root := by
    rw [List.getLast?_cons_cons]
    exact h.root
  linked := h.linked.cons_cons hnext
  sound := List.forall_mem_cons.mpr ⟨Frame.sound_new child, h.sound⟩

/-- A step up takes the top frame away. The frame below has one more type after it, and
the same node. -/
theorem OnPath.up {e : Expr} {top parent parent' : Frame} {rest : List Frame} {t : Ty}
    (h : OnPath e (top, parent :: rest)) (hnext : top.next? = none)
    (hresolve : top.resolve (parent :: rest) = .ok t)
    (haccept : parent.accept rest t = .ok parent') : OnPath e (parent', rest) := by
  obtain ⟨hroot, hlinked, hsound⟩ := h
  obtain ⟨htop, hsound⟩ := List.forall_mem_cons.mp hsound
  obtain ⟨hparent, hsound⟩ := List.forall_mem_cons.mp hsound
  obtain ⟨hwaits, hlinked⟩ := List.isChain_cons_cons.mp hlinked
  rw [List.getLast?_cons_cons] at hroot
  have hnode : parent'.node = parent.node := by rw [accept_eq_ok haccept]
  have htype : typeOf top.node = .ok t := (htop.hasType hnext hresolve).typeOf_eq
  refine ⟨?_, ?_, List.forall_mem_cons.mpr ⟨hparent.accept hwaits htype haccept, hsound⟩⟩
  · cases rest with
    | nil => simpa [hnode] using hroot
    | cons f rest => simpa only [List.getLast?_cons_cons] using hroot
  · rw [List.isChain_cons] at hlinked ⊢
    rwa [hnode]

theorem OnPath.of_moves {e : Expr} {s s' : State} (h : OnPath e s) (hmoves : Moves s s') :
    OnPath e s' := by
  obtain ⟨top, below⟩ := s
  obtain ⟨top', below'⟩ := s'
  dsimp only [Moves] at hmoves
  obtain ⟨child, hnext, _, rfl, rfl⟩ | ⟨parent, t, hnext, hresolve, rfl, haccept⟩ :=
    step_eq_onward hmoves
  · exact h.down hnext
  · exact h.up hnext hresolve haccept

theorem OnPath.of_reaches {e : Expr} {s s' : State} (h : OnPath e s)
    (hreaches : Reaches s s') : OnPath e s' := by
  induction hreaches with
  | refl => exact h
  | tail _ hmoves ih => exact ih.of_moves hmoves

/-- Each frame below the top is a level of the tree that the top node does not have. -/
theorem length_add_height_le {e : Expr} {top : Frame} {below : List Frame}
    (hroot : (top :: below).getLast?.map Frame.node = some e)
    (hlinked : (top :: below).IsChain fun g f => f.next? = some g.node) :
    below.length + top.node.height ≤ e.height := by
  induction below generalizing top with
  | nil =>
      cases hroot
      simp
  | cons f rest ih =>
      obtain ⟨hnext, hlinked⟩ := List.isChain_cons_cons.mp hlinked
      rw [List.getLast?_cons_cons] at hroot
      have hle := ih hroot hlinked
      have hlt := Expr.height_lt_of_mem (List.mem_of_getElem? hnext)
      rw [List.length_cons]
      omega

/-- At every turn of the checker on a tree, its stack is a path down from the root, on
which each node is the operand that the node before it waits for. The types in each
frame are what the checker gives to the first operands of the node, all of them
accepted, and there are no more frames than the tree is deep. A missing tree is
answered before the first turn. -/
theorem stack_of_reaches {e : Expr} {s : State} (he : e ≠ .missing)
    (hreaches : Reaches (⟨e, []⟩, []) s) :
    (stack s).head?.map Frame.node = some e ∧
    ((stack s).IsChain fun f g => f.node.children[f.done.length]? = some g.node) ∧
    (∀ f ∈ stack s, f.Sound) ∧ (stack s).length ≤ e.depth := by
  obtain ⟨hroot, hlinked, hsound⟩ := (onPath_start e).of_reaches hreaches
  refine ⟨?_, ?_, ?_, ?_⟩
  · rwa [stack, List.head?_reverse]
  · rw [stack, List.isChain_reverse]
    exact hlinked
  · intro f hf
    exact hsound f (List.mem_reverse.mp hf)
  · have hle := length_add_height_le hroot hlinked
    have hpos := s.1.node.height_pos
    rw [Expr.depth_of_ne_missing he, stack, List.length_reverse, List.length_cons]
    omega

/-- The last operand of a sum in a branch is as deep as the tree goes. Two types are done
by then, and the branch that is missing has not been looked at. -/
theorem stack_of_reaches_operand :
    let sum := Expr.add (.number ⟨1⟩) (.number ⟨2⟩)
    let e := Expr.cond (.bool true) sum .missing
    let s : State := (⟨.number ⟨2⟩, []⟩, [⟨sum, [.number]⟩, ⟨e, [.boolean]⟩])
    e ≠ .missing ∧ Reaches (⟨e, []⟩, []) s ∧ (stack s).head?.map Frame.node = some e ∧
      ((stack s).IsChain fun f g => f.node.children[f.done.length]? = some g.node) ∧
      (∀ f ∈ stack s, f.Sound) ∧ (stack s).length ≤ e.depth ∧
      (stack s).length = 3 ∧ e.depth = 3 := by
  intro sum e s
  have he : e ≠ .missing := nofun
  have htest : Reaches (⟨e, []⟩, []) (⟨e, [.boolean]⟩, []) :=
    reaches_of_accept_ok rfl (visit (.bool true) _) rfl rfl
  have hdown : Moves (⟨e, [.boolean]⟩, []) (⟨sum, []⟩, [⟨e, [.boolean]⟩]) := rfl
  have hleft : Reaches (⟨sum, []⟩, [⟨e, [.boolean]⟩]) (⟨sum, [.number]⟩, [⟨e, [.boolean]⟩]) :=
    reaches_of_accept_ok rfl (visit (.number ⟨1⟩) _) rfl rfl
  have hlast : Moves (⟨sum, [.number]⟩, [⟨e, [.boolean]⟩]) s := rfl
  have hreaches : Reaches (⟨e, []⟩, []) s := ((htest.tail hdown).trans hleft).tail hlast
  obtain ⟨hroot, hlinked, hsound, hlength⟩ := stack_of_reaches he hreaches
  refine ⟨he, hreaches, hroot, hlinked, hsound, hlength, rfl, ?_⟩
  rw [Expr.depth_of_ne_missing he]
  rfl

end Checker

end TwoSorted
