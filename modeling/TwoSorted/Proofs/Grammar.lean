import Mathlib.Data.Set.Basic
import TwoSorted.Expr
import TwoSorted.Token

/-!
# The grammar of expressions

The grammar is given as relations between a word of symbols and the tree that
the word stands for. Each relation takes the nested expressions as a parameter,
and `IsExpression n` ties the knot: its derivations nest at most `n` expressions
in each other, the outermost counted as one. An expression in parentheses and
either branch of a conditional count one more than the expression around them;
a condition and an operand do not.

`language n` forgets the trees and the values of numbers: it is a set of
sequences of names of symbols. Whether a word is in it does not depend on the
values, nor does its tree once the values are erased, which
`IsExpression.of_names` says.
-/

namespace TwoSorted

/-- The tree with zero in the place of every number. -/
def Expr.erase : Expr → Expr
  | missing => missing
  | bool b => bool b
  | number _ => number ⟨0⟩
  | add left right => add left.erase right.erase
  | cond test yes no => cond test.erase yes.erase no.erase

namespace Grammar

/-- Words of symbols, each with the tree that it stands for. -/
abbrev Phrase := List Symbol → Expr → Prop

/-- Truth values, numbers, and expressions in parentheses, which leave no trace
in the tree. -/
inductive IsOperand (nested : Phrase) : Phrase
  | bool (b : Bool) : IsOperand nested [.bool b] (.bool b)
  | number (v : Binary64) : IsOperand nested [.number v] (.number v)
  | paren {w e} (h : nested w e) :
      IsOperand nested (.openParen :: (w ++ [.closeParen])) e

/-- Operands with plus signs between them, grouped to the left. -/
inductive IsSum (nested : Phrase) : Phrase
  | operand {w e} (h : IsOperand nested w e) : IsSum nested w e
  | add {u v left right} (hleft : IsSum nested u left)
      (hright : IsOperand nested v right) :
      IsSum nested (u ++ .plus :: v) (.add left right)

/-- A sum, or a sum as the condition of two nested expressions. -/
inductive IsConditional (nested : Phrase) : Phrase
  | sum {w e} (h : IsSum nested w e) : IsConditional nested w e
  | cond {u v w test yes no} (htest : IsSum nested u test) (hyes : nested v yes)
      (hno : nested w no) :
      IsConditional nested (u ++ .question :: (v ++ .colon :: w)) (.cond test yes no)

/-- Expressions nested at most `n` deep, the outermost counted as one. -/
def IsExpression : Nat → Phrase
  | 0 => fun _ _ => False
  | n + 1 => IsConditional (IsExpression n)

/-- The sequences of names of symbols that make an expression nested at most `n`
deep. -/
def language (n : Nat) : Set (List String) :=
  { names | ∃ w e, IsExpression n w e ∧ w.map Symbol.name = names }

theorem not_isExpression_zero (w : List Symbol) (e : Expr) :
    ¬ IsExpression 0 w e := id

theorem isExpression_succ (n : Nat) :
    IsExpression (n + 1) = IsConditional (IsExpression n) := rfl

/-- Where there is an expression at all, a truth value is one. -/
theorem IsExpression.bool {n : Nat} {w : List Symbol} {e : Expr}
    (h : IsExpression n w e) (b : Bool) : IsExpression n [.bool b] (.bool b) := by
  cases n with
  | zero => exact absurd h (not_isExpression_zero w e)
  | succ n => exact .sum (.operand (.bool b))

/-! ### Names of symbols -/

/-- Two symbols of the same name are equal, or both numbers. -/
theorem eq_or_number_of_name_eq {s c : Symbol} (h : s.name = c.name) :
    s = c ∨ ∃ v v', s = .number v ∧ c = .number v' := by
  rcases s with _ | _ | _ | _ | _ | (_ | _) | v | _ <;>
    rcases c with _ | _ | _ | _ | _ | (_ | _) | v' | _ <;>
    simp_all [Symbol.name]

theorem eq_of_name_eq {s c : Symbol} (hc : ∀ v, c ≠ .number v)
    (h : s.name = c.name) : s = c := by
  obtain heq | ⟨_, v, _, hv⟩ := eq_or_number_of_name_eq h
  · exact heq
  · exact absurd hv (hc v)

theorem exists_number_of_name_eq {s : Symbol} {v : Binary64}
    (h : s.name = (Symbol.number v).name) : ∃ v', s = .number v' := by
  obtain heq | ⟨v', _, hv', _⟩ := eq_or_number_of_name_eq h
  · exact ⟨v, heq⟩
  · exact ⟨v', hv'⟩

/-- Whether a word belongs to the phrase, and with which tree but for the values of
its numbers, depends on the names of its symbols only. -/
def NamesSuffice (P : Phrase) : Prop :=
  ∀ ⦃w w' : List Symbol⦄ ⦃e : Expr⦄, P w e → w'.map Symbol.name = w.map Symbol.name →
    ∃ e', P w' e' ∧ e'.erase = e.erase

theorem isOperand_namesSuffice {nested : Phrase} (hn : NamesSuffice nested) :
    NamesSuffice (IsOperand nested) := by
  intro w w' e h hnames
  cases h with
  | bool b =>
      obtain ⟨s, rfl, hs⟩ := List.map_eq_singleton_iff.mp hnames
      obtain rfl := eq_of_name_eq (by simp) hs
      exact ⟨_, .bool b, rfl⟩
  | number v =>
      obtain ⟨s, rfl, hs⟩ := List.map_eq_singleton_iff.mp hnames
      obtain ⟨v', rfl⟩ := exists_number_of_name_eq hs
      exact ⟨_, .number v', rfl⟩
  | paren h =>
      rw [List.map_cons, List.map_append] at hnames
      obtain ⟨s, w', rfl, hs, hnames⟩ := List.map_eq_cons_iff.mp hnames
      obtain ⟨u, cs, rfl, hu, hcs⟩ := List.map_eq_append_iff.mp hnames
      obtain ⟨c, rfl, hc⟩ := List.map_eq_singleton_iff.mp hcs
      obtain rfl := eq_of_name_eq (by simp) hs
      obtain rfl := eq_of_name_eq (by simp) hc
      obtain ⟨e', he', herase⟩ := hn h hu
      exact ⟨e', .paren he', herase⟩

theorem isSum_namesSuffice {nested : Phrase} (hn : NamesSuffice nested) :
    NamesSuffice (IsSum nested) := by
  intro w w' e h hnames
  induction h generalizing w' with
  | operand h =>
      obtain ⟨e', he', herase⟩ := isOperand_namesSuffice hn h hnames
      exact ⟨e', .operand he', herase⟩
  | add hleft hright ih =>
      rw [List.map_append, List.map_cons] at hnames
      obtain ⟨u, x, rfl, hu, hx⟩ := List.map_eq_append_iff.mp hnames
      obtain ⟨s, v, rfl, hs, hv⟩ := List.map_eq_cons_iff.mp hx
      obtain rfl := eq_of_name_eq (by simp) hs
      obtain ⟨left', hleft', heleft⟩ := ih hu
      obtain ⟨right', hright', heright⟩ := isOperand_namesSuffice hn hright hv
      exact ⟨_, .add hleft' hright', by rw [Expr.erase, heleft, heright, Expr.erase]⟩

/-- A word with the names of an expression is an expression nested as deep, with
the same tree but for the values of numbers. -/
theorem IsExpression.of_names (n : Nat) : NamesSuffice (IsExpression n) := by
  induction n with
  | zero => exact fun _ _ _ h => absurd h (not_isExpression_zero _ _)
  | succ n ih =>
      intro w w' e h hnames
      cases h with
      | sum h =>
          obtain ⟨e', he', herase⟩ := isSum_namesSuffice ih h hnames
          exact ⟨e', .sum he', herase⟩
      | cond htest hyes hno =>
          simp only [List.map_append, List.map_cons] at hnames
          obtain ⟨u, x, rfl, hu, hx⟩ := List.map_eq_append_iff.mp hnames
          obtain ⟨s, y, rfl, hs, hy⟩ := List.map_eq_cons_iff.mp hx
          obtain ⟨v, z, rfl, hv, hz⟩ := List.map_eq_append_iff.mp hy
          obtain ⟨c, w', rfl, hc, hw'⟩ := List.map_eq_cons_iff.mp hz
          obtain rfl := eq_of_name_eq (by simp) hs
          obtain rfl := eq_of_name_eq (by simp) hc
          obtain ⟨test', htest', hetest⟩ := isSum_namesSuffice ih htest hu
          obtain ⟨yes', hyes', heyes⟩ := ih hyes hv
          obtain ⟨no', hno', heno⟩ := ih hno hw'
          exact ⟨_, .cond htest' hyes' hno', by
            rw [Expr.erase, hetest, heyes, heno, Expr.erase]⟩

theorem mem_language_iff {n : Nat} {w : List Symbol} :
    w.map Symbol.name ∈ language n ↔ ∃ e, IsExpression n w e := by
  constructor
  · rintro ⟨w', e, h, hnames⟩
    obtain ⟨e', he', _⟩ := IsExpression.of_names n h hnames.symm
    exact ⟨e', he'⟩
  · rintro ⟨e, h⟩
    exact ⟨w, e, h, rfl⟩

/-- An extension of a sequence of names is an extension of any word with these
names. -/
theorem append_mem_language_iff {n : Nat} {w : List Symbol} {names : List String} :
    w.map Symbol.name ++ names ∈ language n ↔
      ∃ v e, v.map Symbol.name = names ∧ IsExpression n (w ++ v) e := by
  constructor
  · rintro ⟨x, e, h, hnames⟩
    obtain ⟨w', v, rfl, hw, hv⟩ := List.map_eq_append_iff.mp hnames
    have hsame : (w ++ v).map Symbol.name = (w' ++ v).map Symbol.name := by
      rw [List.map_append, List.map_append, hw]
    obtain ⟨e', he', _⟩ := IsExpression.of_names n h hsame
    exact ⟨v, e', hv, he'⟩
  · rintro ⟨v, e, rfl, h⟩
    exact ⟨w ++ v, e, h, List.map_append⟩

end Grammar

end TwoSorted
