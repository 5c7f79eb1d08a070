import TwoSorted.Proofs.Grammar

/-!
# Beginnings of sentences

A sentence is a word of the grammar without a limit on its nesting. A word that
begins a sentence leaves some expressions open, each nested in the one before it,
and `Opens n w` counts them: an opening parenthesis, a question mark and a colon
open an expression at once, before anything of it is there.

A beginning of which no part opens more than `n` expressions can be continued to a
sentence nested at most `n` deep (`Opens.exists_isExpression`). It does not do to
look at the beginning as a whole only, since expressions that are closed again may
have been nested deeper.
-/

namespace TwoSorted

namespace Grammar

/-- Expressions nested to any depth. -/
def IsSentence : Phrase :=
  fun w e => ∃ n, IsExpression n w e

/-- The word is a sentence, or some symbols more make it one. -/
def Begins (w : List Symbol) : Prop :=
  ∃ v e, IsSentence (w ++ v) e

/-- What stands in front of an operand of a sum. -/
inductive BeforeOperand : List Symbol → Prop
  | first : BeforeOperand []
  | next {w e} (h : IsSum IsSentence w e) : BeforeOperand (w ++ [.plus])

/-- The word begins a sentence, and at its end `n` expressions are open, each nested
in the one before it, the outermost counted as one. -/
inductive Opens : Nat → List Symbol → Prop
  | operand {w} (h : BeforeOperand w) : Opens 1 w
  | sum {w e} (h : IsSum IsSentence w e) : Opens 1 w
  | paren {u n w} (hu : BeforeOperand u) (hw : Opens n w) :
      Opens (n + 1) (u ++ .openParen :: w)
  | yes {u e n w} (hu : IsSum IsSentence u e) (hw : Opens n w) :
      Opens (n + 1) (u ++ .question :: w)
  | no {u e v e' n w} (hu : IsSum IsSentence u e) (hv : IsSentence v e')
      (hw : Opens n w) : Opens (n + 1) (u ++ .question :: (v ++ .colon :: w))

/-- No part from the start of the word on opens more than `n` expressions. -/
def Within (n : Nat) (w : List Symbol) : Prop :=
  ∀ u k, u <+: w → Opens k u → k ≤ n

/-! ### Deeper nesting -/

section

variable {P Q : Phrase} (h : ∀ w e, P w e → Q w e)

include h in
theorem IsOperand.imp {w : List Symbol} {e : Expr} (hw : IsOperand P w e) :
    IsOperand Q w e := by
  cases hw with
  | bool b => exact .bool b
  | number v => exact .number v
  | paren hw => exact .paren (h _ _ hw)

include h in
theorem IsSum.imp {w : List Symbol} {e : Expr} (hw : IsSum P w e) : IsSum Q w e := by
  induction hw with
  | operand hw => exact .operand (hw.imp h)
  | add hleft hright ih => exact .add ih (hright.imp h)

end

/-- What is nested at most `n` deep is so for every larger bound. -/
theorem IsExpression.mono {m n : Nat} (hle : m ≤ n) {w : List Symbol} {e : Expr}
    (h : IsExpression m w e) : IsExpression n w e := by
  induction m generalizing n w e with
  | zero => exact absurd h (not_isExpression_zero w e)
  | succ m ih =>
      obtain ⟨n, rfl⟩ : ∃ k, n = k + 1 := ⟨n - 1, by omega⟩
      have hnested : ∀ w e, IsExpression m w e → IsExpression n w e :=
        fun _ _ => ih (by omega)
      cases h with
      | sum h => exact .sum (h.imp hnested)
      | cond htest hyes hno =>
          exact .cond (htest.imp hnested) (hnested _ _ hyes) (hnested _ _ hno)

/-- Some number of levels is enough for all operands of a sum. -/
theorem IsSum.exists_isExpression {w : List Symbol} {e : Expr} (h : IsSum IsSentence w e) :
    ∃ n, IsSum (IsExpression n) w e := by
  have hoperand {w : List Symbol} {e : Expr} (h : IsOperand IsSentence w e) :
      ∃ n, IsOperand (IsExpression n) w e := by
    cases h with
    | bool b => exact ⟨0, .bool b⟩
    | number v => exact ⟨0, .number v⟩
    | paren h =>
        obtain ⟨n, h⟩ := h
        exact ⟨n, .paren h⟩
  induction h with
  | operand h =>
      obtain ⟨n, h⟩ := hoperand h
      exact ⟨n, .operand h⟩
  | add hleft hright ih =>
      obtain ⟨m, hm⟩ := ih
      obtain ⟨n, hn⟩ := hoperand hright
      exact ⟨max m n, .add (hm.imp fun _ _ => .mono (Nat.le_max_left m n))
        (hn.imp fun _ _ => .mono (Nat.le_max_right m n))⟩

theorem IsSum.isSentence {w : List Symbol} {e : Expr} (h : IsSum IsSentence w e) :
    IsSentence w e := by
  obtain ⟨n, hn⟩ := h.exists_isExpression
  exact ⟨n + 1, .sum hn⟩

theorem IsSentence.cond {u v w : List Symbol} {test yes no : Expr}
    (htest : IsSum IsSentence u test) (hyes : IsSentence v yes) (hno : IsSentence w no) :
    IsSentence (u ++ .question :: (v ++ .colon :: w)) (.cond test yes no) := by
  obtain ⟨k, hk⟩ := htest.exists_isExpression
  obtain ⟨m, hm⟩ := hyes
  obtain ⟨n, hn⟩ := hno
  let large := max k (max m n)
  have hk' : IsSum (IsExpression large) u test := hk.imp fun _ _ => .mono (by omega)
  exact ⟨large + 1, .cond hk' (hm.mono (by omega)) (hn.mono (by omega))⟩

/-- Whatever can stand in front of an operand makes a sum with it. -/
theorem BeforeOperand.isSum {u w : List Symbol} {e : Expr} (hu : BeforeOperand u)
    (hw : IsOperand IsSentence w e) : ∃ e', IsSum IsSentence (u ++ w) e' := by
  cases hu with
  | first => exact ⟨e, .operand hw⟩
  | next hu =>
      rename_i left
      refine ⟨.add left e, ?_⟩
      rw [List.append_assoc, List.singleton_append]
      exact .add hu hw

/-! ### Every beginning opens some expressions -/

theorem Begins.of_isPrefix {u w : List Symbol} (h : Begins w) (hpre : u <+: w) :
    Begins u := by
  obtain ⟨v, e, he⟩ := h
  obtain ⟨v', rfl⟩ := hpre
  exact ⟨v' ++ v, e, by rwa [← List.append_assoc]⟩

/-- Expressions are open at the end of any beginning of the words of `P`. -/
def Opening (P : Phrase) : Prop :=
  ∀ w v e, P (w ++ v) e → ∃ n, Opens n w

section

variable {P : Phrase} (hP : ∀ w e, P w e → IsSentence w e) (hopens : Opening P)

include hP hopens in
/-- The beginnings of an operand, behind what can stand in front of it. -/
theorem IsOperand.exists_opens {u w v : List Symbol} {e : Expr} (hu : BeforeOperand u)
    (h : IsOperand P (w ++ v) e) : ∃ n, Opens n (u ++ w) := by
  cases w with
  | nil => exact ⟨1, .operand (by simpa using hu)⟩
  | cons c w =>
      -- the beginning is the operand, or it is a part of the expression in parentheses
      have hwhole : v = [] → ∃ n, Opens n (u ++ c :: w) := by
        rintro rfl
        rw [List.append_nil] at h
        obtain ⟨e', hsum⟩ := hu.isSum (h.imp hP)
        exact ⟨1, .sum hsum⟩
      generalize hx : c :: w ++ v = x at h
      cases h with
      | bool b => exact hwhole (by simp_all)
      | number b => exact hwhole (by simp_all)
      | paren h =>
          rw [List.cons_append] at hx
          obtain ⟨rfl, hinside⟩ := List.cons_eq_cons.mp hx
          obtain rfl | ⟨v', c, rfl⟩ := v.eq_nil_or_concat
          · exact hwhole rfl
          · rw [List.concat_eq_append, ← List.append_assoc] at hinside
            obtain ⟨rfl, _⟩ := List.append_inj' hinside rfl
            obtain ⟨n, hn⟩ := hopens _ _ _ h
            exact ⟨n + 1, .paren hu hn⟩

include hP hopens in
theorem IsSum.exists_opens {w v : List Symbol} {e : Expr} (h : IsSum P (w ++ v) e) :
    ∃ n, Opens n w := by
  generalize hx : w ++ v = x at h
  induction h generalizing w v with
  | operand h =>
      subst hx
      simpa using h.exists_opens hP hopens .first
  | add hleft hright ih =>
      obtain ⟨a, ha, _⟩ | ⟨a, rfl, ha⟩ := List.append_eq_append_iff.mp hx
      · exact ih ha.symm
      · cases a with
        | nil => exact ⟨1, .sum (by simpa using hleft.imp hP)⟩
        | cons c a =>
            obtain ⟨rfl, rfl⟩ := List.cons_eq_cons.mp ha
            simpa using hright.exists_opens hP hopens (.next (hleft.imp hP))

end

theorem isExpression_opening (n : Nat) : Opening (IsExpression n) := by
  induction n with
  | zero => exact fun w v e h => absurd h (not_isExpression_zero _ e)
  | succ n ih =>
      have hP : ∀ w e, IsExpression n w e → IsSentence w e := fun _ _ h => ⟨n, h⟩
      intro w v e h
      generalize hx : w ++ v = x at h
      cases h with
      | sum h =>
          subst hx
          exact h.exists_opens hP ih
      | cond htest hyes hno =>
          have htest' := htest.imp hP
          obtain ⟨a, rfl, _⟩ | ⟨a, rfl, ha⟩ := List.append_eq_append_iff.mp hx
          · exact htest.exists_opens hP ih
          · cases a with
            | nil => exact ⟨1, .sum (by simpa using htest')⟩
            | cons c a =>
                obtain ⟨rfl, hbranches⟩ := List.cons_eq_cons.mp ha
                obtain ⟨b, rfl, _⟩ | ⟨b, rfl, hb⟩ :=
                  List.append_eq_append_iff.mp hbranches.symm
                · obtain ⟨k, hk⟩ := ih _ _ _ hyes
                  exact ⟨k + 1, .yes htest' hk⟩
                · cases b with
                  | nil =>
                      obtain ⟨k, hk⟩ := ih _ [] _ (by simpa using hyes)
                      exact ⟨k + 1, by simpa using Opens.yes htest' hk⟩
                  | cons c b =>
                      obtain ⟨rfl, rfl⟩ := List.cons_eq_cons.mp hb
                      obtain ⟨k, hk⟩ := ih _ _ _ hno
                      exact ⟨k + 1, .no htest' (hP _ _ hyes) hk⟩

theorem Begins.exists_opens {w : List Symbol} (h : Begins w) : ∃ n, Opens n w := by
  obtain ⟨v, e, n, he⟩ := h
  exact isExpression_opening n w v e he

theorem isSentence_bool (b : Bool) : IsSentence [.bool b] (.bool b) :=
  ⟨1, .sum (.operand (.bool b))⟩

/-- Only beginnings of sentences open expressions. -/
theorem Opens.begins {n : Nat} {w : List Symbol} (h : Opens n w) : Begins w := by
  induction h with
  | operand hu =>
      obtain ⟨e, he⟩ := hu.isSum (.bool true)
      exact ⟨[.bool true], e, he.isSentence⟩
  | sum h => exact ⟨[], _, by simpa using h.isSentence⟩
  | paren hu _ ih =>
      obtain ⟨v, e, he⟩ := ih
      obtain ⟨e', he'⟩ := hu.isSum (.paren he)
      exact ⟨v ++ [.closeParen], e', by simpa using he'.isSentence⟩
  | yes hu _ ih =>
      obtain ⟨v, e, he⟩ := ih
      exact ⟨v ++ [.colon, .bool true], _,
        by simpa using IsSentence.cond hu he (isSentence_bool true)⟩
  | no hu hv _ ih =>
      obtain ⟨v', e, he⟩ := ih
      exact ⟨v', _, by simpa using IsSentence.cond hu hv he⟩

/-- It takes a symbol to open one more expression. -/
theorem Opens.le_length {n : Nat} {w : List Symbol} (h : Opens n w) : n ≤ w.length + 1 := by
  induction h with
  | operand => omega
  | sum => omega
  | paren _ _ ih =>
      rw [List.length_append, List.length_cons]
      omega
  | yes _ _ ih =>
      rw [List.length_append, List.length_cons]
      omega
  | no _ _ _ ih =>
      rw [List.length_append, List.length_cons, List.length_append, List.length_cons]
      omega

/-! ### Beginnings that stay within a bound -/

/-- A word that is short for the bound stays within it. -/
theorem Within.of_length {n : Nat} {w : List Symbol} (h : w.length < n) : Within n w := by
  intro u k hu hk
  have hle := hu.length_le
  have hk' := hk.le_length
  omega

theorem Within.of_isPrefix {n : Nat} {u w : List Symbol} (h : Within n w)
    (hpre : u <+: w) : Within n u :=
  fun v k hv => h v k (hv.trans hpre)

/-- The outermost expression is open from the start. -/
theorem Within.exists_succ {n : Nat} {w : List Symbol} (h : Within n w) :
    ∃ k, n = k + 1 := by
  have hone := h [] 1 List.nil_prefix (.operand .first)
  exact ⟨n - 1, by omega⟩

/-- Inside an expression that `c` opens there is one level less. -/
theorem Within.inner {n : Nat} {c w v : List Symbol} (h : Within (n + 1) (c ++ w ++ v))
    (hc : ∀ k u, Opens k u → Opens (k + 1) (c ++ u)) : Within n w := by
  intro u k hu hk
  have hpre : c ++ u <+: c ++ w ++ v :=
    ((List.prefix_append_right_inj c).mpr hu).trans (List.prefix_append _ _)
  have hle := h _ _ hpre (hc k u hk)
  omega

theorem Opens.in_paren {u : List Symbol} (hu : BeforeOperand u) (k : Nat) (w : List Symbol)
    (hw : Opens k w) : Opens (k + 1) (u ++ [.openParen] ++ w) := by
  simpa using Opens.paren hu hw

theorem Opens.in_yes {u : List Symbol} {e : Expr} (hu : IsSum IsSentence u e) (k : Nat)
    (w : List Symbol) (hw : Opens k w) : Opens (k + 1) (u ++ [.question] ++ w) := by
  simpa using Opens.yes hu hw

theorem Opens.in_no {u v : List Symbol} {e e' : Expr} (hu : IsSum IsSentence u e)
    (hv : IsSentence v e') (k : Nat) (w : List Symbol) (hw : Opens k w) :
    Opens (k + 1) (u ++ .question :: (v ++ [.colon]) ++ w) := by
  simpa using Opens.no hu hv hw

/-- The words of `P` that stay within a bound are expressions nested as deep. -/
def Bounded (P : Phrase) : Prop :=
  ∀ n w e, P w e → Within n w → IsExpression n w e

theorem IsOperand.of_within {P : Phrase} (hP : Bounded P) {n : Nat} {u w : List Symbol}
    {e : Expr} (hu : BeforeOperand u) (h : IsOperand P w e) (hw : Within (n + 1) (u ++ w)) :
    IsOperand (IsExpression n) w e := by
  cases h with
  | bool b => exact .bool b
  | number v => exact .number v
  | paren h =>
      rename_i w
      have hinner : Within (n + 1) (u ++ [.openParen] ++ w ++ [.closeParen]) := by
        simpa using hw
      exact .paren (hP n w e h (hinner.inner (Opens.in_paren hu)))

theorem IsSum.of_within {P : Phrase} (hsentence : ∀ w e, P w e → IsSentence w e)
    (hP : Bounded P) {n : Nat} {w : List Symbol} {e : Expr} (h : IsSum P w e)
    (hw : Within (n + 1) w) : IsSum (IsExpression n) w e := by
  induction h with
  | operand h => exact .operand (h.of_within hP .first hw)
  | add hleft hright ih =>
      rename_i u v left right
      have hright' : Within (n + 1) (u ++ [.plus] ++ v) := by simpa using hw
      exact .add (ih (hw.of_isPrefix (List.prefix_append _ _)))
        (hright.of_within hP (.next (hleft.imp hsentence)) hright')

/-- A sentence of which no part opens more than `n` expressions is nested at most `n`
deep. -/
theorem isExpression_bounded (m : Nat) : Bounded (IsExpression m) := by
  induction m with
  | zero => exact fun n w e h => absurd h (not_isExpression_zero w e)
  | succ m ih =>
      have hsentence : ∀ w e, IsExpression m w e → IsSentence w e := fun _ _ h => ⟨m, h⟩
      intro n w e h hw
      obtain ⟨n, rfl⟩ := hw.exists_succ
      cases h with
      | sum h => exact .sum (h.of_within hsentence ih hw)
      | cond htest hyes hno =>
          rename_i u v w test yes no
          have htest' := htest.imp hsentence
          have hw₁ : Within (n + 1) (u ++ [.question] ++ v ++ .colon :: w) := by
            simpa using hw
          have hw₂ : Within (n + 1) (u ++ .question :: (v ++ [.colon]) ++ w ++ []) := by
            simpa using hw
          exact .cond (htest.of_within hsentence ih (hw.of_isPrefix (List.prefix_append _ _)))
            (ih n v yes hyes (hw₁.inner (Opens.in_yes htest')))
            (ih n w no hno (hw₂.inner (Opens.in_no htest' (hsentence _ _ hyes))))

theorem isSentence_bounded : Bounded IsSentence := by
  rintro n w e ⟨m, hm⟩ hw
  exact isExpression_bounded m n w e hm hw

theorem BeforeOperand.of_within {n : Nat} {u x : List Symbol} {e : Expr}
    (hu : BeforeOperand u) (hw : Within (n + 1) u) (hx : IsOperand (IsExpression n) x e) :
    ∃ e', IsExpression (n + 1) (u ++ x) e' := by
  cases hu with
  | first => exact ⟨e, .sum (.operand hx)⟩
  | next h =>
      rename_i u left
      have hsum := h.of_within (fun _ _ => id) isSentence_bounded
        (hw.of_isPrefix (List.prefix_append u [.plus]))
      exact ⟨.add left e, .sum (by simpa using IsSum.add hsum hx)⟩

/-- A beginning of which no part opens more than `n` expressions can be continued to a
sentence nested at most `n` deep: each expression that is open gets the least that it
lacks. -/
theorem Opens.exists_isExpression {k : Nat} {w : List Symbol} (h : Opens k w) {n : Nat}
    (hw : Within n w) : ∃ v e, IsExpression n (w ++ v) e := by
  induction h generalizing n with
  | operand hu =>
      obtain ⟨n, rfl⟩ := hw.exists_succ
      exact ⟨[.bool true], hu.of_within hw (.bool true)⟩
  | sum h =>
      exact ⟨[], _, by simpa using isSentence_bounded _ _ _ h.isSentence hw⟩
  | paren hu hinside ih =>
      rename_i u k w
      obtain ⟨n, rfl⟩ := hw.exists_succ
      have hw₁ : Within (n + 1) (u ++ [.openParen] ++ w ++ []) := by simpa using hw
      obtain ⟨v, e, he⟩ := ih (hw₁.inner (Opens.in_paren hu))
      refine ⟨v ++ [.closeParen], ?_⟩
      simpa using hu.of_within (hw.of_isPrefix (List.prefix_append _ _)) (.paren he)
  | yes hu hinside ih =>
      rename_i u test k w
      obtain ⟨n, rfl⟩ := hw.exists_succ
      have hw₁ : Within (n + 1) (u ++ [.question] ++ w ++ []) := by simpa using hw
      obtain ⟨v, e, he⟩ := ih (hw₁.inner (Opens.in_yes hu))
      have htest := hu.of_within (fun _ _ => id) isSentence_bounded
        (hw.of_isPrefix (List.prefix_append _ _))
      refine ⟨v ++ [.colon, .bool true], .cond test e (.bool true), ?_⟩
      simpa [isExpression_succ] using IsConditional.cond htest he (he.bool true)
  | no hu hyes hinside ih =>
      rename_i u test v yes k w
      obtain ⟨n, rfl⟩ := hw.exists_succ
      have hw₁ : Within (n + 1) (u ++ [.question] ++ v ++ .colon :: w) := by simpa using hw
      have hw₂ : Within (n + 1) (u ++ .question :: (v ++ [.colon]) ++ w ++ []) := by
        simpa using hw
      obtain ⟨x, e, he⟩ := ih (hw₂.inner (Opens.in_no hu hyes))
      have htest := hu.of_within (fun _ _ => id) isSentence_bounded
        (hw.of_isPrefix (List.prefix_append _ _))
      have hyes' := isSentence_bounded _ _ _ hyes (hw₁.inner (Opens.in_yes hu))
      refine ⟨x, .cond test yes e, ?_⟩
      simpa [isExpression_succ] using IsConditional.cond htest hyes' he

end Grammar

end TwoSorted
