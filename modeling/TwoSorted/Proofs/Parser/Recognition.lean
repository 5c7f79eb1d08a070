import TwoSorted.Proofs.Grammar
import TwoSorted.Proofs.Parser.Stream

/-!
# The parser and the grammar

With a stream as its source, the parser is compared with the grammar. What it
reads is a word of the grammar (`expression_sound`). A word of the grammar is read
from every stream that it begins, provided that the token after it does not
continue the expression (`expression_complete`). If the parser lacks input, the
stream can be continued to a word of the grammar (`expression_viable`).
-/

namespace TwoSorted

namespace Stream

open Outcome Grammar TwoSorted.Parser

/-! ### What is read is a word of the grammar -/

/-- Whatever `read` takes from a stream is a word of `P`. -/
def Sound (read : Stream → Except Stop (Expr × Stream)) (P : Phrase) : Prop :=
  ∀ ⦃s s' e⦄, read s = .ok (e, s') → ∃ w, s.Spells w s' ∧ P w e

theorem operand_sound {nested : Stream → Except Stop (Expr × Stream)} {P : Phrase}
    (hn : Sound nested P) : Sound (operand reader nested) (IsOperand P) := by
  intro s s' e h
  obtain ⟨t, _, h⟩ := ahead_bind_eq_ok h
  dsimp only at h
  split at h
  · rename_i b _
    obtain ⟨s₂, htake, h⟩ := bind_eq_ok_iff.mp h
    cases h
    exact ⟨_, expect_eq_ok_iff.mp htake, .bool b⟩
  · rename_i v _
    obtain ⟨s₂, htake, h⟩ := bind_eq_ok_iff.mp h
    cases h
    exact ⟨_, expect_eq_ok_iff.mp htake, .number v⟩
  · obtain ⟨s₂, htake, h⟩ := bind_eq_ok_iff.mp h
    obtain ⟨⟨e', s₃⟩, hnested, h⟩ := bind_eq_ok_iff.mp h
    obtain ⟨s₄, hexpect, h⟩ := bind_eq_ok_iff.mp h
    cases h
    obtain ⟨w, hw, he⟩ := hn hnested
    have hopen := expect_eq_ok_iff.mp htake
    have hclose := expect_eq_ok_iff.mp hexpect
    exact ⟨_, hopen.trans (hw.trans hclose), .paren he⟩
  · cases h
  · cases h

/-- The summands after `left` extend every sum with the tree `left`. -/
theorem summands_sound {nested : Stream → Except Stop (Expr × Stream)} {P : Phrase}
    (hn : Sound nested P) {bound : Nat} {left e : Expr} {s s' : Stream}
    (h : summands reader nested bound left s = .ok (e, s')) :
    ∃ w, s.Spells w s' ∧ ∀ u, IsSum P u left → IsSum P (u ++ w) e := by
  -- `left` grows from turn to turn, so the word that spells it stays arbitrary
  induction bound generalizing left s with
  | zero =>
      cases h
      exact ⟨[], .refl _, fun u hu => by simpa using hu⟩
  | succ bound ih =>
      obtain ⟨t, _, h⟩ := ahead_bind_eq_ok h
      dsimp only at h
      split at h
      · obtain ⟨s₂, htake, h⟩ := bind_eq_ok_iff.mp h
        obtain ⟨⟨right, s₃⟩, hright, h⟩ := bind_eq_ok_iff.mp h
        obtain ⟨v, hv, hright⟩ := operand_sound hn hright
        obtain ⟨w, hw, hsum⟩ := ih h
        have hplus := expect_eq_ok_iff.mp htake
        refine ⟨_, hplus.trans (hv.trans hw), fun u hu => ?_⟩
        simpa using hsum _ (.add hu hright)
      · cases h
        exact ⟨[], .refl _, fun u hu => by simpa using hu⟩

theorem sum_sound {nested : Stream → Except Stop (Expr × Stream)} {P : Phrase}
    (hn : Sound nested P) (bound : Nat) : Sound (sum reader nested bound) (IsSum P) := by
  intro s s' e h
  obtain ⟨⟨left, s₁⟩, hleft, h⟩ := bind_eq_ok_iff.mp h
  obtain ⟨u, hu, hleft⟩ := operand_sound hn hleft
  obtain ⟨w, hw, hsum⟩ := summands_sound hn h
  exact ⟨u ++ w, hu.trans hw, hsum u (.operand hleft)⟩

theorem expression_sound (bound n : Nat) :
    Sound (expression reader bound n) (IsExpression n) := by
  induction n with
  | zero =>
      intro s s' e h
      obtain ⟨⟨t, s₁⟩, _, h⟩ := bind_eq_ok_iff.mp h
      cases h
  | succ n ih =>
      intro s s' e h
      obtain ⟨⟨test, s₁⟩, htest, h⟩ := bind_eq_ok_iff.mp h
      obtain ⟨t, _, h⟩ := ahead_bind_eq_ok h
      obtain ⟨u, hu, hsum⟩ := sum_sound ih bound htest
      dsimp only at h
      split at h
      · obtain ⟨s₃, htake, h⟩ := bind_eq_ok_iff.mp h
        obtain ⟨⟨yes, s₄⟩, hyes, h⟩ := bind_eq_ok_iff.mp h
        obtain ⟨s₅, hexpect, h⟩ := bind_eq_ok_iff.mp h
        obtain ⟨⟨no, s₆⟩, hno, h⟩ := bind_eq_ok_iff.mp h
        cases h
        obtain ⟨v, hv, hyes⟩ := ih hyes
        obtain ⟨w, hw, hno⟩ := ih hno
        have hquestion := expect_eq_ok_iff.mp htake
        have hcolon := expect_eq_ok_iff.mp hexpect
        exact ⟨_, hu.trans (hquestion.trans (hv.trans (hcolon.trans hw))),
          .cond hsum hyes hno⟩
      · cases h
        exact ⟨u, hu, .sum hsum⟩

/-! ### Every word of the grammar is read -/

/-- Every word of `P` is read from a stream of fewer than `bound` tokens that it
begins, if the token after it does not continue an expression. -/
def Complete (bound : Nat) (read : Stream → Except Stop (Expr × Stream)) (P : Phrase) :
    Prop :=
  ∀ ⦃s s' w e⦄, P w e → s.Spells w s' → s'.Closes → s.tokens.length < bound →
    read s = .ok (e, s')

theorem closes_of_ahead {s : Stream} {t : Token} (h : s.ahead = .ok (t, s))
    (ht : t.symbol = .closeParen ∨ t.symbol = .colon ∨ t.symbol = .endOfText) :
    s.Closes := by
  refine ⟨t, h, ?_⟩
  rcases ht with ht | ht | ht <;> simp [ht]

theorem operand_complete {bound : Nat} {nested : Stream → Except Stop (Expr × Stream)}
    {P : Phrase} (hn : Complete bound nested P) {s s' : Stream} {w : List Symbol}
    {e : Expr} (h : IsOperand P w e) (hs : s.Spells w s')
    (hbound : s.tokens.length < bound) : operand reader nested s = .ok (e, s') := by
  cases h with
  | bool b =>
      obtain ⟨t, m, hahead, ht, htake, hm⟩ := hs.of_cons
      obtain rfl := hm.eq_of_nil
      simp [operand, hahead, ht, htake]
  | number v =>
      obtain ⟨t, m, hahead, ht, htake, hm⟩ := hs.of_cons
      obtain rfl := hm.eq_of_nil
      simp [operand, hahead, ht, htake]
  | paren he =>
      obtain ⟨t, m, hahead, ht, htake, hm⟩ := hs.of_cons
      obtain ⟨m', hw, hclose⟩ := hm.of_append
      obtain ⟨t', _, hahead', ht', _⟩ := hclose.of_cons
      have hlt := length_lt_of_expect htake
      have hnested := hn he hw (closes_of_ahead hahead' (.inl ht')) (by omega)
      simp [operand, hahead, ht, htake, hnested, expect_eq_ok_iff.mpr hclose]

theorem summands_eq_ok {bound : Nat} {nested : Stream → Except Stop (Expr × Stream)}
    {left : Expr} {s : Stream} {t : Token} (hahead : s.ahead = .ok (t, s))
    (ht : t.symbol ≠ .plus) : summands reader nested bound left s = .ok (left, s) := by
  cases bound with
  | zero => rfl
  | succ bound => simp [summands, hahead, ht]

theorem summands_succ {bound : Nat} {nested : Stream → Except Stop (Expr × Stream)}
    {left right : Expr} {s m s' : Stream} {t : Token} (hahead : s.ahead = .ok (t, s))
    (ht : t.symbol = .plus) (htake : s.expect .plus = .ok m)
    (hoperand : operand reader nested m = .ok (right, s')) :
    summands reader nested (bound + 1) left s =
      summands reader nested bound (.add left right) s' := by
  simp [summands, hahead, ht, htake, hoperand]

/-- Reading a sum comes down to reading the summands after any sum that the
stream begins with. -/
theorem sum_eq_summands {bound : Nat} {nested : Stream → Except Stop (Expr × Stream)}
    {P : Phrase} (hn : Complete bound nested P)
    (hshrinks : Shrinks (fun s => s.tokens.length) nested) {s s' : Stream}
    {w : List Symbol} {left : Expr} (h : IsSum P w left) (hs : s.Spells w s')
    (hbound : s.tokens.length < bound) :
    sum reader nested bound s = summands reader nested bound left s' := by
  induction h generalizing s' with
  | operand h =>
      simp only [sum, operand_complete hn h hs hbound, ok_bind]
  | add hleft hright ih =>
      rename_i right
      obtain ⟨m, hu, hm⟩ := hs.of_append
      obtain ⟨t, m', hahead, ht, htake, hm'⟩ := hm.of_cons
      have hle := hu.length_le
      have hlt := length_lt_of_expect htake
      have hle' := hm'.length_le
      have hoperand := operand_complete hn hright hm' (by omega)
      obtain ⟨k, rfl⟩ : ∃ k, bound = k + 1 := ⟨bound - 1, by omega⟩
      rw [ih hu, summands_succ hahead ht htake hoperand]
      -- one operand fewer is left of the bound, which is still above the size
      exact summands_congr reader_sized hshrinks (fun _ _ => rfl) (by omega) (by omega)

/-- A sum is read up to the first token behind it that is no plus sign. -/
theorem sum_complete {bound : Nat} {nested : Stream → Except Stop (Expr × Stream)}
    {P : Phrase} (hn : Complete bound nested P)
    (hshrinks : Shrinks (fun s => s.tokens.length) nested) {s s' : Stream}
    {w : List Symbol} {e : Expr} {t : Token} (h : IsSum P w e) (hs : s.Spells w s')
    (hahead : s'.ahead = .ok (t, s')) (ht : t.symbol ≠ .plus)
    (hbound : s.tokens.length < bound) : sum reader nested bound s = .ok (e, s') := by
  rw [sum_eq_summands hn hshrinks h hs hbound, summands_eq_ok hahead ht]

theorem expression_complete (bound n : Nat) :
    Complete bound (expression reader bound n) (IsExpression n) := by
  induction n with
  | zero => exact fun _ _ _ _ h => absurd h (not_isExpression_zero _ _)
  | succ n ih =>
      have hshrinks := expression_shrinks reader_sized bound n
      intro s s' w e h hs hcloses hbound
      cases h with
      | sum h =>
          obtain ⟨t, hahead, hplus, hquestion⟩ := hcloses
          have hsum := sum_complete ih hshrinks h hs hahead hplus hbound
          simp [expression, hsum, hahead, hquestion]
      | cond htest hyes hno =>
          rename_i u v w test yes no
          obtain ⟨m₁, hu, hrest⟩ := hs.of_append
          obtain ⟨t, m₂, hahead, ht, htake, hrest⟩ := hrest.of_cons
          obtain ⟨m₃, hv, hrest⟩ := hrest.of_append
          obtain ⟨t', m₄, hahead', ht', hexpect, hw⟩ := hrest.of_cons
          have hle₁ := hu.length_le
          have hlt₂ := length_lt_of_expect htake
          have hle₃ := hv.length_le
          have hlt₄ := length_lt_of_expect hexpect
          have hsum := sum_complete ih hshrinks htest hu hahead (by simp [ht]) hbound
          have hyes := ih hyes hv (closes_of_ahead hahead' (.inr (.inl ht'))) (by omega)
          have hno := ih hno hw hcloses (by omega)
          simp [expression, hsum, hahead, ht, htake, hyes, hexpect, hno]

/-! ### A stream that ends too early can be continued -/

/-- Some symbols more make the word one of `P`. -/
def Viable (P : Phrase) (w : List Symbol) : Prop :=
  ∃ v e, v ≠ [] ∧ P (w ++ v) e

/-- Where `read` lacks input, what is left of the stream can be continued to a
word of `P`. -/
def Continuable (read : Stream → Except Stop (Expr × Stream)) (P : Phrase) : Prop :=
  ∀ ⦃s⦄, s.Proper → read s = .error .endOfInput → Viable P s.spelling

theorem spelling_eq_nil {s : Stream} (h : s.tokens = []) : s.spelling = [] := by
  simp [spelling, h]

theorem operand_viable {nested : Stream → Except Stop (Expr × Stream)} {P : Phrase}
    (hsound : Sound nested P) (hn : Continuable nested P) :
    Continuable (operand reader nested) (IsOperand P) := by
  intro s hs h
  obtain ⟨t, hahead, h⟩ := ahead_bind_eq_endOfInput h
  dsimp only at h
  cases hsymbol : t.symbol with
  | endOfText =>
      have hnil := spelling_eq_nil (hs.tokens_eq_nil hahead hsymbol)
      refine ⟨[.bool true], .bool true, by simp, ?_⟩
      simpa [hnil] using IsOperand.bool true
  | openParen =>
      obtain ⟨m, htake⟩ := expect_of_ahead hahead (by simp [hsymbol])
      rw [hsymbol] at htake
      have hopen := expect_eq_ok_iff.mp htake
      simp only [hsymbol, reader_take, htake, ok_bind] at h
      obtain hnested | ⟨⟨e, m'⟩, hnested, h⟩ := bind_eq_error_iff.mp h
      · obtain ⟨v, e, _, he⟩ := hn (hopen.proper hs) hnested
        refine ⟨v ++ [.closeParen], e, by simp, ?_⟩
        simpa [hopen.spelling_eq] using IsOperand.paren he
      · obtain ⟨w, hw, he⟩ := hsound hnested
        obtain hexpect | ⟨_, _, h⟩ := bind_eq_error_iff.mp h
        · have hnil := spelling_eq_nil (tokens_eq_nil_of_expect hexpect)
          refine ⟨[.closeParen], e, by simp, ?_⟩
          simpa [hopen.spelling_eq, hw.spelling_eq, hnil] using IsOperand.paren he
        · cases h
  | bool b =>
      obtain ⟨m, htake⟩ := expect_of_ahead hahead (by simp [hsymbol])
      simp [hsymbol, hsymbol ▸ htake] at h
  | number v =>
      obtain ⟨m, htake⟩ := expect_of_ahead hahead (by simp [hsymbol])
      simp [hsymbol, hsymbol ▸ htake] at h
  | plus => simp [hsymbol] at h
  | question => simp [hsymbol] at h
  | colon => simp [hsymbol] at h
  | closeParen => simp [hsymbol] at h

theorem summands_viable {nested : Stream → Except Stop (Expr × Stream)} {P : Phrase}
    (hsound : Sound nested P) (hn : Continuable nested P) {bound : Nat} {left : Expr}
    {s : Stream} (hs : s.Proper)
    (h : summands reader nested bound left s = .error .endOfInput)
    {u : List Symbol} (hu : IsSum P u left) : Viable (IsSum P) (u ++ s.spelling) := by
  induction bound generalizing left s u with
  | zero => cases h
  | succ bound ih =>
      obtain ⟨t, hahead, h⟩ := ahead_bind_eq_endOfInput h
      dsimp only at h
      split at h
      · rename_i ht
        obtain ⟨m, htake⟩ := expect_of_ahead hahead (by simp [ht])
        rw [ht] at htake
        have hplus := expect_eq_ok_iff.mp htake
        simp only [reader_take, htake, ok_bind] at h
        obtain hright | ⟨⟨right, m'⟩, hright, h⟩ := bind_eq_error_iff.mp h
        · obtain ⟨v, right, hv, he⟩ := operand_viable hsound hn (hplus.proper hs) hright
          refine ⟨v, .add left right, hv, ?_⟩
          simpa [hplus.spelling_eq] using IsSum.add hu he
        · obtain ⟨w, hw, he⟩ := operand_sound hsound hright
          obtain ⟨v, e, hv, he⟩ := ih (hw.proper (hplus.proper hs)) h (.add hu he)
          refine ⟨v, e, hv, ?_⟩
          simpa [hplus.spelling_eq, hw.spelling_eq] using he
      · cases h

theorem sum_viable {nested : Stream → Except Stop (Expr × Stream)} {P : Phrase}
    (hsound : Sound nested P) (hn : Continuable nested P) (bound : Nat) :
    Continuable (sum reader nested bound) (IsSum P) := by
  intro s hs h
  obtain hleft | ⟨⟨left, m⟩, hleft, h⟩ := bind_eq_error_iff.mp h
  · obtain ⟨v, e, hv, he⟩ := operand_viable hsound hn hs hleft
    exact ⟨v, e, hv, .operand he⟩
  · obtain ⟨u, hu, he⟩ := operand_sound hsound hleft
    rw [hu.spelling_eq]
    exact summands_viable hsound hn (hu.proper hs) h (.operand he)

theorem expression_viable (bound n : Nat) :
    Continuable (expression reader bound n) (IsExpression n) := by
  induction n with
  | zero =>
      intro s _ h
      obtain ⟨t, _, h⟩ := ahead_bind_eq_endOfInput h
      cases h
  | succ n ih =>
      have hsound := expression_sound bound n
      intro s hs h
      -- input lacks in the condition, in a branch, or where the colon should be
      obtain htest | ⟨⟨test, m₁⟩, htest, h⟩ := bind_eq_error_iff.mp h
      · obtain ⟨v, e, hv, he⟩ := sum_viable hsound ih bound hs htest
        exact ⟨v, e, hv, .sum he⟩
      obtain ⟨u, hu, hsum⟩ := sum_sound hsound bound htest
      obtain ⟨t, hahead, h⟩ := ahead_bind_eq_endOfInput h
      dsimp only at h
      split at h
      · rename_i ht
        obtain ⟨m₂, htake⟩ := expect_of_ahead hahead (by simp [ht])
        rw [ht] at htake
        have hquestion := expect_eq_ok_iff.mp htake
        have hs₂ := hquestion.proper (hu.proper hs)
        simp only [reader_take, htake, ok_bind] at h
        obtain hyes | ⟨⟨yes, m₃⟩, hyes, h⟩ := bind_eq_error_iff.mp h
        · obtain ⟨v, yes, _, he⟩ := ih hs₂ hyes
          refine ⟨v ++ [.colon, .bool true], .cond test yes (.bool true), by simp, ?_⟩
          simpa [isExpression_succ, hu.spelling_eq, hquestion.spelling_eq] using
            IsConditional.cond hsum he (he.bool true)
        obtain ⟨v, hv, hyes⟩ := hsound hyes
        obtain hexpect | ⟨m₄, hexpect, h⟩ := bind_eq_error_iff.mp h
        · have hnil := spelling_eq_nil (tokens_eq_nil_of_expect hexpect)
          refine ⟨[.colon, .bool true], .cond test yes (.bool true), by simp, ?_⟩
          simpa [isExpression_succ, hu.spelling_eq, hquestion.spelling_eq,
            hv.spelling_eq, hnil] using
            IsConditional.cond hsum hyes (hyes.bool true)
        have hcolon := expect_eq_ok_iff.mp hexpect
        obtain hno | ⟨⟨no, m₅⟩, _, h⟩ := bind_eq_error_iff.mp h
        · obtain ⟨w, no, hw, he⟩ := ih (hcolon.proper (hv.proper hs₂)) hno
          refine ⟨w, .cond test yes no, hw, ?_⟩
          simpa [isExpression_succ, hu.spelling_eq, hquestion.spelling_eq,
            hv.spelling_eq, hcolon.spelling_eq] using IsConditional.cond hsum hyes he
        · cases h
      · cases h

end Stream

end TwoSorted
