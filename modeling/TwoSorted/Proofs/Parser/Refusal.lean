import TwoSorted.Proofs.Parser.Beginnings
import TwoSorted.Proofs.Parser.BreakOff
import TwoSorted.Proofs.Parser.Levels
import TwoSorted.Proofs.Parser.Symbols

/-!
# Where a text is refused

A text is refused at the first token that does not continue the beginning of a
sentence, whatever stands behind it. Three facts lead there.

The parser refuses a stream at one of its tokens, and it refuses the stream that is
cut off behind this token in the same way (`program_pinpoints`): it never looks
further ahead. A stream that it does not refuse before its end begins a sentence
(`begins_of_program`). And a beginning that stays within the levels of the parser can
be continued to a sentence that stays within them too (`Beginnings`), which the parser
reads and so cannot have refused.
-/

namespace TwoSorted

open Outcome Grammar

namespace Stream

open TwoSorted.Parser

/-! ### What stands behind a result -/

/-- Behind the last summand there is a token, and it is no plus sign. -/
theorem summands_closes {nested : Stream → Except Stop (Expr × Stream)}
    (hshrinks : Shrinks (fun s => s.tokens.length) nested) {bound : Nat} {left e : Expr}
    {s s' : Stream} (hbound : s.tokens.length < bound)
    (h : summands reader nested bound left s = .ok (e, s')) :
    ∃ t, s'.ahead = .ok (t, s') ∧ t.symbol ≠ .plus := by
  induction bound generalizing left s with
  | zero => omega
  | succ bound ih =>
      obtain ⟨t, hahead, h⟩ := ahead_bind_eq_ok h
      dsimp only at h
      split at h
      · obtain ⟨s₂, htake, h⟩ := bind_eq_ok_iff.mp h
        obtain ⟨⟨right, s₃⟩, hright, h⟩ := bind_eq_ok_iff.mp h
        have hlt := length_lt_of_expect htake
        have hle : s₃.tokens.length ≤ s₂.tokens.length :=
          operand_shrinks reader_sized hshrinks _ _ _ hright
        exact ih (show s₃.tokens.length < bound by omega) h
      · rename_i hplus
        cases h
        exact ⟨t, hahead, hplus⟩

/-- Behind an expression there is a token that does not continue it. -/
theorem expression_closes (bound n : Nat) {s s' : Stream} {e : Expr}
    (hbound : s.tokens.length < bound) (h : expression reader bound n s = .ok (e, s')) :
    s'.Closes := by
  induction n generalizing s e with
  | zero =>
      obtain ⟨⟨t, s₁⟩, _, h⟩ := bind_eq_ok_iff.mp h
      cases h
  | succ n ih =>
      have hshrinks := expression_shrinks reader_sized bound n
      obtain ⟨⟨test, s₁⟩, htest, h⟩ := bind_eq_ok_iff.mp h
      obtain ⟨⟨left, s₀⟩, hleft, hsummands⟩ := bind_eq_ok_iff.mp htest
      have hle₀ : s₀.tokens.length ≤ s.tokens.length :=
        operand_shrinks reader_sized hshrinks _ _ _ hleft
      have hle₁ : s₁.tokens.length ≤ s.tokens.length :=
        sum_shrinks reader_sized hshrinks bound _ _ _ htest
      obtain ⟨t', hahead', hplus⟩ := summands_closes hshrinks (by omega) hsummands
      obtain ⟨t, hahead, h⟩ := ahead_bind_eq_ok h
      dsimp only at h
      split at h
      · obtain ⟨s₂, htake, h⟩ := bind_eq_ok_iff.mp h
        obtain ⟨⟨yes, s₃⟩, hyes, h⟩ := bind_eq_ok_iff.mp h
        obtain ⟨s₄, hexpect, h⟩ := bind_eq_ok_iff.mp h
        obtain ⟨⟨no, s₅⟩, hno, h⟩ := bind_eq_ok_iff.mp h
        cases h
        have hlt₂ := length_lt_of_expect htake
        have hle₃ : s₃.tokens.length ≤ s₂.tokens.length := hshrinks _ _ _ hyes
        have hlt₄ : s₄.tokens.length < s₃.tokens.length := length_lt_of_expect hexpect
        exact ih (by omega) hno
      · rename_i hquestion
        cases h
        rw [hahead] at hahead'
        cases hahead'
        exact ⟨_, hahead, hplus, hquestion⟩

/-! ### Streams that are cut off -/

/-- The stream `s'` is `s` cut off behind its token `t`. -/
def Cut (s : Stream) (t : Token) (s' : Stream) : Prop :=
  ∃ us rest, s.tokens = us ++ t :: rest ∧ s' = { s with tokens := us ++ [t] }

/-- The stream breaks off with a fault of the characters. -/
structure Faulty (s : Stream) : Prop where
  proper : s.Proper
  stop_eq : ∃ q fault, s.stop = .lexical q fault

theorem Faulty.of_spells {s s' : Stream} {w : List Symbol} (hs : s.Faulty)
    (h : s.Spells w s') : s'.Faulty := by
  refine ⟨h.proper hs.proper, ?_⟩
  obtain ⟨us, rfl, _⟩ := h
  exact hs.stop_eq

/-- A stream that leads to one that can be cut off can be cut off at the same token. -/
theorem Cut.of_spells {s m m' : Stream} {t : Token} {w : List Symbol} (h : m.Cut t m')
    (hs : s.Spells w m) : ∃ s', s.Cut t s' ∧ s'.Spells w m' := by
  obtain ⟨us, rest, hm, rfl⟩ := h
  obtain ⟨vs, rfl, rfl⟩ := hs
  exact ⟨_, ⟨vs ++ us, rest, by simp [hm], rfl⟩, ⟨vs, by simp, rfl⟩⟩

theorem Cut.length_le {s s' : Stream} {t : Token} (h : s.Cut t s') :
    s'.tokens.length ≤ s.tokens.length := by
  obtain ⟨us, rest, hs, rfl⟩ := h
  simp [hs]

/-- The stream that is cut off behind its first token. -/
theorem cut_first {s : Stream} {t : Token} {rest : List Token} (h : s.tokens = t :: rest) :
    s.Cut t { s with tokens := [t] } :=
  ⟨[], rest, h, rfl⟩

/-- A faulty stream that leads to a refusal has a token ahead. -/
theorem ahead_bind_eq_syntactic {α : Type} {s : Stream} {f : Token × Stream → Except Stop α}
    {q : Position} {fault : SyntaxFault} (hs : s.Faulty)
    (h : (s.ahead >>= f) = .error (.syntactic q fault)) :
    ∃ t rest, s.tokens = t :: rest ∧ t.symbol ≠ .endOfText ∧
      f (t, s) = .error (.syntactic q fault) := by
  obtain ⟨q₀, fault₀, hstop⟩ := hs.stop_eq
  cases htokens : s.tokens with
  | nil =>
      rw [ahead_of_stop htokens (hstop ▸ rfl), hstop] at h
      cases h
  | cons t rest =>
      rw [ahead_of_tokens htokens, ok_bind] at h
      exact ⟨t, rest, rfl, hs.proper t (htokens ▸ List.mem_cons_self), h⟩

/-- A symbol that is missing is missing at the token ahead, in the stream that is cut
off behind it as well. -/
theorem expect_eq_syntactic {s : Stream} {c : Symbol} {q : Position} {fault : SyntaxFault}
    (hs : s.Faulty) (h : s.expect c = .error (.syntactic q fault)) :
    ∃ t s', s.Cut t s' ∧ t.position = q ∧ s.ahead = .ok (t, s) ∧ s'.ahead = .ok (t, s') ∧
      s'.expect c = .error (.syntactic q fault) := by
  obtain ⟨q₀, fault₀, hstop⟩ := hs.stop_eq
  cases htokens : s.tokens with
  | nil =>
      simp only [expect, htokens, hstop] at h
      cases h
  | cons t rest =>
      simp only [expect, htokens] at h
      split at h
      · cases h
      · rename_i hsymbol
        cases h
        exact ⟨t, _, cut_first htokens, rfl, ahead_of_tokens htokens, rfl,
          by simp [expect, hsymbol]⟩

/-- The token ahead decides whether a stream closes an expression. -/
theorem Closes.of_ahead {s s' : Stream} {t : Token} (h : s.Closes)
    (hs : s.ahead = .ok (t, s)) (hs' : s'.ahead = .ok (t, s')) : s'.Closes := by
  obtain ⟨t', hahead, hplus, hquestion⟩ := h
  rw [hs] at hahead
  cases hahead
  exact ⟨t, hs', hplus, hquestion⟩

/-! ### The token at which a stream is refused -/

/-- Where `read` refuses a faulty stream of fewer than `bound` tokens, it does so at
one of them, and it refuses the stream that is cut off behind this token alike. -/
def Pinpoints {α : Type} (bound : Nat) (read : Stream → Except Stop α) : Prop :=
  ∀ ⦃s q fault⦄, s.Faulty → s.tokens.length < bound →
    read s = .error (.syntactic q fault) →
    ∃ t s', s.Cut t s' ∧ t.position = q ∧ read s' = .error (.syntactic q fault)

/-- All that the other parts of the parser need to know about the reader of nested
expressions, which are the words of `P`. -/
structure Exact (bound : Nat) (nested : Stream → Except Stop (Expr × Stream)) (P : Phrase) :
    Prop where
  sound : Sound nested P
  complete : Complete bound nested P
  closes : ∀ {s s' e}, s.tokens.length < bound → nested s = .ok (e, s') → s'.Closes
  pinpoints : Pinpoints bound nested

section Parts

variable {bound : Nat} {nested : Stream → Except Stop (Expr × Stream)} {P : Phrase}

/-- Reads a nested expression and the symbol `c` behind it. -/
def closed (nested : Stream → Except Stop (Expr × Stream)) (c : Symbol) (s : Stream) :
    Except Stop (Expr × Stream) := do
  let (e, m) ← nested s
  let m ← m.expect c
  .ok (e, m)

/-- Refused in the nested expression or where the symbol should be. -/
theorem closed_pinpoints (hn : Exact bound nested P) (c : Symbol) :
    Pinpoints bound (closed nested c) := by
  intro s q fault hs hbound h
  obtain hnested | ⟨⟨e, m⟩, hnested, h⟩ := bind_eq_error_iff.mp h
  · obtain ⟨t, s', hcut, hq, hagain⟩ := hn.pinpoints hs hbound hnested
    exact ⟨t, s', hcut, hq, by simp [closed, hagain]⟩
  · obtain ⟨w, hw, he⟩ := hn.sound hnested
    have hcloses := hn.closes hbound hnested
    obtain hexpect | ⟨_, _, h⟩ := bind_eq_error_iff.mp h
    · obtain ⟨t, m', hcut, hq, hahead, hahead', hagain⟩ :=
        expect_eq_syntactic (hs.of_spells hw) hexpect
      obtain ⟨s', hcut', hw'⟩ := hcut.of_spells hw
      have hbound' := Nat.lt_of_le_of_lt hcut'.length_le hbound
      have hnested' := hn.complete he hw' (hcloses.of_ahead hahead hahead') hbound'
      exact ⟨t, s', hcut', hq, by simp [closed, hnested', hagain]⟩
    · cases h

theorem closed_sound (hn : Exact bound nested P) {c : Symbol} {s m : Stream} {e : Expr}
    (h : closed nested c s = .ok (e, m)) : ∃ w, s.Spells (w ++ [c]) m ∧ P w e := by
  obtain ⟨⟨e', m₁⟩, hnested, h⟩ := bind_eq_ok_iff.mp h
  obtain ⟨m₂, hexpect, h⟩ := bind_eq_ok_iff.mp h
  cases h
  obtain ⟨w, hw, he⟩ := hn.sound hnested
  exact ⟨w, hw.trans (expect_eq_ok_iff.mp hexpect), he⟩

theorem closed_colon_complete (hn : Exact bound nested P) {w : List Symbol} {s m : Stream}
    {e : Expr} (he : P w e) (h : s.Spells (w ++ [.colon]) m) (hbound : s.tokens.length < bound) :
    closed nested .colon s = .ok (e, m) := by
  obtain ⟨m₁, hw, hcolon⟩ := h.of_append
  obtain ⟨t, _, hahead, ht, _⟩ := hcolon.of_cons
  have hnested := hn.complete he hw (closes_of_ahead hahead (.inr (.inl ht))) hbound
  simp [closed, hnested, expect_eq_ok_iff.mpr hcolon]

/-- What is refused behind a part that is read again is refused at the same token. -/
theorem Pinpoints.of_spells {α β : Type} {read : Stream → Except Stop α}
    {behind : Stream → Except Stop β} {w : List Symbol} (hbehind : Pinpoints bound behind)
    {s m : Stream} {q : Position} {fault : SyntaxFault} (hs : s.Faulty)
    (hbound : s.tokens.length < bound) (hw : s.Spells w m)
    (h : behind m = .error (.syntactic q fault))
    (hread : ∀ s' m', s'.Spells w m' → s'.tokens.length < bound →
      behind m' = .error (.syntactic q fault) → read s' = .error (.syntactic q fault)) :
    ∃ t s', s.Cut t s' ∧ t.position = q ∧ read s' = .error (.syntactic q fault) := by
  have hle := hw.length_le
  obtain ⟨t, m', hcut, hq, hagain⟩ := hbehind (hs.of_spells hw) (by omega) h
  obtain ⟨s', hcut', hw'⟩ := hcut.of_spells hw
  exact ⟨t, s', hcut', hq, hread s' m' hw' (Nat.lt_of_le_of_lt hcut'.length_le hbound) hagain⟩

/-- Reading an operand that begins with a parenthesis. -/
theorem operand_of_openParen {s m : Stream} (h : s.Spells [.openParen] m) :
    operand reader nested s = closed nested .closeParen m := by
  obtain ⟨t, m', hahead, ht, htake, hm⟩ := h.of_cons
  obtain rfl := hm.eq_of_nil
  simp [operand, closed, hahead, ht, htake]

theorem operand_pinpoints (hn : Exact bound nested P) :
    Pinpoints bound (operand reader nested) := by
  intro s q fault hs hbound h
  obtain ⟨t, rest, htokens, ht, hstep⟩ := ahead_bind_eq_syntactic hs h
  have hahead := ahead_of_tokens htokens
  have htake := expect_of_ahead hahead ht
  cases hsymbol : t.symbol with
  | endOfText => exact absurd hsymbol ht
  | bool b =>
      obtain ⟨m, htake⟩ := htake
      simp [hsymbol, hsymbol ▸ htake] at hstep
  | number v =>
      obtain ⟨m, htake⟩ := htake
      simp [hsymbol, hsymbol ▸ htake] at hstep
  | openParen =>
      obtain ⟨m, htake⟩ := htake
      rw [hsymbol] at htake
      have hopen := expect_eq_ok_iff.mp htake
      rw [operand_of_openParen hopen] at h
      refine (closed_pinpoints hn .closeParen).of_spells hs hbound hopen h
        fun s' m' hopen' _ h' => ?_
      rw [operand_of_openParen hopen', h']
  | plus =>
      simp only [hsymbol] at hstep
      cases hstep
      exact ⟨t, _, cut_first htokens, rfl, by simp [operand, ahead, hsymbol]⟩
  | question =>
      simp only [hsymbol] at hstep
      cases hstep
      exact ⟨t, _, cut_first htokens, rfl, by simp [operand, ahead, hsymbol]⟩
  | colon =>
      simp only [hsymbol] at hstep
      cases hstep
      exact ⟨t, _, cut_first htokens, rfl, by simp [operand, ahead, hsymbol]⟩
  | closeParen =>
      simp only [hsymbol] at hstep
      cases hstep
      exact ⟨t, _, cut_first htokens, rfl, by simp [operand, ahead, hsymbol]⟩

theorem summands_pinpoints (hn : Exact bound nested P) (k : Nat) (left : Expr) :
    Pinpoints bound (summands reader nested k left) := by
  induction k generalizing left with
  | zero =>
      intro s q fault hs hbound h
      cases h
  | succ k ih =>
      intro s q fault hs hbound h
      obtain ⟨t, rest, htokens, ht, h⟩ := ahead_bind_eq_syntactic hs h
      dsimp only at h
      split at h
      · rename_i hplus
        obtain ⟨m, htake⟩ := expect_of_ahead (ahead_of_tokens htokens) ht
        rw [hplus] at htake
        have hplus := expect_eq_ok_iff.mp htake
        have hlt := length_lt_of_expect htake
        simp only [reader_take, htake, ok_bind] at h
        obtain hright | ⟨⟨right, m₁⟩, hright, h⟩ := bind_eq_error_iff.mp h
        · refine (operand_pinpoints hn).of_spells hs hbound hplus hright fun s' m' hplus' _ h' => ?_
          obtain ⟨t', _, hahead', ht', htake', hm⟩ := hplus'.of_cons
          obtain rfl := hm.eq_of_nil
          simp [summands, hahead', ht', htake', h']
        · obtain ⟨w, hw, he⟩ := operand_sound hn.sound hright
          refine (ih _).of_spells hs hbound (hplus.trans hw) h fun s' m' hs' hbound' h' => ?_
          obtain ⟨m₀, hplus', hw'⟩ := hs'.of_append
          obtain ⟨t', _, hahead', ht', htake', hm⟩ := hplus'.of_cons
          obtain rfl := hm.eq_of_nil
          have hlt' := length_lt_of_expect htake'
          have hright' := operand_complete hn.complete he hw' (by omega)
          rw [summands_succ hahead' ht' htake' hright', h']
      · cases h

theorem sum_pinpoints (hn : Exact bound nested P) :
    Pinpoints bound (sum reader nested bound) := by
  intro s q fault hs hbound h
  obtain hleft | ⟨⟨left, m⟩, hleft, h⟩ := bind_eq_error_iff.mp h
  · obtain ⟨t, s', hcut, hq, hagain⟩ := operand_pinpoints hn hs hbound hleft
    exact ⟨t, s', hcut, hq, by simp [sum, hagain]⟩
  · obtain ⟨w, hw, he⟩ := operand_sound hn.sound hleft
    refine (summands_pinpoints hn bound left).of_spells hs hbound hw h
      fun s' m' hw' hbound' h' => ?_
    have hleft' := operand_complete hn.complete he hw' hbound'
    simp [sum, hleft', h']

end Parts

/-- Reads what stands behind a condition and its question mark. -/
def branches (nested : Stream → Except Stop (Expr × Stream)) (test : Expr) (s : Stream) :
    Except Stop (Expr × Stream) := do
  let (yes, m) ← closed nested .colon s
  let (no, m) ← nested m
  .ok (.cond test yes no, m)

theorem branches_pinpoints {bound : Nat} {nested : Stream → Except Stop (Expr × Stream)}
    {P : Phrase} (hn : Exact bound nested P) (test : Expr) :
    Pinpoints bound (branches nested test) := by
  intro s q fault hs hbound h
  obtain hyes | ⟨⟨yes, m⟩, hyes, h⟩ := bind_eq_error_iff.mp h
  · obtain ⟨t, s', hcut, hq, hagain⟩ := closed_pinpoints hn .colon hs hbound hyes
    exact ⟨t, s', hcut, hq, by simp [branches, hagain]⟩
  · obtain ⟨w, hw, he⟩ := closed_sound hn hyes
    obtain hno | ⟨_, _, h⟩ := bind_eq_error_iff.mp h
    · refine hn.pinpoints.of_spells hs hbound hw hno fun s' m' hw' hbound' h' => ?_
      simp [branches, closed_colon_complete hn he hw' hbound', h']
    · cases h

/-- Reading an expression that begins with a condition and a question mark. -/
theorem expression_of_question {bound n : Nat} {s m : Stream} {u : List Symbol} {test : Expr}
    (htest : IsSum (IsExpression n) u test) (h : s.Spells (u ++ [.question]) m)
    (hbound : s.tokens.length < bound) :
    expression reader bound (n + 1) s = branches (expression reader bound n) test m := by
  obtain ⟨m₁, hu, hquestion⟩ := h.of_append
  obtain ⟨t, m', hahead, ht, htake, hm⟩ := hquestion.of_cons
  obtain rfl := hm.eq_of_nil
  have hsum := sum_complete (expression_complete bound n)
    (expression_shrinks reader_sized bound n) htest hu hahead (by simp [ht]) hbound
  simp [expression, branches, closed, hsum, hahead, ht, htake]

theorem expression_pinpoints (bound n : Nat) :
    Pinpoints bound (expression reader bound n) := by
  induction n with
  | zero =>
      intro s q fault hs hbound h
      obtain ⟨t, rest, htokens, ht, h⟩ := ahead_bind_eq_syntactic hs h
      cases h
      exact ⟨t, _, cut_first htokens, rfl, by simp [expression, ahead]⟩
  | succ n ih =>
      have hn : Exact bound (expression reader bound n) (IsExpression n) :=
        ⟨expression_sound bound n, expression_complete bound n, expression_closes bound n, ih⟩
      intro s q fault hs hbound h
      have hexpression := h
      obtain htest | ⟨⟨test, m₁⟩, htest, h⟩ := bind_eq_error_iff.mp h
      · obtain ⟨t, s', hcut, hq, hagain⟩ := sum_pinpoints hn hs hbound htest
        exact ⟨t, s', hcut, hq, by simp [expression, hagain]⟩
      obtain ⟨u, hu, hsum⟩ := sum_sound hn.sound bound htest
      obtain ⟨t, rest, htokens, ht, h⟩ := ahead_bind_eq_syntactic (hs.of_spells hu) h
      dsimp only at h
      split at h
      · rename_i hquestion
        obtain ⟨m₂, htake⟩ := expect_of_ahead (ahead_of_tokens htokens) ht
        rw [hquestion] at htake
        have hquestion := hu.trans (expect_eq_ok_iff.mp htake)
        rw [expression_of_question hsum hquestion hbound] at hexpression
        refine (branches_pinpoints hn test).of_spells hs hbound hquestion hexpression
          fun s' m' hquestion' hbound' h' => ?_
        rw [expression_of_question hsum hquestion' hbound', h']
      · cases h

/-- A stream is refused at one of its tokens, and what stands behind this token is of
no account. -/
theorem program_pinpoints (bound : Nat) : Pinpoints bound (program reader bound) := by
  intro s q fault hs hbound h
  obtain hexpression | ⟨⟨e, m⟩, hexpression, h⟩ := bind_eq_error_iff.mp h
  · obtain ⟨t, s', hcut, hq, hagain⟩ := expression_pinpoints bound maxLevels hs hbound hexpression
    exact ⟨t, s', hcut, hq, by simp [program, hagain]⟩
  · obtain ⟨w, hw, he⟩ := expression_sound bound maxLevels hexpression
    have hcloses := expression_closes bound maxLevels hbound hexpression
    obtain ⟨t, rest, htokens, ht, h⟩ := ahead_bind_eq_syntactic (hs.of_spells hw) h
    simp only [ht, if_false] at h
    cases h
    obtain ⟨s', hcut', hw'⟩ := (cut_first htokens).of_spells hw
    have hbound' := Nat.lt_of_le_of_lt hcut'.length_le hbound
    have hexpression' := expression_complete bound maxLevels he hw'
      (hcloses.of_ahead (ahead_of_tokens htokens) rfl) (by omega)
    exact ⟨t, s', hcut', rfl, by simp [program, hexpression', ahead, ht]⟩

/-! ### Streams that are not refused -/

/-- A stream in which nothing is wrong before its end begins a sentence, though perhaps
one that is nested deeper than the parser allows. -/
theorem begins_of_program {bound : Nat} {s : Stream} (hs : s.Proper) (hends : s.Ends)
    (h : ∀ x, program reader bound s = .error x → ¬ x.BeforeEnd) : Begins s.spelling := by
  have hparser : Satisfies Stop.OfParser _ (program reader bound s) :=
    program_keeps reader_keeps_stop bound hends
  cases hrun : program reader bound s with
  | ok e =>
      exact ⟨[], e, maxLevels, by simpa using isExpression_of_program hs hrun⟩
  | error x =>
      cases x with
      | endOfInput =>
          obtain ⟨v, e, _, he⟩ := viable_of_program hs hrun
          exact ⟨v, e, maxLevels, he⟩
      | brokenOff why =>
          rw [hrun] at hparser
          exact hparser.elim
      | lexical q fault => exact absurd trivial (h _ hrun)
      | syntactic q fault =>
          obtain rfl : fault = .tooManyLevels .endOfText := not_not.mp (h _ hrun)
          have hdeepens := expression_deepens bound maxLevels s hends
          obtain hexpression | ⟨⟨e, m⟩, hexpression, hrest⟩ := bind_eq_error_iff.mp hrun
          · rw [hexpression] at hdeepens
            obtain ⟨v, e, _, he⟩ := expression_viable bound (maxLevels + 1) hs
              hdeepens.eq_endOfInput
            exact ⟨v, e, maxLevels + 1, he⟩
          · -- behind the expression the parser needs no level
            obtain ⟨t, ht⟩ := Ends.exists_ahead (hdeepens.of_ok hexpression)
            simp only [reader_ahead, ht, ok_bind] at hrest
            split at hrest <;> cases hrest

/-- A stream that begins a sentence and stays within the levels of the parser is not
refused before its end. -/
theorem program_of_begins {bound : Nat} {s : Stream} (hends : s.Ends)
    (hbound : s.tokens.length < bound) (hbegins : Begins s.spelling)
    (hlevels : Within maxLevels s.spelling) :
    (∃ e, program reader bound s = .ok e) ∨ program reader bound s = .error .endOfInput := by
  obtain ⟨k, hk⟩ := hbegins.exists_opens
  obtain ⟨v, e, he⟩ := hk.exists_isExpression hlevels
  have hparser : Satisfies Stop.OfParser _ (program reader bound s) :=
    program_keeps reader_keeps_stop bound hends
  cases hrun : program reader bound s with
  | ok e => exact .inl ⟨e, rfl⟩
  | error x =>
      rw [hrun] at hparser
      cases x with
      | endOfInput => exact .inr rfl
      | brokenOff why => exact hparser.elim
      | lexical q fault => exact hparser.elim
      | syntactic q fault => exact absurd he (not_isExpression_of_program hends hbound hrun v e)

/-- A stream that does so and is broken off at its end, as by a failure that passes for
one, is read, or it lacks input, or the failure is reported. -/
theorem program_brokenOff_of_begins {bound : Nat} {ts : List Token} {q : Position}
    {why : ReadFailure} (hbound : ts.length < bound) (hbegins : Begins (ts.map Token.symbol))
    (hlevels : Within maxLevels (ts.map Token.symbol)) :
    (∃ e, program reader bound ⟨ts, .brokenOff why, q⟩ = .ok e) ∨
    program reader bound ⟨ts, .brokenOff why, q⟩ = .error .endOfInput ∨
    program reader bound ⟨ts, .brokenOff why, q⟩ = .error (.brokenOff why) := by
  have hlikewise := @program_likewise (.brokenOff why) .endOfInput ⟨ts, .brokenOff why, q⟩
    ⟨ts, .endOfInput, q⟩ rfl rfl bound ⟨rfl, rfl, rfl⟩
  obtain ⟨e, he⟩ | hend := @program_of_begins bound ⟨ts, .endOfInput, q⟩ rfl hbound hbegins
    hlevels
  · rw [he] at hlikewise
    generalize program reader bound ⟨ts, .brokenOff why, q⟩ = x at hlikewise ⊢
    cases hlikewise with
    | onward h => exact .inl ⟨e, congrArg _ h⟩
  · rw [hend] at hlikewise
    generalize program reader bound ⟨ts, .brokenOff why, q⟩ = x at hlikewise ⊢
    cases hlikewise with
    | lacking => exact .inr (.inl rfl)
    | ended => exact .inr (.inr rfl)

/-- The same for a stream that breaks off: it is stopped by the break. -/
theorem program_broken_of_begins {bound : Nat} {ts : List Token} {q : Position}
    {fault : LexFault} (hproper : ∀ t ∈ ts, t.symbol ≠ .endOfText) (hbound : ts.length < bound)
    (hbegins : Begins (ts.map Token.symbol)) (hlevels : Within maxLevels (ts.map Token.symbol)) :
    program reader bound ⟨ts, .lexical q fault, q⟩ = .error (.lexical q fault) := by
  obtain ⟨x, hx, hwhole, _⟩ | ⟨_, hbroken⟩ :=
    @program_breakOff ts q q fault hproper bound
  · obtain ⟨e, he⟩ | hend := program_of_begins (s := ⟨ts, .endOfInput, q⟩) rfl hbound hbegins
      hlevels
    · rw [he] at hwhole
      cases hwhole
    · rw [hend] at hwhole
      cases hwhole
      exact hx.elim
  · exact hbroken

/-- A stream that breaks off behind its first token which does not continue a beginning
is refused at this token. -/
theorem program_broken_of_not_begins {bound : Nat} {us : List Token} {t : Token} {q : Position}
    {fault : LexFault} (hproper : ∀ t' ∈ us ++ [t], t'.symbol ≠ .endOfText)
    (hbound : us.length + 1 < bound) (hbegins : Begins (us.map Token.symbol))
    (hlevels : Within maxLevels (us.map Token.symbol))
    (hnot : ¬ Begins ((us ++ [t]).map Token.symbol)) :
    ∃ fault', program reader bound ⟨us ++ [t], .lexical q fault, q⟩ =
      .error (.syntactic t.position fault') := by
  obtain ⟨x, hx, hwhole, hbroken⟩ | ⟨hnone, _⟩ :=
    @program_breakOff (us ++ [t]) q q fault hproper bound
  · have hparser := program_keeps reader_keeps_stop bound
      (show Ends ⟨us ++ [t], .endOfInput, q⟩ from rfl)
    rw [hwhole] at hparser
    cases x with
    | endOfInput => exact hx.elim
    | brokenOff why => exact hx.elim
    | lexical q' fault' => exact hparser.elim
    | syntactic q' fault' =>
        have hfaulty : Faulty ⟨us ++ [t], .lexical q fault, q⟩ := ⟨hproper, q, fault, rfl⟩
        obtain ⟨t', s', ⟨us', rest, htokens, rfl⟩, rfl, hagain⟩ :=
          program_pinpoints bound hfaulty (by simpa using hbound) hbroken
        dsimp only at htokens hagain
        obtain rfl | ⟨rest, t'', rfl⟩ := rest.eq_nil_or_concat
        · obtain ⟨_, hlast⟩ := List.append_inj' htokens rfl
          cases hlast
          exact ⟨fault', hbroken⟩
        · -- cut off behind an earlier token it is a beginning, which is not refused
          have hus : us ++ [t] = us' ++ [t'] ++ rest ++ [t''] := by simpa using htokens
          have hpre : us' ++ [t'] <+: us := ⟨rest, (List.append_inj' hus rfl).1.symm⟩
          have hproper' : ∀ t₀ ∈ us' ++ [t'], t₀.symbol ≠ .endOfText :=
            fun t₀ ht₀ => hproper t₀ (List.mem_append_left _ (hpre.subset ht₀))
          have hle := hpre.length_le
          have hbegins' := hbegins.of_isPrefix (hpre.map Token.symbol)
          have hlevels' := hlevels.of_isPrefix (hpre.map Token.symbol)
          have hstop := @program_broken_of_begins bound (us' ++ [t']) q fault hproper'
            (by omega) hbegins' hlevels'
          rw [hstop] at hagain
          cases hagain
  · exact absurd (begins_of_program (s := ⟨us ++ [t], .endOfInput, q⟩) hproper rfl hnone) hnot

end Stream

theorem Follows.eq_of_syntactic {α β : Type} {own : Stop} {P : α → β → Prop} {q : Position}
    {fault : SyntaxFault} {y : Except Stop β} (hown : own ≠ .syntactic q fault)
    (h : Follows own P (.error (.syntactic q fault)) y) : y = .error (.syntactic q fault) := by
  cases h with
  | refused => rfl
  | broken => exact absurd rfl hown

/-- Errors are reported at the first token that is wrong, and in the order of the text.
A token that does not continue the beginning of a sentence is where a text is refused,
whatever follows it. If there is none, a fault of the characters is reported as it is,
and a text without one is an expression or lacks input, where a failure that passes for
the end of the text may be named. -/
theorem parse_at_first_offender [Conversions] (src : Source) {ts : List Token} {stop : Stop}
    {l : Lexer} (h : (Lexer.start src).Yields ts stop l)
    (hlevels : Within Parser.maxLevels (ts.map Token.symbol)) :
    (∀ us t rest, ts = us ++ t :: rest → Begins (us.map Token.symbol) →
      ¬ Begins ((us ++ [t]).map Token.symbol) →
      ∃ fault, parse src = .error (.syntactic t.position fault)) ∧
    (Begins (ts.map Token.symbol) →
      (∀ q fault, stop = .lexical q fault → parse src = .error (.lexical q fault)) ∧
      (stop = .endOfInput → (∃ e, parse src = .ok e) ∨ parse src = .error .endOfInput) ∧
      (∀ why, stop = .brokenOff why → (∃ e, parse src = .ok e) ∨
        parse src = .error .endOfInput ∨ parse src = .error (.brokenOff why))) := by
  have hproper := h.ne_endOfText rfl
  have hparse : parse src = Parser.program Stream.reader (ts.length + 1) ⟨ts, stop, l.position⟩ :=
    Lexer.parse_eq_program rfl h (Nat.lt_succ_self _)
  rw [hparse]
  refine ⟨?_, fun hbegins => ⟨?_, ?_, ?_⟩⟩
  · rintro us t rest rfl hbegins hnot
    -- the tokens up to this one are refused, so the whole text is refused as they are
    let own : Stop := .lexical l.position (.unreadable ⟨"", false⟩)
    have hpre : us ++ [t] <+: us ++ t :: rest := ⟨rest, by simp⟩
    have hproper' : ∀ t' ∈ us ++ [t], t'.symbol ≠ .endOfText :=
      fun t' ht' => hproper t' (hpre.subset ht')
    have hlevels' := hlevels.of_isPrefix ((List.prefix_append us _).map Token.symbol)
    have hbound : us.length + 1 < (us ++ t :: rest).length + 1 := by simp
    obtain ⟨fault, hbroken⟩ :=
      Stream.program_broken_of_not_begins hproper' hbound hbegins hlevels' hnot
    have hbreaks : Stream.BreaksOff own ⟨us ++ [t], own, l.position⟩
        ⟨us ++ t :: rest, stop, l.position⟩ := ⟨hproper', rfl, hpre⟩
    have hown : own.isEnd = false := rfl
    have hfollows := Stream.program_follows hown ((us ++ t :: rest).length + 1) hbreaks
    rw [hbroken] at hfollows
    exact ⟨fault, hfollows.eq_of_syntactic (by simp [own])⟩
  · rintro q fault rfl
    obtain ⟨hend, _⟩ | ⟨fault', hstop⟩ := h.stop_cases rfl
    · cases hend
    · cases hstop
      exact Stream.program_broken_of_begins hproper (Nat.lt_succ_self _) hbegins hlevels
  · rintro rfl
    exact Stream.program_of_begins rfl (Nat.lt_succ_self _) hbegins hlevels
  · rintro why rfl
    exact Stream.program_brokenOff_of_begins (Nat.lt_succ_self _) hbegins hlevels

/-- In `true+)@` the parenthesis is refused, though no token begins with `@`. -/
theorem parse_at_first_offender_paren :
    let src : Source := .ofBytes [0x74, 0x72, 0x75, 0x65, 0x2B, 0x29, 0x40]
    let us : List Token := [⟨.bool true, ⟨1, 1⟩⟩, ⟨.plus, ⟨1, 5⟩⟩]
    let t : Token := ⟨.closeParen, ⟨1, 6⟩⟩
    (∃ l, (Lexer.start src).Yields (us ++ [t]) (.lexical ⟨1, 7⟩ (.unexpectedCharacter '@')) l) ∧
      Within Parser.maxLevels ((us ++ [t]).map Token.symbol) ∧
      Begins (us.map Token.symbol) ∧ ¬ Begins ((us ++ [t]).map Token.symbol) ∧
      ∃ fault, parse src = .error (.syntactic ⟨1, 6⟩ fault) := by
  intro src us t
  let l₁ := (Lexer.start src).next.2
  have h₁ : (Lexer.start src).next.1 = .ok ⟨.bool true, ⟨1, 1⟩⟩ := by decide +kernel
  have h₂ : l₁.next.1 = .ok ⟨.plus, ⟨1, 5⟩⟩ := by decide +kernel
  have h₃ : l₁.next.2.next.1 = .ok t := by decide +kernel
  have h₄ : l₁.next.2.next.2.next.1 = .error (.lexical ⟨1, 7⟩ (.unexpectedCharacter '@')) := by
    decide +kernel
  have hyields : (Lexer.start src).Yields (us ++ [t]) _ _ :=
    .of_next h₁ (.of_next h₂ (.of_next h₃ (.of_next_error h₄)))
  have hlevels : Within Parser.maxLevels ((us ++ [t]).map Token.symbol) :=
    .of_length (by decide)
  have hbegins : Begins (us.map Token.symbol) :=
    (Opens.operand (.next (.operand (.bool true)))).begins
  have hnot : ¬ Begins ((us ++ [t]).map Token.symbol) := by
    intro h
    have hrun : Parser.program Stream.reader 4 ⟨us ++ [t], .endOfInput, ⟨1, 7⟩⟩ =
        .error (.syntactic ⟨1, 6⟩ (.unexpected .closeParen)) := by decide +kernel
    have hcases := Stream.program_of_begins (s := ⟨us ++ [t], .endOfInput, ⟨1, 7⟩⟩) rfl
      (show (us ++ [t]).length < 4 by decide) h hlevels
    simp [hrun] at hcases
  exact ⟨⟨_, hyields⟩, hlevels, hbegins, hnot,
    (parse_at_first_offender src hyields hlevels).1 us t [] rfl hbegins hnot⟩

end TwoSorted
