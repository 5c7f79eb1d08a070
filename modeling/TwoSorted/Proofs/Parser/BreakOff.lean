import TwoSorted.Proofs.Parser.Language
import TwoSorted.Verdict

/-!
# Texts that break off

A text breaks off if there is no token and no end behind its last token, but a
fault. Then the parser cannot see the end: every run comes to the break, or it is
refused before, at a token that is there. In the latter case it is refused in the
same way whatever else stands behind the tokens, so nothing in a fault depends on
how the text goes on.

The fault is that of some characters, or that reading fails. A text that fails to be
read after its last byte is compared with the same text when it is all there: what
is wrong with the latter before its end is wrong with the former, and in all other
cases the failure itself is reported, at the position behind the last byte. A failure
that has the end of the file among its causes is the exception: it is taken for the
end (`parse_of_failure_end`).
-/

namespace TwoSorted

open Outcome

/-- The symbol at which the fault is found. -/
def SyntaxFault.found : SyntaxFault → Symbol
  | tooManyLevels found => found
  | unexpected found => found
  | mismatch _ found => found
  | trailing found => found

/-- How the outcome of a run on a text that breaks off with `own` compares with that
of a run on a text which begins with the same tokens. Both come to results related by
`P`, or both are refused at the same token, or the first run comes to the break. -/
inductive Follows {α β : Type} (own : Stop) (P : α → β → Prop) :
    Except Stop α → Except Stop β → Prop
  | onward {a b} (h : P a b) : Follows own P (.ok a) (.ok b)
  | refused {q fault} (h : fault.found ≠ .endOfText) :
      Follows own P (.error (.syntactic q fault)) (.error (.syntactic q fault))
  | broken (y : Except Stop β) : Follows own P (.error own) y

theorem Follows.bind {α β γ δ : Type} {own : Stop} {P : α → β → Prop} {P' : γ → δ → Prop}
    {x : Except Stop α} {y : Except Stop β} {f : α → Except Stop γ}
    {g : β → Except Stop δ} (h : Follows own P x y)
    (honward : ∀ a b, P a b → Follows own P' (f a) (g b)) :
    Follows own P' (x >>= f) (y >>= g) := by
  cases h with
  | onward h => exact honward _ _ h
  | refused h => exact .refused h
  | broken y => exact .broken _

namespace Stream

open TwoSorted.Parser

/-- The stream `s` breaks off with `own`, and `s'` begins with its tokens. -/
structure BreaksOff (own : Stop) (s s' : Stream) : Prop where
  proper : s.Proper
  stop_eq : s.stop = own
  begins : s.tokens <+: s'.tokens

/-- Both runs have read the same tree, and what is left breaks off as before. -/
abbrev ReadsAlong (own : Stop) (x y : Except Stop (Expr × Stream)) : Prop :=
  Follows own (fun p p' => p.1 = p'.1 ∧ BreaksOff own p.2 p'.2) x y

section Runs

variable {own : Stop} {s s' : Stream}

theorem BreaksOff.cases (h : BreaksOff own s s') :
    s.tokens = [] ∨ ∃ t rest rest', s.tokens = t :: rest ∧ s'.tokens = t :: rest' ∧
      t.symbol ≠ .endOfText ∧
      BreaksOff own { s with tokens := rest } { s' with tokens := rest' } := by
  cases htokens : s.tokens with
  | nil => exact .inl rfl
  | cons t rest =>
      obtain ⟨more, hmore⟩ := h.begins
      rw [htokens, List.cons_append] at hmore
      have hmem : ∀ t' ∈ t :: rest, t'.symbol ≠ .endOfText := htokens ▸ h.proper
      obtain ⟨ht, hrest⟩ := List.forall_mem_cons.mp hmem
      exact .inr ⟨t, rest, rest ++ more, rfl, hmore.symm, ht, hrest, h.stop_eq,
        List.prefix_append rest more⟩

theorem ahead_follows (hown : own.isEnd = false) (h : BreaksOff own s s') :
    Follows own (fun x x' => x.1 = x'.1 ∧ x.1.symbol ≠ .endOfText ∧ BreaksOff own x.2 x'.2)
      s.ahead s'.ahead := by
  obtain hnil | ⟨t, rest, rest', htokens, htokens', ht, _⟩ := h.cases
  · rw [← h.stop_eq] at hown ⊢
    rw [ahead_of_stop hnil hown]
    exact .broken _
  · rw [ahead_of_tokens htokens, ahead_of_tokens htokens']
    exact .onward ⟨rfl, ht, h⟩

theorem expect_follows (c : Symbol) (h : BreaksOff own s s') :
    Follows own (BreaksOff own) (s.expect c) (s'.expect c) := by
  obtain hnil | ⟨t, rest, rest', htokens, htokens', ht, hrest⟩ := h.cases
  · simp only [expect, hnil, h.stop_eq]
    exact .broken _
  · simp only [expect, htokens, htokens']
    by_cases hc : t.symbol = c
    · simp only [hc, if_true]
      exact .onward hrest
    · simp only [hc, if_false]
      exact .refused ht

variable {nested : Stream → Except Stop (Expr × Stream)}

theorem operand_follows (hown : own.isEnd = false)
    (hn : ∀ s s', BreaksOff own s s' → ReadsAlong own (nested s) (nested s'))
    (h : BreaksOff own s s') :
    ReadsAlong own (operand reader nested s) (operand reader nested s') := by
  refine (ahead_follows hown h).bind ?_
  rintro ⟨t, s₁⟩ ⟨_, s₁'⟩ ⟨rfl, ht, h₁⟩
  dsimp only at ht h₁ ⊢
  cases hsymbol : t.symbol with
  | bool b => exact (expect_follows _ h₁).bind fun s₂ s₂' h₂ => .onward ⟨rfl, h₂⟩
  | number v => exact (expect_follows _ h₁).bind fun s₂ s₂' h₂ => .onward ⟨rfl, h₂⟩
  | openParen =>
      refine (expect_follows _ h₁).bind fun s₂ s₂' h₂ => ?_
      refine (hn s₂ s₂' h₂).bind ?_
      rintro ⟨e, s₃⟩ ⟨_, s₃'⟩ ⟨rfl, h₃⟩
      exact (expect_follows _ h₃).bind fun s₄ s₄' h₄ => .onward ⟨rfl, h₄⟩
  | endOfText => exact absurd hsymbol ht
  | plus => exact .refused (by simp [SyntaxFault.found])
  | question => exact .refused (by simp [SyntaxFault.found])
  | colon => exact .refused (by simp [SyntaxFault.found])
  | closeParen => exact .refused (by simp [SyntaxFault.found])

theorem summands_follows (hown : own.isEnd = false)
    (hn : ∀ s s', BreaksOff own s s' → ReadsAlong own (nested s) (nested s'))
    (bound : Nat) (left : Expr) (h : BreaksOff own s s') :
    ReadsAlong own (summands reader nested bound left s)
      (summands reader nested bound left s') := by
  induction bound generalizing left s s' with
  | zero => exact .onward ⟨rfl, h⟩
  | succ bound ih =>
      refine (ahead_follows hown h).bind ?_
      rintro ⟨t, s₁⟩ ⟨_, s₁'⟩ ⟨rfl, _, h₁⟩
      dsimp only at h₁ ⊢
      split
      · refine (expect_follows _ h₁).bind fun s₂ s₂' h₂ => ?_
        refine (operand_follows hown hn h₂).bind ?_
        rintro ⟨right, s₃⟩ ⟨_, s₃'⟩ ⟨rfl, h₃⟩
        exact ih _ h₃
      · exact .onward ⟨rfl, h₁⟩

theorem expression_follows (hown : own.isEnd = false) (bound levels : Nat)
    (s s' : Stream) (h : BreaksOff own s s') :
    ReadsAlong own (expression reader bound levels s)
      (expression reader bound levels s') := by
  induction levels generalizing s s' with
  | zero =>
      refine (ahead_follows hown h).bind ?_
      rintro ⟨t, s₁⟩ ⟨_, s₁'⟩ ⟨rfl, ht, _⟩
      exact .refused ht
  | succ levels ih =>
      have hsum : ReadsAlong own (sum reader (expression reader bound levels) bound s)
          (sum reader (expression reader bound levels) bound s') := by
        refine (operand_follows hown ih h).bind ?_
        rintro ⟨left, s₁⟩ ⟨_, s₁'⟩ ⟨rfl, h₁⟩
        exact summands_follows hown ih bound left h₁
      refine hsum.bind ?_
      rintro ⟨test, s₁⟩ ⟨_, s₁'⟩ ⟨rfl, h₁⟩
      refine (ahead_follows hown h₁).bind ?_
      rintro ⟨t, s₂⟩ ⟨_, s₂'⟩ ⟨rfl, _, h₂⟩
      dsimp only at h₂ ⊢
      split
      · refine (expect_follows _ h₂).bind fun s₃ s₃' h₃ => ?_
        refine (ih s₃ s₃' h₃).bind ?_
        rintro ⟨yes, s₄⟩ ⟨_, s₄'⟩ ⟨rfl, h₄⟩
        refine (expect_follows _ h₄).bind fun s₅ s₅' h₅ => ?_
        refine (ih s₅ s₅' h₅).bind ?_
        rintro ⟨no, s₆⟩ ⟨_, s₆'⟩ ⟨rfl, h₆⟩
        exact .onward ⟨rfl, h₆⟩
      · exact .onward ⟨rfl, h₂⟩

/-- A run on a stream that breaks off never comes to a result, since it would have to
see the end of the text. -/
theorem program_follows (hown : own.isEnd = false) (bound : Nat) (h : BreaksOff own s s') :
    Follows own (fun _ _ => False) (program reader bound s) (program reader bound s') := by
  refine (expression_follows hown bound maxLevels s s' h).bind ?_
  rintro ⟨e, s₁⟩ ⟨_, s₁'⟩ ⟨rfl, h₁⟩
  refine (ahead_follows hown h₁).bind ?_
  rintro ⟨t, s₂⟩ ⟨_, s₂'⟩ ⟨rfl, ht, _⟩
  dsimp only at ht ⊢
  simp only [ht, if_false]
  exact .refused ht

end Runs

end Stream

/-! ### Reading that fails -/

namespace Lexer

/-- The same lexer on a text that ends in another way. -/
def endingIn (l : Lexer) (ending : Ending) : Lexer :=
  { l with ending := ending }

variable [Conversions]

/-- How a text ends matters to a scan only if nothing is left to be read. -/
theorem scan_ending (look : Lookahead) (c : Cursor) :
    (∃ q, ∀ ending, scan look ending c = (.error (ending.stop q), ⟨[], q⟩)) ∨
    ∃ answer c', answer ≠ .error .endOfInput ∧
      ∀ ending, scan look ending c = (answer, c') := by
  rcases hc : Cursor.skipLayout look false c.position c.rest with ⟨rest, q⟩
  cases rest with
  | nil => exact .inl ⟨q, fun ending => by simp only [scan, hc]⟩
  | cons p rest =>
      right
      rcases hs : scanSymbol look p.read ⟨rest, q.after p.read⟩ with ⟨fault | s, c'⟩
      · exact ⟨.error (.lexical c'.position fault), c', by simp,
          fun ending => by simp only [scan, hc, hs]⟩
      · exact ⟨.ok ⟨s, q.after p.read⟩, c', by simp, fun ending => by simp only [scan, hc, hs]⟩

/-- A text that ends in another way yields the same tokens, and then the same fault
unless it is at its end. -/
theorem Yields.endingIn {l l' : Lexer} {ts : List Token} {stop : Stop}
    (h : l.Yields ts stop l') (hheld : l.held = []) (hending : l.ending = .endOfFile)
    (ending : Ending) :
    (l.endingIn ending).Yields ts
      (if stop = .endOfInput then ending.stop l'.position else stop)
      (l'.endingIn ending) := by
  induction h with
  | stopped hnext =>
      rename_i l stop l'
      obtain ⟨c, hscan, _, rfl⟩ := scan_of_next hheld hnext
      obtain ⟨q, hend⟩ | ⟨answer, c', hne, hsame⟩ := scan_ending l.look l.cursor
      · rw [hending, hend] at hscan
        cases hscan
        exact .stopped (next_of_scan (l := l.endingIn ending) hheld (hend ending))
      · rw [hsame] at hscan
        cases hscan
        have hstop : stop ≠ .endOfInput := fun heq => hne (heq ▸ rfl)
        rw [if_neg hstop]
        exact .stopped (next_of_scan (l := l.endingIn ending) hheld (hsame ending))
  | token hnext hrest ih =>
      rename_i l t l₁ ts stop l'
      obtain ⟨c, hscan, _, rfl⟩ := scan_of_next hheld hnext
      obtain ⟨q, hend⟩ | ⟨answer, c', hne, hsame⟩ := scan_ending l.look l.cursor
      · rw [hend] at hscan
        cases hscan
      · rw [hsame] at hscan
        cases hscan
        exact .token (next_of_scan (l := l.endingIn ending) hheld (hsame ending))
          (ih hheld hending)

end Lexer

/-- The stop is a fault that is found before the end of the text is. -/
def Stop.BeforeEnd : Stop → Prop
  | endOfInput => False
  | brokenOff _ => False
  | lexical _ _ => True
  | syntactic _ fault => fault ≠ .tooManyLevels .endOfText

theorem Stop.beforeEnd_of_found {q : Position} {fault : SyntaxFault}
    (h : fault.found ≠ .endOfText) : (Stop.syntactic q fault).BeforeEnd := by
  rintro rfl
  exact h rfl

/-- The stream of a text that is all there, and the stream of the same text when it
breaks off instead: the second one has the faults that the first one has before its
end, and else it is stopped by the break. -/
theorem Stream.program_breakOff {ts : List Token} {q₀ q : Position} {fault : LexFault}
    (hproper : ∀ t ∈ ts, t.symbol ≠ .endOfText) (bound : Nat) :
    let whole := Parser.program reader bound ⟨ts, .endOfInput, q₀⟩
    let broken := Parser.program reader bound ⟨ts, .lexical q fault, q⟩
    (∃ x, x.BeforeEnd ∧ whole = .error x ∧ broken = .error x) ∨
    ((∀ x, whole = .error x → ¬ x.BeforeEnd) ∧ broken = .error (.lexical q fault)) := by
  intro whole broken
  have hfollows : Follows (.lexical q fault) (fun _ _ => False) broken whole :=
    program_follows rfl bound ⟨hproper, rfl, List.prefix_rfl⟩
  have hagree : Agree True Eq (fun _ => True) whole broken :=
    (extension []).program_agree bound ⟨rfl, (List.append_nil ts).symm⟩
  have hparser : Satisfies Stop.OfParser (fun _ => Stop.endOfInput.OfParser) whole :=
    Parser.program_keeps reader_keeps_stop bound rfl
  generalize whole = x, broken = y at hfollows hagree hparser ⊢
  cases hfollows with
  | onward h => exact h.elim
  | refused h => exact .inl ⟨_, Stop.beforeEnd_of_found h, rfl, rfl⟩
  | broken x =>
      -- the run on the whole text has seen the end
      refine .inr ⟨?_, rfl⟩
      rintro x rfl hbefore
      cases hagree with
      | stopped => exact hparser
      | level => exact hbefore rfl
      | lacking => exact hbefore

/-- A text that fails to be read behind its last byte is stopped as the text that is
all there, if that is before its end, or else by the failure. -/
theorem parse_failure_cases [Conversions] (bytes : List UInt8) {why : ReadFailure}
    (hwhy : why.isEnd = false) :
    (∃ x, x.BeforeEnd ∧ parse (.ofBytes bytes) = .error x ∧
      parse ⟨bytes, .failure why⟩ = .error x) ∨
    ((∀ x, parse (.ofBytes bytes) = .error x → ¬ x.BeforeEnd) ∧
      parse ⟨bytes, .failure why⟩ = .error
        (.lexical (Cursor.advance Position.start (pieces bytes)) (.unreadable why))) := by
  obtain ⟨ts, stop, l, hyields⟩ := (Lexer.start (.ofBytes bytes)).exists_yields
  have hyields' := hyields.endingIn rfl rfl (.failure why)
  have hproper := hyields.ne_endOfText rfl
  have hwhole : parse (.ofBytes bytes) = Parser.program Stream.reader (ts.length + 1) _ :=
    Lexer.parse_eq_program rfl hyields (Nat.lt_succ_self _)
  have hbroken : parse ⟨bytes, .failure why⟩ =
      Parser.program Stream.reader (ts.length + 1) _ :=
    Lexer.parse_eq_program rfl hyields' (Nat.lt_succ_self _)
  obtain ⟨_, hstop⟩ | ⟨fault, rfl⟩ := hyields.stop_cases rfl
  · obtain rfl : stop = .endOfInput := hstop
    have hposition : l.position = Cursor.advance Position.start (pieces bytes) :=
      hyields.position_eq rfl rfl
    have hstop : (Ending.failure why).stop l.position = .lexical l.position (.unreadable why) := by
      simp [Ending.stop, hwhy]
    rw [if_pos rfl, hstop] at hbroken
    rw [← hposition, hwhole, hbroken]
    exact Stream.program_breakOff hproper (ts.length + 1)
  · -- the text has a fault, so how it ends is never found out
    rw [if_neg (by simp)] at hbroken
    have hfollows : Follows (.lexical l.position fault) (fun _ _ => False)
        (parse (.ofBytes bytes)) (parse (.ofBytes bytes)) := by
      rw [hwhole]
      exact Stream.program_follows rfl (ts.length + 1) ⟨hproper, rfl, List.prefix_rfl⟩
    have hsame : parse ⟨bytes, .failure why⟩ = parse (.ofBytes bytes) :=
      hbroken.trans hwhole.symm
    rw [hsame]
    generalize parse (.ofBytes bytes) = x at hfollows ⊢
    cases hfollows with
    | onward h => exact h.elim
    | refused h => exact .inl ⟨_, Stop.beforeEnd_of_found h, rfl, rfl⟩
    | broken => exact .inl ⟨.lexical l.position fault, trivial, rfl, rfl⟩

/-! ### Incomplete texts -/

/-- A text is taken to be incomplete exactly if it is stopped at its end. -/
theorem Stop.Honest.isIncomplete {x : Stop} (h : x.Honest) (file : String) :
    (Failure.ofStop file x).isIncomplete = x.isEnd := by
  cases x with
  | endOfInput => rfl
  | brokenOff why => exact h
  | lexical q fault => exact h
  | syntactic q fault => rfl

theorem Stop.BeforeEnd.isEnd_eq {x : Stop} (h : x.BeforeEnd) : x.isEnd = false := by
  cases x with
  | endOfInput => exact h.elim
  | brokenOff why => exact h.elim
  | lexical q fault => rfl
  | syntactic q fault => rfl

/-- A text that is all there is incomplete only if it lacks input. -/
theorem isIncomplete_of_parse [Conversions] {bytes : List UInt8} {x : Stop}
    (h : parse (.ofBytes bytes) = .error x) (hx : x ≠ .endOfInput) (file : String) :
    (Failure.ofStop file x).isIncomplete = false := by
  rw [(honest_of_parse h).isIncomplete, isEnd_of_parse h hx]

/-- A failure to read on behind the last byte of a text is never taken for its end,
unless that is among its causes. What is wrong with the text before its end is reported
as if it were all there, and otherwise the failure is, at the position behind the last
byte. -/
theorem parse_of_failure [Conversions] (bytes : List UInt8) (why : ReadFailure)
    (hwhy : why.isEnd = false) :
    ∃ x, parse ⟨bytes, .failure why⟩ = .error x ∧
      (∀ file, (Failure.ofStop file x).isIncomplete = false) ∧
      (∀ y, parse (.ofBytes bytes) = .error y → y.BeforeEnd → x = y) ∧
      ((∀ y, parse (.ofBytes bytes) = .error y → ¬ y.BeforeEnd) →
        x = .lexical (Cursor.advance Position.start (pieces bytes)) (.unreadable why)) := by
  obtain ⟨x, hbefore, hwhole, hbroken⟩ | ⟨hnone, hbroken⟩ := parse_failure_cases bytes hwhy
  · refine ⟨x, hbroken, fun file => ?_, fun y hy _ => ?_,
      fun hnone => absurd hbefore (hnone x hwhole)⟩
    · rw [(honest_of_parse hbroken).isIncomplete, hbefore.isEnd_eq]
    · rw [hwhole] at hy
      exact Except.error.inj hy
  · exact ⟨_, hbroken, fun _ => hwhy, fun y hy hbefore => absurd hbefore (hnone y hy),
      fun _ => rfl⟩

/-- With `true` the text could be whole, so the failure is reported; `true)` is no
program, whatever follows. -/
theorem parse_of_failure_gone :
    (∃ x, parse ⟨[0x74, 0x72, 0x75, 0x65], .failure ⟨"gone", false⟩⟩ = .error x ∧
      (Failure.ofStop "r" x).isIncomplete = false ∧
      x = .lexical ⟨1, 4⟩ (.unreadable ⟨"gone", false⟩)) ∧
    ∃ x, parse ⟨[0x74, 0x72, 0x75, 0x65, 0x29], .failure ⟨"gone", false⟩⟩ = .error x ∧
      (Failure.ofStop "r" x).isIncomplete = false ∧
      x = .syntactic ⟨1, 5⟩ (.trailing .closeParen) := by
  obtain ⟨x, hx, hincomplete, _, hfailure⟩ :=
    parse_of_failure [0x74, 0x72, 0x75, 0x65] ⟨"gone", false⟩ rfl
  obtain ⟨y, hy, hincomplete', hsame, _⟩ :=
    parse_of_failure [0x74, 0x72, 0x75, 0x65, 0x29] ⟨"gone", false⟩ rfl
  refine ⟨⟨x, hx, hincomplete _, hfailure fun y hwhole => ?_⟩,
    y, hy, hincomplete' _, hsame _ rfl (by simp [Stop.BeforeEnd])⟩
  cases hwhole

/-- A failure that has the end of the file among its causes is taken for the end. So `1`
is read, though reading it fails, and `1 +` and `(1` are said to be incomplete. -/
theorem parse_of_failure_end :
    parse ⟨[0x31], .failure ⟨"lost: EOF", true⟩⟩ = .ok (.number ⟨0x3FF0000000000000⟩) ∧
    parseAs "r" ⟨[0x31, 0x20, 0x2B], .failure ⟨"lost: EOF", true⟩⟩ = .error .incomplete ∧
    parseAs "r" ⟨[0x28, 0x31], .failure ⟨"lost: EOF", true⟩⟩ =
      .error (.brokenOff ⟨"lost: EOF", true⟩) ∧
    (Failure.brokenOff ⟨"lost: EOF", true⟩).isIncomplete = true ∧
    ¬ ∀ bytes why, ∃ x, parse ⟨bytes, .failure why⟩ = .error x ∧
      ∀ file, (Failure.ofStop file x).isIncomplete = false := by
  have hone : parse ⟨[0x31], .failure ⟨"lost: EOF", true⟩⟩ =
      .ok (.number ⟨0x3FF0000000000000⟩) := by decide +kernel
  refine ⟨hone, by decide +kernel, by decide +kernel, rfl, fun hall => ?_⟩
  obtain ⟨x, hx, _⟩ := hall [0x31] ⟨"lost: EOF", true⟩
  rw [hone] at hx
  cases hx

end TwoSorted
