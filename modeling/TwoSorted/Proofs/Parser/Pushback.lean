import TwoSorted.Proofs.Parser.Requests
import TwoSorted.Proofs.Token.Calls

/-!
# The token put back

The parser looks ahead before it takes a symbol, and a lexer that looks ahead puts the token
back. So wherever the parser takes a symbol that it has seen, the token is held, and never
more than this one (`held_where_taken`). What a lexer would do if it were told to take
another symbol does not matter.

The sign of the end of the text is not put back. It is seen like a token, but it is not a
symbol that the parser takes. Each text is read by a lexer of its own, so nothing is held
over from a text that was read before.
-/

namespace TwoSorted

open Outcome

/-- How a lexer is called to answer the request. -/
def Request.call : Request → Lexer.Call
  | .ahead => .peek
  | .take _ => .next
  | .expect _ => .next

section

variable [Conversions]

namespace Lexer

/-- Reading the source, the parser makes the request of the lexer `l`. -/
def Asked (src : Source) (q : Request) (l : Lexer) : Prop :=
  Parser.Asks reader ((start src).cursor.rest.length + 1) (start src) q l

section Held

variable {l l' : Lexer} {t : Token} {c : Symbol}

theorem peek_of_ahead (h : l.ahead = .ok (t, l')) : l.peek = (.ok t, l') := by
  unfold ahead at h
  split at h
  · rename_i hpeek
    cases h
    exact hpeek
  · cases h

theorem next_of_expect (h : l.expect c = .ok l') : l.next.2 = l' := by
  unfold expect at h
  split at h
  · cases h
  · rename_i hnext
    split at h
    · cases h
      rw [hnext]
    · cases h

theorem held_next_le (h : l.held.length ≤ 1) : l.next.2.held.length ≤ 1 := by
  rw [held_next, List.length_tail]
  omega

/-- A look ahead holds back one token, unless there was one or there is none. -/
theorem held_peek_le (h : l.held.length ≤ 1) : l.peek.2.held.length ≤ 1 := by
  obtain hpeek | ⟨hheld, hpeek | ⟨t, hpeek⟩⟩ := l.peek_snd_cases <;> rw [hpeek]
  · exact h
  · exact held_next_le h
  · have hnext : l.next.2.held = [] := by rw [held_next, hheld, List.tail_nil]
    simp only [back, hnext, List.length_singleton, Nat.le_refl]

theorem held_perform_le (h : l.held.length ≤ 1) (q : Request) :
    (l.perform q.call).2.held.length ≤ 1 := by
  cases q with
  | ahead => exact held_peek_le h
  | take c => exact held_next_le h
  | expect c => exact held_next_le h

/-- A token seen ahead is the one that is held, unless it is only the sign of the end. -/
theorem held_of_peek (h : l.held.length ≤ 1) (hpeek : l.peek = (.ok t, l'))
    (ht : t.symbol ≠ .endOfText) : l'.held = [t] := by
  cases hheld : l.held with
  | cons u held =>
      rw [peek_of_held hheld] at hpeek
      cases hpeek
      rw [hheld, List.length_cons] at h
      have hnil : held = [] := List.length_eq_zero_iff.mp (by omega)
      rw [hheld, hnil]
  | nil =>
      obtain ⟨c, _, rfl⟩ | ⟨_, c, _, _, rfl, _⟩ := peek_cases hheld hpeek
      · rfl
      · exact absurd rfl ht

/-- To look ahead once more changes nothing. -/
theorem peek_of_peek (hpeek : l.peek = (.ok t, l')) : l'.peek = (.ok t, l') := by
  cases hheld : l.held with
  | cons u held =>
      rw [peek_of_held hheld] at hpeek
      cases hpeek
      exact peek_of_held hheld
  | nil =>
      obtain ⟨c, _, rfl⟩ | ⟨_, c, hscan, hend, rfl, rfl⟩ := peek_cases hheld hpeek
      · exact peek_of_held rfl
      · exact peek_of_scan_end (l := { l with cursor := c }) hheld (scan_of_end hscan hend) hend

end Held

/-- At most one token is held, and a symbol seen ahead is that of the token held. -/
theorem reader_sees :
    reader.Sees (fun l => l.held.length ≤ 1) fun c l => ∃ t, l.held = [t] ∧ t.symbol = c where
  ahead {l t l'} h hahead := by
    have hpeek := peek_of_ahead hahead
    refine ⟨?_, fun ht => ⟨t, held_of_peek h hpeek ht, rfl⟩⟩
    have hle := held_peek_le h
    rw [hpeek] at hle
    exact hle
  take {c l l'} h htake := by
    obtain ⟨t, hheld, _⟩ := h
    rw [← next_of_expect htake, held_next, hheld]
    exact Nat.zero_le 1
  expect {c l l'} h hexpect := by
    rw [← next_of_expect hexpect]
    exact held_next_le h

end Lexer

/-- A symbol is taken only where its token is held. Whatever the source, wherever the parser
makes a request, at most one token is held, then and after the call, and after a look ahead
another one changes nothing. Where the parser takes a symbol that it has seen, the token of
this symbol is held and is handed out. So the outcome does not depend on what is done where
some other token is held, or none. -/
theorem held_where_taken (src : Source) :
    (∀ q l, Lexer.Asked src q l →
      l.held.length ≤ 1 ∧ (l.perform q.call).2.held.length ≤ 1 ∧
      (∀ t l', l.peek = (.ok t, l') → l'.peek = (.ok t, l')) ∧
      ∀ c, q = .take c → ∃ t, l.held = [t] ∧ t.symbol = c ∧
        l.next = (.ok t, { l with held := [] }) ∧
        Lexer.reader.take c l = .ok { l with held := [] }) ∧
    ∀ r : Reader Lexer, r.ahead = Lexer.reader.ahead → r.expect = Lexer.reader.expect →
      (∀ t l, l.held = [t] → r.take t.symbol l = Lexer.reader.take t.symbol l) →
      Parser.program r ((Lexer.start src).cursor.rest.length + 1) (Lexer.start src) =
        parse src := by
  have hstart : (Lexer.start src).held.length ≤ 1 := Nat.zero_le 1
  constructor
  · intro q l hasked
    have hdue := Parser.due_of_asks Lexer.reader_sees hstart hasked
    have hle : l.held.length ≤ 1 := by
      cases q with
      | ahead => exact hdue
      | expect c => exact hdue
      | take c =>
          obtain ⟨t, hheld, _⟩ := hdue
          exact Nat.le_of_eq (by rw [hheld, List.length_singleton])
    refine ⟨hle, Lexer.held_perform_le hle q, fun _ _ => Lexer.peek_of_peek, ?_⟩
    rintro c rfl
    obtain ⟨t, hheld, rfl⟩ := hdue
    have hnext := Lexer.next_of_held hheld
    exact ⟨t, hheld, rfl, hnext, (Lexer.expect_of_next hnext _).trans (if_pos rfl)⟩
  · intro r hahead hexpect htake
    obtain hsame | ⟨q, l, hdue, hdiffer, _⟩ :=
      (Parser.program_depends Lexer.reader_sees _ hstart).request r
    · exact hsame
    · refine absurd ?_ hdiffer
      cases q with
      | ahead => exact congrFun hahead l
      | expect c => exact congrFun (congrFun hexpect c) l
      | take c =>
          obtain ⟨t, hheld, rfl⟩ := hdue
          exact htake t l hheld

/-- The reader that takes a symbol only if its token is held, and no other. -/
def Lexer.strictReader : Reader Lexer :=
  { reader with
    take := fun c l =>
      if l.held.map Token.symbol = [c] then l.expect c
      else .error (.syntactic l.position (.unexpected c)) }

end

/-- The text `true+`. The parser takes the plus sign where the lexer holds it, and lacks an
operand then. With the strict reader it comes to the same. -/
theorem held_where_taken_plus :
    (∃ l t, Lexer.Asked (.ofBytes [0x74, 0x72, 0x75, 0x65, 0x2B]) (.take .plus) l ∧
      l.held = [t] ∧ t.symbol = .plus ∧ l.next = (.ok t, { l with held := [] })) ∧
    Parser.program Lexer.strictReader 6
      (Lexer.start (.ofBytes [0x74, 0x72, 0x75, 0x65, 0x2B])) = .error .endOfInput := by
  let src := Source.ofBytes [0x74, 0x72, 0x75, 0x65, 0x2B]
  obtain ⟨hasked, hsame⟩ := held_where_taken src
  -- the lexer with `true` held, after it is taken, and with the plus sign held
  obtain ⟨l₁, l₂, l₃, htrue, htaken, hplus⟩ : ∃ l₁ l₂ l₃,
      (Lexer.start src).ahead = .ok (⟨.bool true, ⟨1, 1⟩⟩, l₁) ∧
      l₁.expect (.bool true) = .ok l₂ ∧ l₂.ahead = .ok (⟨.plus, ⟨1, 5⟩⟩, l₃) :=
    ⟨_, _, _, rfl, rfl, rfl⟩
  have hasks : Lexer.Asked src (.take .plus) l₃ := by
    intro x
    have hahead (l : Lexer) :
        (Lexer.reader.failingAt (.take .plus) l₃ x).ahead l = l.ahead := by
      simp [Reader.failingAt, Lexer.reader]
    have htake : (Lexer.reader.failingAt (.take .plus) l₃ x).take (.bool true) l₁ =
        l₁.expect (.bool true) := by
      simp [Reader.failingAt, Lexer.reader]
    have hfails : (Lexer.reader.failingAt (.take .plus) l₃ x).take .plus l₃ = .error x := by
      simp [Reader.failingAt]
    generalize Lexer.reader.failingAt (.take .plus) l₃ x = r at hahead htake hfails ⊢
    have hsum (nested : Lexer → Except Stop (Expr × Lexer)) (bound : Nat) :
        Parser.sum r nested (bound + 1) (Lexer.start src) = .error x := by
      simp only [Parser.sum, Parser.operand, Parser.summands, hahead, htrue, htake, htaken,
        hplus, hfails, ok_bind, error_bind, if_true]
    have hexpression (bound levels : Nat) :
        Parser.expression r (bound + 1) (levels + 1) (Lexer.start src) = .error x := by
      rw [Parser.expression, hsum, error_bind]
    exact congrArg (· >>= _) (hexpression _ 199)
  obtain ⟨_, _, _, htakes⟩ := hasked _ _ hasks
  obtain ⟨t, hheld, hsymbol, hnext, _⟩ := htakes _ rfl
  refine ⟨⟨l₃, t, hasks, hheld, hsymbol, hnext⟩, ?_⟩
  exact hsame Lexer.strictReader rfl rfl fun t l hheld =>
    if_pos (by rw [hheld, List.map_singleton])

end TwoSorted
