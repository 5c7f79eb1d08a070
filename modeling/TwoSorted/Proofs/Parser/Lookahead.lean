import TwoSorted.Proofs.Parser.Language
import TwoSorted.Proofs.Token.Agreement

/-!
# The first byte is enough

The lexer decides on the first byte of the next character, taken for a character
itself. A lexer that sees the whole character may cut other tokens out of a text,
but what is read is the same: both read the same tree, or both lack input, or both
report a fault.

If either lexer comes to the end of the text without a fault, it has met characters
below `0x80` only, white space and comments apart, and then the other lexer gives
the same tokens. Otherwise there is a fault in the text for both, and behind whatever
tokens come before it, a text with a fault in it is neither read nor found to lack
input.
-/

namespace TwoSorted

open Lookahead Cursor

namespace Lexer

/-- The same lexer with another way to look ahead. -/
def seeing (l : Lexer) (look : Lookahead) : Lexer :=
  { l with look := look }

variable [Conversions]

/-- A lexer in front of a character from `0x80` on yields nothing but a fault. -/
theorem Yields.settled {l l' : Lexer} {ts : List Token} {stop : Stop}
    (h : l.Yields ts stop l') (hend : stop.isEnd = true) (hheld : l.held = [])
    (hfair : l.look.Fair l.cursor.rest) : Settled l.cursor.rest := by
  by_contra hsettled
  obtain ⟨fault, c, hscan⟩ := scan_of_unsettled l.ending hfair hsettled
  have hnext := next_of_scan hheld hscan
  cases h with
  | stopped hnext' =>
      rw [hnext] at hnext'
      cases hnext'
      cases hend
  | token hnext' _ =>
      rw [hnext] at hnext'
      cases hnext'

/-- The tokens of a text without a fault do not depend on how the lexer looks
ahead. -/
theorem Yields.seeing {l l' : Lexer} {ts : List Token} {stop : Stop}
    (h : l.Yields ts stop l') (hend : stop.isEnd = true) (look : Lookahead)
    (hheld : l.held = []) (hfair : l.cursor.SeenFairly l.look look) :
    (l.seeing look).Yields ts stop (l'.seeing look) := by
  induction h with
  | stopped hnext =>
      obtain ⟨c, hscan, _, rfl⟩ := scan_of_next hheld hnext
      exact .stopped (next_of_scan (l := Lexer.seeing _ look) hheld
        (scan_look_end hfair hscan hend))
  | token hnext hrest ih =>
      obtain ⟨c, hscan, hleads, rfl⟩ := scan_of_next hheld hnext
      have hfair' := hfair.of_leads hleads
      have hsettled := hrest.settled hend hheld hfair'.left
      exact .token (next_of_scan (l := Lexer.seeing _ look) hheld
        (scan_look hfair hscan hsettled)) (ih hend hheld hfair')

end Lexer

/-- Reading with a look at the first byte and with a look at the whole character come
to the same. -/
theorem parse_byte_whole [Conversions] (src : Source) :
    (∃ e, parse src = .ok e ∧ (Lexer.startWith whole src).parse = .ok e) ∨
    (parse src = .error .endOfInput ∧
      (Lexer.startWith whole src).parse = .error .endOfInput) ∨
    (∃ why, src.ending = .failure why ∧ parse src = .error (.brokenOff why) ∧
      (Lexer.startWith whole src).parse = .error (.brokenOff why)) ∨
    ∃ x y, parse src = .error x ∧ (Lexer.startWith whole src).parse = .error y ∧
      x.isEnd = false ∧ y.isEnd = false := by
  let l := Lexer.start src
  have hfair : l.cursor.SeenFairly l.look whole := ⟨byte_fair src.bytes, whole_fair _⟩
  obtain ⟨ts, stop, l₁, hyields⟩ := l.exists_yields
  obtain ⟨ts', stop', l₁', hyields'⟩ := (l.seeing whole).exists_yields
  change (∃ e, l.parse = .ok e ∧ (l.seeing whole).parse = .ok e) ∨
    (l.parse = .error .endOfInput ∧ (l.seeing whole).parse = .error .endOfInput) ∨
    (∃ why, l.ending = .failure why ∧ l.parse = .error (.brokenOff why) ∧
      (l.seeing whole).parse = .error (.brokenOff why)) ∨
    ∃ x y, l.parse = .error x ∧ (l.seeing whole).parse = .error y ∧
      x.isEnd = false ∧ y.isEnd = false
  cases hstop : stop.isEnd with
  | true =>
      have hsame := hyields.seeing hstop whole rfl hfair
      have hparse : (l.seeing whole).parse = l.parse := by
        rw [Lexer.parse_eq_program rfl hyields (Nat.lt_succ_self _),
          Lexer.parse_eq_program rfl hsame (Nat.lt_succ_self _)]
        rfl
      rw [hparse]
      rcases hresult : l.parse with (_ | why | _ | _) | e
      · exact .inr (.inl ⟨rfl, rfl⟩)
      · exact .inr (.inr (.inl ⟨why, Lexer.ending_of_parse_brokenOff rfl hresult, rfl, rfl⟩))
      · exact .inr (.inr (.inr ⟨_, _, rfl, rfl, rfl, rfl⟩))
      · exact .inr (.inr (.inr ⟨_, _, rfl, rfl, rfl, rfl⟩))
      · exact .inl ⟨e, rfl, rfl⟩
  | false =>
      have hstop' : stop'.isEnd = false := by
        rw [Bool.eq_false_iff]
        intro hend
        have hsame := hyields'.seeing hend l.look rfl ⟨hfair.right, hfair.left⟩
        obtain ⟨_, rfl⟩ := hyields.unique hsame
        rw [hend] at hstop
        cases hstop
      obtain ⟨x, hx, hne⟩ := Lexer.parse_of_fault rfl hyields hstop
      obtain ⟨y, hy, hne'⟩ := Lexer.parse_of_fault rfl hyields' hstop'
      exact .inr (.inr (.inr ⟨x, y, hx, hy, hne, hne'⟩))

-- the first token of `true×` depends on the way to look ahead, the outcome does not
example :
    let src := Source.ofBytes [0x74, 0x72, 0x75, 0x65, 0xC3, 0x97]
    (Lexer.start src).next.1 = .error (.lexical ⟨1, 5⟩ (.unknownWord "true×")) ∧
      (Lexer.startWith whole src).next.1 = .ok ⟨.bool true, ⟨1, 1⟩⟩ := by
  decide +kernel

end TwoSorted
