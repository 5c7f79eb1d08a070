import TwoSorted.Proofs.Text.Lines
import TwoSorted.Proofs.Token.Calls
import TwoSorted.Proofs.Token.Locality
import TwoSorted.Proofs.Token.LongestMatch

/-!
# Positions of tokens

Whatever is asked of a lexer, it has read some first part of its text, to the end of a
piece, and its position is the one behind that part. No fault on the way changes this. So
the position of a token is known from the bytes in front of it
(`Lexer.position_after`).
-/

namespace TwoSorted

namespace Cursor

/-- A cursor that has read on from the start of a text stands behind what it has read. -/
theorem Leads.exists_read {bytes : List UInt8} {c : Cursor}
    (h : Leads ⟨pieces bytes, .start⟩ c) :
    ∃ read left, bytes = read ++ left ∧ c = ⟨pieces left, .behind read⟩ := by
  obtain ⟨rest, q⟩ := c
  obtain ⟨ps, hrest, hposition⟩ := h
  obtain ⟨read, left, hbytes, rfl, rfl⟩ := cuts_of_pieces hrest
  refine ⟨read, left, hbytes, ?_⟩
  rw [← advance_start, ← hposition]

theorem Leads.eq_behind {read left : List UInt8} {q : Position}
    (h : Leads ⟨pieces (read ++ left), .start⟩ ⟨pieces left, q⟩) : q = .behind read := by
  obtain ⟨read', left', hbytes, hc⟩ := h.exists_read
  obtain ⟨hpieces, rfl⟩ := Cursor.mk.inj hc
  obtain rfl := pieces_injective hpieces
  rw [List.append_cancel_right hbytes]

end Cursor

namespace Lexer

open Lookahead

/-! ### A series of calls -/

/-- The lexer after some calls. -/
def after [Conversions] (l : Lexer) (calls : List Call) : Lexer :=
  calls.foldl (fun l call => (l.perform call).2) l

/-- The lexer `l'` has read on from `l` and looks ahead as `l` does. -/
structure Follows (l l' : Lexer) : Prop where
  look_eq : l'.look = l.look
  leads : l.cursor.Leads l'.cursor

namespace Follows

variable {l l' l'' : Lexer}

theorem refl (l : Lexer) : l.Follows l :=
  ⟨rfl, .refl _⟩

theorem trans (h : l.Follows l') (h' : l'.Follows l'') : l.Follows l'' :=
  ⟨h'.look_eq.trans h.look_eq, h.leads.trans h'.leads⟩

theorem back (h : l.Follows l') (t : Token) : l.Follows (l'.back t) :=
  ⟨h.look_eq, h.leads⟩

variable [Conversions]

theorem next (l : Lexer) : l.Follows l.next.2 := by
  cases hheld : l.held with
  | cons t held =>
      rw [next_of_held hheld]
      exact ⟨rfl, .refl _⟩
  | nil =>
      obtain ⟨c, _, hleads, hnext⟩ := scan_of_next hheld (Prod.mk.eta (p := l.next)).symm
      rw [hnext]
      exact ⟨rfl, hleads⟩

theorem peek (l : Lexer) : l.Follows l.peek.2 := by
  obtain hpeek | ⟨_, hpeek | ⟨t, hpeek⟩⟩ := l.peek_snd_cases <;> rw [hpeek]
  · exact refl l
  · exact next l
  · exact (next l).back t

theorem perform (l : Lexer) (call : Call) : l.Follows (l.perform call).2 := by
  cases call with
  | next => exact next l
  | peek => exact peek l
  | back t => exact (refl l).back t

theorem after (l : Lexer) (calls : List Call) : l.Follows (l.after calls) := by
  induction calls generalizing l with
  | nil => exact refl l
  | cons call calls ih => exact (perform l call).trans (ih _)

end Follows

/-! ### A token -/

theorem ne_newline_of_scanSymbol [Conversions] {b : UInt8} {c c' : Cursor} {s : Symbol}
    (h : scanSymbol byte (latin1 b) c = (.ok s, c')) : latin1 b ≠ '\n' := by
  intro hfeed
  rw [scanSymbol_gap (by rw [hfeed]; rfl)] at h
  cases h

/-- A token that a peek reads is one that `next` reads. -/
theorem next_of_peek_ok [Conversions] {l : Lexer} {t : Token} (hheld : l.held = [])
    (hpeek : l.peek.1 = .ok t) (ht : t.symbol ≠ .endOfText) : l.next.1 = .ok t := by
  obtain ⟨c, hscan, _⟩ | ⟨_, c, _, _, rfl, _⟩ := peek_cases hheld (Prod.ext hpeek rfl)
  · rw [next_of_scan hheld hscan]
  · exact absurd rfl ht

/-- Positions are exact. After any calls, and any faults among them, the lexer has read the
first part of its text and has the position behind it: a line more than there are line
feeds in it, and the number of characters in its last line, where a stray byte counts as
one. A token that is read then, by `next` or by a peek, lies behind the white space and
the comments ahead, and has the position of the first byte of its lexeme. -/
theorem position_after [Conversions] (src : Source) (calls : List Call) :
    ∃ read left, src.bytes = read ++ left ∧
      ((start src).after calls).cursor.rest = pieces left ∧
      ((start src).after calls).position =
        ⟨1 + read.count 0x0A, (pieces (lastLine read)).length⟩ ∧
      ∀ t, ((start src).after calls).held = [] →
        ((start src).after calls).next.1 = .ok t ∨
          ((start src).after calls).peek.1 = .ok t ∧ t.symbol ≠ .endOfText →
        ∃ skipped w rest, left = skipped ++ (w ++ rest) ∧ IsLongest layout skipped left ∧
          Lexeme (w ++ rest) w t.symbol.name ∧
          ((start src).after calls).next.2.cursor.rest = pieces rest ∧
          t.position = ⟨1 + (read ++ skipped).count 0x0A,
            1 + (pieces (lastLine (read ++ skipped))).length⟩ := by
  obtain ⟨hlook, hleads⟩ := Follows.after (start src) calls
  generalize (start src).after calls = l at hlook hleads
  obtain ⟨read, left, hbytes, hcursor⟩ := hleads.exists_read
  refine ⟨read, left, hbytes, by rw [hcursor], by rw [position, hcursor]; rfl, ?_⟩
  intro t hheld ht
  have hnext : l.next.1 = .ok t := ht.elim id fun h => next_of_peek_ok hheld h.1 h.2
  obtain ⟨ending, rfl⟩ : ∃ ending, l = before left ending (.behind read) := by
    obtain ⟨look, ending, cursor, held⟩ := l
    subst hlook hcursor hheld
    exact ⟨ending, rfl⟩
  obtain ⟨skipped, b, text, w, rest, q, q', hleft, hskipped, htext, hlexeme, hskip, hsymbol,
    hread, hposition⟩ := exists_of_next_before hnext
  have hall : Cursor.Leads ⟨pieces (read ++ skipped ++ b :: text), .start⟩
      ⟨pieces (b :: text), q⟩ := by
    rw [List.append_assoc, ← hleft, ← hbytes, ← hskip]
    exact hleads.trans (Cursor.skipLayout_leads ..)
  rw [htext] at hleft hlexeme
  refine ⟨skipped, w, rest, hleft, hskipped, hlexeme, by rw [hread]; rfl, ?_⟩
  rw [hposition, Position.after_of_ne (ne_newline_of_scanSymbol hsymbol), hall.eq_behind,
    Position.behind, Int.add_comm _ 1]

/-- The text is a comment with a stray byte, and then `é+` on the second line. The letter
is an unknown word, and the token behind it is read all the same. -/
theorem position_after_fault :
    ((start (.ofBytes [0x2F, 0x2F, 0xFF, 0x0A, 0xC3, 0xA9, 0x2B])).after [.next]).held = [] ∧
    ((start (.ofBytes [0x2F, 0x2F, 0xFF, 0x0A, 0xC3, 0xA9, 0x2B])).after [.next]).next.1 =
      .ok ⟨.plus, ⟨2, 2⟩⟩ ∧
    ∃ read left skipped w rest,
      [0x2F, 0x2F, 0xFF, 0x0A, 0xC3, 0xA9, 0x2B] = read ++ left ∧
      left = skipped ++ (w ++ rest) ∧ Lexeme (w ++ rest) w "+" ∧
      Position.mk 2 2 = ⟨1 + (read ++ skipped).count 0x0A,
        1 + (pieces (lastLine (read ++ skipped))).length⟩ := by
  have hnext : ((start (.ofBytes [0x2F, 0x2F, 0xFF, 0x0A, 0xC3, 0xA9, 0x2B])).after
      [.next]).next.1 = .ok ⟨.plus, ⟨2, 2⟩⟩ := by decide +kernel
  obtain ⟨read, left, hbytes, _, _, htoken⟩ :=
    position_after (.ofBytes [0x2F, 0x2F, 0xFF, 0x0A, 0xC3, 0xA9, 0x2B]) [.next]
  obtain ⟨skipped, w, rest, hleft, _, hlexeme, _, hposition⟩ := htoken _ rfl (.inl hnext)
  exact ⟨rfl, hnext, read, left, skipped, w, rest, hbytes, hleft, hlexeme, hposition⟩

end Lexer

end TwoSorted
