import TwoSorted.Parse
import TwoSorted.Proofs.Text.Pieces
import TwoSorted.Text.Blank

/-!
# Lines fed one by one

Lines are put together with a line feed behind each of them, and a line feed cuts a
text, so each line contributes its own pieces to the whole. Lines are unfinished if
the first one is not blank and every text that some of them begin with ends before
its expression does.
-/

namespace TwoSorted

/-- The lines with a line feed behind each. -/
def joined (lines : List (List UInt8)) : List UInt8 :=
  lines.flatMap (· ++ [0x0A])

theorem joined_append_singleton (lines : List (List UInt8)) (line : List UInt8) :
    joined (lines ++ [line]) = joined lines ++ line ++ [0x0A] := by
  simp [joined]

theorem joined_eq_nil_iff {lines : List (List UInt8)} : joined lines = [] ↔ lines = [] := by
  cases lines <;> simp [joined]

theorem pieces_joined (lines : List (List UInt8)) :
    pieces (joined lines) = lines.flatMap fun line => pieces line ++ [.char '\n'] := by
  induction lines with
  | nil => rfl
  | cons line lines ih =>
      have hjoined : joined (line :: lines) = line ++ 0x0A :: joined lines := by
        simp [joined]
      rw [hjoined, pieces_append_ascii (by decide), ih, List.flatMap_cons, List.append_assoc]
      rfl

/-- Lines are blank together if each of them is. -/
theorem isAllBlank_joined (lines : List (List UInt8)) :
    isAllBlank (pieces (joined lines)) = lines.all fun line => isAllBlank (pieces line) := by
  have hnewline : Piece.isBlank (.char '\n') = true := by decide
  rw [pieces_joined, isAllBlank, List.all_flatMap]
  simp [isAllBlank, hnewline]

/-- Trimming leaves something of a text that is not blank. -/
theorem trim_ne_nil {ps : List Piece} (h : isAllBlank ps = false) : trim ps ≠ [] := by
  have hany : (trim ps).any (fun p => !p.isBlank) = true := by
    rw [trim, trimBoth, List.any_reverse, List.any_dropWhile, List.all_reverse,
      List.not_all_eq_any_not, List.any_dropWhile, ← isAllBlank, h]
    rfl
  intro hnil
  rw [hnil] at hany
  cases hany

variable [Conversions]

/-- Lines that begin an expression which none of them ends. The first one is not
blank, and up to every line the text ends too early. -/
structure Unfinished (lines : List (List UInt8)) : Prop where
  begun : ∀ line ∈ lines.head?, isAllBlank (pieces line) = false
  incomplete : ∀ us vs, lines = us ++ vs →
    parse (.ofBytes (joined us)) = .error .endOfInput

namespace Unfinished

theorem nil : Unfinished [] where
  begun := by simp
  incomplete us vs h := by
    obtain ⟨rfl, rfl⟩ := List.append_eq_nil_iff.mp h.symm
    rfl

theorem of_append {us vs : List (List UInt8)} (h : Unfinished (us ++ vs)) :
    Unfinished us where
  begun line hline := by
    cases us with
    | nil => cases hline
    | cons first us => exact h.begun line hline
  incomplete us' vs' hus := h.incomplete us' (vs' ++ vs) (by rw [hus, List.append_assoc])

theorem not_isAllBlank {lines : List (List UInt8)} (h : Unfinished lines)
    (hne : lines ≠ []) (more : List (List UInt8)) :
    isAllBlank (pieces (joined (lines ++ more))) = false := by
  cases lines with
  | nil => exact absurd rfl hne
  | cons first lines =>
      rw [isAllBlank_joined, List.cons_append, List.all_cons, h.begun first rfl,
        Bool.false_and]

theorem append_singleton {lines : List (List UInt8)} {line : List UInt8}
    (h : Unfinished lines) (hblank : isAllBlank (pieces (joined (lines ++ [line]))) = false)
    (hparse : parse (.ofBytes (joined (lines ++ [line]))) = .error .endOfInput) :
    Unfinished (lines ++ [line]) where
  begun first hfirst := by
    cases lines with
    | nil =>
        cases hfirst
        rw [isAllBlank_joined] at hblank
        simpa using hblank
    | cons first' lines => exact h.begun first hfirst
  incomplete us vs hus := by
    -- either all of the lines are meant, or the last one is not among them
    rcases List.eq_nil_or_concat vs with rfl | ⟨vs, last, rfl⟩
    · rw [List.append_nil] at hus
      rw [← hus]
      exact hparse
    · rw [List.concat_eq_append, ← List.append_assoc] at hus
      exact h.incomplete us vs (List.append_inj_left' hus rfl)

end Unfinished

end TwoSorted
