import Mathlib.Data.List.DropRight
import TwoSorted.Proofs.Text.Bytes
import TwoSorted.Token.Cursor

/-!
# Lines of a text

A position can be read off the bytes in front of it (`Position.behind`): its line is the
number of line feeds there and one more, and its column is the number of pieces of the last
line. To count these pieces it does not matter what comes before that line, or after the
position, as long as no piece is torn (`cuts_of_pieces`).
-/

namespace TwoSorted

/-! ### Texts cut between pieces -/

/-- Nothing is lost when a text is cut up. -/
theorem join_pieces (bytes : List UInt8) : Piece.join (pieces bytes) = bytes := by
  induction bytes using pieces_induction with
  | nil => rfl
  | narrow a rest ha ih =>
      rw [pieces_cons_narrow ha, Piece.join, List.flatMap_cons, bytes_char_latin1 ha,
        ← Piece.join, ih, List.singleton_append]
  | wide p rest _ hpieces ih =>
      rw [hpieces, Piece.join, List.flatMap_cons, ← Piece.join, ih]

theorem pieces_injective : Function.Injective pieces := by
  intro bytes bytes' h
  rw [← join_pieces bytes, h, join_pieces]

/-- A byte that is stray in a text is so in what the text begins with. -/
theorem pieces_stray_of_append {x : UInt8} (hx : ¬ x < 0x80) {a b : List UInt8}
    (h : pieces (x :: (a ++ b)) = .stray x :: pieces (a ++ b)) :
    pieces (x :: a) = .stray x :: pieces a := by
  cases a with
  | nil => rw [pieces.eq_def]; simp [hx]
  | cons y a =>
      rw [pieces.eq_def] at h ⊢
      simp only [List.cons_append, hx, if_false] at h ⊢
      -- up to three more bytes decide it, and they are the same in both texts
      split at h
      · cases h
      · cases a with
        | nil => rfl
        | cons z a =>
            simp only [List.cons_append] at h ⊢
            split at h
            · cases h
            · cases a with
              | nil => rfl
              | cons w a =>
                  simp only [List.cons_append] at h ⊢
                  split at h
                  · cases h
                  · rfl

section Cut

variable {bytes rest u : List UInt8} {p : Piece} {ps qs : List Piece}

/-- The text can be cut where its pieces are cut into `ps` and `qs`. -/
def Cuts (bytes : List UInt8) (ps qs : List Piece) : Prop :=
  ∃ a b, bytes = a ++ b ∧ pieces a = ps ∧ pieces b = qs

theorem Cuts.nil (h : [] = ps ++ qs) : Cuts [] ps qs := by
  obtain ⟨rfl, rfl⟩ := List.append_eq_nil_iff.mp h.symm
  exact ⟨[], [], rfl, rfl, rfl⟩

theorem Cuts.cons (hu : ∀ a b, rest = a ++ b → pieces (u ++ a) = p :: pieces a)
    (ih : ∀ ps, pieces rest = ps ++ qs → Cuts rest ps qs) (h : p :: pieces rest = ps ++ qs) :
    Cuts (u ++ rest) ps qs := by
  cases ps with
  | nil =>
      refine ⟨[], u ++ rest, rfl, rfl, ?_⟩
      rw [hu rest [] (List.append_nil rest).symm]
      exact h
  | cons p' ps =>
      obtain ⟨rfl, hps⟩ := List.cons.inj h
      obtain ⟨a, b, rfl, rfl, hb⟩ := ih ps hps
      exact ⟨u ++ a, b, (List.append_assoc u a b).symm, hu a b rfl, hb⟩

/-- Where the pieces of a text are cut in two, so is the text. -/
theorem cuts_of_pieces (h : pieces bytes = ps ++ qs) : Cuts bytes ps qs := by
  have hstray {x : UInt8} {rest : List UInt8} {ps : List Piece} (hx : ¬ x < 0x80)
      (hpieces : pieces (x :: rest) = .stray x :: pieces rest)
      (ih : ∀ ps, pieces rest = ps ++ qs → Cuts rest ps qs)
      (h : .stray x :: pieces rest = ps ++ qs) : Cuts (x :: rest) ps qs := by
    refine Cuts.cons (u := [x]) (fun a b hrest => ?_) ih h
    subst hrest
    exact pieces_stray_of_append hx hpieces
  fun_induction pieces bytes generalizing ps with
  | case1 => exact .nil h
  | case2 x rest hx ih =>
      exact Cuts.cons (u := [x]) (fun a b _ => pieces_cons_narrow hx a) (fun _ => ih) h
  | case3 x hx =>
      exact hstray hx (by rw [pieces.eq_def]; simp [hx]) (fun _ => .nil) h
  | case4 x hx y rest ch hpair ih =>
      refine Cuts.cons (u := [x, y]) (fun a b _ => ?_) (fun _ => ih) h
      rw [pieces.eq_def]
      simp [hx, hpair]
  | case5 x hx y hpair ih =>
      exact hstray hx (by rw [pieces.eq_def]; simp [hx, hpair]) (fun _ => ih) h
  | case6 x hx y hpair z rest ch htriple ih =>
      refine Cuts.cons (u := [x, y, z]) (fun a b _ => ?_) (fun _ => ih) h
      rw [pieces.eq_def]
      simp [hx, hpair, htriple]
  | case7 x hx y hpair z htriple ih =>
      exact hstray hx (by rw [pieces.eq_def]; simp [hx, hpair, htriple]) (fun _ => ih) h
  | case8 x hx y hpair z htriple w rest ch hquad ih =>
      refine Cuts.cons (u := [x, y, z, w]) (fun a b _ => ?_) (fun _ => ih) h
      rw [pieces.eq_def]
      simp [hx, hpair, htriple, hquad]
  | case9 x hx y hpair z htriple w rest hquad ih =>
      exact hstray hx (by rw [pieces.eq_def]; simp [hx, hpair, htriple, hquad]) (fun _ => ih) h

end Cut

/-! ### Lines -/

/-- The bytes behind the last line feed. -/
def lastLine (bytes : List UInt8) : List UInt8 :=
  bytes.rtakeWhile (· != 0x0A)

/-- The position of the last character of a text. -/
def Position.behind (bytes : List UInt8) : Position :=
  ⟨1 + bytes.count 0x0A, (pieces (lastLine bytes)).length⟩

theorem not_mem_lastLine (bytes : List UInt8) : 0x0A ∉ lastLine bytes := by
  intro h
  have hne := List.mem_rtakeWhile_imp h
  simp at hne

/-- A text is one line, or a line feed stands before the last one. -/
theorem lastLine_cases (bytes : List UInt8) :
    lastLine bytes = bytes ∨ ∃ earlier, bytes = earlier ++ 0x0A :: lastLine bytes := by
  induction bytes using List.reverseRecOn with
  | nil => exact .inl rfl
  | append_singleton bytes b ih =>
      rw [lastLine, List.rtakeWhile_concat, ← lastLine]
      split
      · obtain h | ⟨earlier, h⟩ := ih
        · exact .inl (by rw [h])
        · refine .inr ⟨earlier, ?_⟩
          nth_rewrite 1 [h]
          simp
      · rename_i hb
        exact .inr ⟨bytes, by simpa using hb⟩

theorem latin1_ne_newline {a : UInt8} (h : a ≠ 0x0A) : latin1 a ≠ '\n' := by
  intro heq
  refine h (UInt8.toNat_inj.mp ?_)
  rw [← toNat_latin1, heq]
  rfl

theorem Piece.Wide.read_ne_newline {p : Piece} (h : p.Wide) : p.read ≠ '\n' := by
  intro heq
  exact absurd h.le_read (by rw [heq]; decide)

theorem Piece.Wide.not_mem_bytes {p : Piece} (h : p.Wide) : 0x0A ∉ p.bytes :=
  fun hmem => absurd (h.le_of_mem _ hmem) (by decide)

namespace Cursor

/-- Every line feed counts as a line. -/
theorem line_advance (q : Position) (bytes : List UInt8) :
    (advance q (pieces bytes)).line = q.line + bytes.count 0x0A := by
  induction bytes using pieces_induction generalizing q with
  | nil => simp
  | narrow a rest ha ih =>
      rw [pieces_cons_narrow ha, advance_cons, ih, Piece.read_char]
      by_cases hfeed : a = 0x0A
      · subst hfeed
        rw [List.count_cons_self]
        change q.line + 1 + _ = _
        push_cast
        omega
      · rw [Position.after_of_ne (latin1_ne_newline hfeed), List.count_cons_of_ne hfeed]
  | wide p rest hp hpieces ih =>
      rw [hpieces, advance_cons, ih, Position.after_of_ne hp.read_ne_newline,
        List.count_append, List.count_eq_zero_of_not_mem hp.not_mem_bytes, Nat.zero_add]

/-- Within a line every piece counts as a column. -/
theorem column_advance (q : Position) {bytes : List UInt8} (h : 0x0A ∉ bytes) :
    (advance q (pieces bytes)).column = q.column + (pieces bytes).length := by
  induction bytes using pieces_induction generalizing q with
  | nil => simp
  | narrow a rest ha ih =>
      obtain ⟨hfeed, hrest⟩ := List.ne_and_not_mem_of_not_mem_cons h
      rw [pieces_cons_narrow ha, advance_cons, ih _ hrest, Piece.read_char,
        Position.after_of_ne (latin1_ne_newline hfeed.symm), List.length_cons]
      push_cast
      omega
  | wide p rest hp hpieces ih =>
      have hrest : 0x0A ∉ rest := fun hmem => h (List.mem_append_right _ hmem)
      rw [hpieces, advance_cons, ih _ hrest, Position.after_of_ne hp.read_ne_newline,
        List.length_cons]
      push_cast
      omega

/-- Whoever has read a text from its start is behind it. -/
theorem advance_start (bytes : List UInt8) :
    advance .start (pieces bytes) = .behind bytes := by
  have hline := line_advance .start bytes
  have hcolumn : (advance .start (pieces bytes)).column = (pieces (lastLine bytes)).length := by
    obtain h | ⟨earlier, h⟩ := lastLine_cases bytes
    · have hfeed := not_mem_lastLine bytes
      rw [h] at hfeed ⊢
      rw [column_advance _ hfeed]
      exact Int.zero_add _
    · have hcut := pieces_append_ascii (x := 0x0A) (by decide) earlier (lastLine bytes)
      rw [← h] at hcut
      rw [hcut, advance_append, advance_cons, column_advance _ (not_mem_lastLine bytes)]
      exact Int.zero_add _
  generalize advance .start (pieces bytes) = q at hline hcolumn
  obtain ⟨line, column⟩ := q
  subst hline hcolumn
  rfl

end Cursor

end TwoSorted
