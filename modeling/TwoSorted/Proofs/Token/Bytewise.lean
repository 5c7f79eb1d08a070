import TwoSorted.Proofs.Token.Agreement
import TwoSorted.Proofs.Token.Lexemes

/-!
# Reading byte by byte

The lexer reads pieces and looks at the first byte of each. What it reads of a text can
be said of the bytes: a run of characters below `0x80` is a run of their bytes, and the
pieces behind it are those of the bytes behind it. White space and comments are skipped
as far as they go (`skips`), which is to say that what is skipped is the longest prefix
of that kind.
-/

namespace TwoSorted

open Computability

/-! ### What is seen of the bytes -/

/-- The first byte of a text is what is seen of its first piece. -/
theorem exists_pieces_cons (b : UInt8) (t : List UInt8) :
    ∃ p ps, pieces (b :: t) = p :: ps ∧ Lookahead.byte p = latin1 b := by
  generalize hbytes : b :: t = bytes
  induction bytes using pieces_induction with
  | nil => cases hbytes
  | narrow a rest ha =>
      cases hbytes
      exact ⟨_, _, pieces_cons_narrow ha t, Lookahead.byte_char (toNat_latin1_lt ha)⟩
  | wide p rest hp hpieces =>
      refine ⟨p, _, hpieces, ?_⟩
      obtain ⟨b', more, hp'⟩ := List.exists_cons_of_ne_nil p.bytes_ne_nil
      rw [hp'] at hbytes
      cases hbytes
      rw [Lookahead.byte, Piece.lead, hp']
      rfl

theorem ahead_pieces_cons (b : UInt8) (t : List UInt8) :
    Lookahead.byte.ahead (pieces (b :: t)) = latin1 b := by
  obtain ⟨p, ps, hpieces, hp⟩ := exists_pieces_cons b t
  rw [hpieces, Lookahead.ahead_cons, hp]

theorem exists_of_ahead {t : List UInt8} {c : Char}
    (h : Lookahead.byte.ahead (pieces t) = c) (hc : c ≠ '\x00') :
    ∃ b t', t = b :: t' ∧ latin1 b = c := by
  cases t with
  | nil => exact absurd h.symm hc
  | cons b t =>
      rw [ahead_pieces_cons] at h
      exact ⟨b, t, rfl, h⟩

theorem PastByte.ahead {keep : Char → Bool} {t : List UInt8} (h : PastByte keep t)
    (hend : keep '\x00' = false) : keep (Lookahead.byte.ahead (pieces t)) = false := by
  cases t with
  | nil => exact hend
  | cons b t =>
      rw [ahead_pieces_cons]
      exact h b t rfl

theorem Lookahead.Narrow.lt {keep : Char → Bool} (h : Narrow keep) {b : UInt8}
    (hb : keep (latin1 b) = true) : b < 0x80 := by
  rw [UInt8.lt_iff_toNat_lt, ← toNat_latin1]
  exact h _ hb

/-- No byte from `0x80` on belongs to a class of characters below `0x80`. -/
theorem Lookahead.Narrow.past {keep : Char → Bool} (h : Narrow keep) {b : UInt8}
    (hb : 0x80 ≤ b) {t : List UInt8} : PastByte keep (b :: t) :=
  past_cons (Bool.eq_false_iff.mpr fun hkeep => UInt8.not_lt.mpr hb (h.lt hkeep))

namespace Cursor

open Lookahead

/-- A run of bytes is read as the characters that they stand for. -/
theorem run_pieces {keep : Char → Bool} (h : ∀ b, keep (latin1 b) = true → b < 0x80)
    (t : List UInt8) :
    ((pieces t).takeWhile fun p => keep (byte p)).map Piece.read =
        (t.takeWhile fun b => keep (latin1 b)).map latin1 ∧
      ((pieces t).dropWhile fun p => keep (byte p)) =
        pieces (t.dropWhile fun b => keep (latin1 b)) := by
  induction t with
  | nil => exact ⟨rfl, rfl⟩
  | cons b t ih =>
      cases hkeep : keep (latin1 b) with
      | true =>
          have hlook := byte_char (toNat_latin1_lt (h b hkeep))
          simp [pieces_cons_narrow (h b hkeep), hlook, hkeep, ih]
      | false =>
          obtain ⟨p, ps, hpieces, hp⟩ := exists_pieces_cons b t
          simp [hpieces, hp, hkeep]

/-- A run is read to its end. -/
theorem span_pieces {keep keep' : Char → Bool} (h : Narrow keep')
    (hkeep : ∀ b, keep (latin1 b) = keep' (latin1 b)) (t : List UInt8) (q : Position) :
    ∃ run rest q', t = run ++ rest ∧ (∀ b ∈ run, keep' (latin1 b) = true) ∧ PastByte keep' rest ∧
      span byte keep ⟨pieces t, q⟩ = (run.map latin1, ⟨pieces rest, q'⟩) := by
  obtain ⟨htake, hdrop⟩ := run_pieces (fun b hb => h.lt ((hkeep b).symm.trans hb)) t
  simp only [hkeep] at htake hdrop
  refine ⟨t.takeWhile fun b => keep' (latin1 b), t.dropWhile fun b => keep' (latin1 b), _,
    List.takeWhile_append_dropWhile.symm, ?_, past_dropWhile _ t, by rw [span, htake, hdrop]⟩
  exact List.all_eq_true.mp List.all_takeWhile

/-- One byte is read if it belongs to the class. -/
theorem takeIf_pieces {keep : Char → Bool} (h : Narrow keep) (hend : keep '\x00' = false)
    (t : List UInt8) (q : Position) :
    (PastByte keep t ∧ takeIf byte keep ⟨pieces t, q⟩ = ([], ⟨pieces t, q⟩)) ∨
    ∃ b rest q', t = b :: rest ∧ keep (latin1 b) = true ∧
      takeIf byte keep ⟨pieces t, q⟩ = ([latin1 b], ⟨pieces rest, q'⟩) := by
  by_cases hpast : PastByte keep t
  · exact .inl ⟨hpast, takeIf_none keep (hpast.ahead hend) q⟩
  · obtain ⟨b, rest, rfl, hb⟩ : ∃ b rest, t = b :: rest ∧ keep (latin1 b) = true := by
      simpa [PastByte, Past] using hpast
    rw [pieces_cons_narrow (h.lt hb)]
    exact .inr ⟨b, rest, _, rfl, hb, takeIf_char keep (h _ hb) hb _ q⟩

end Cursor

/-! ### White space and comments -/

/-- From any position the longest prefix of the language is skipped. -/
def Skips (inComment : Bool) (L : Language UInt8) (r : List UInt8) : Prop :=
  ∀ q, ∃ s t q', r = s ++ t ∧ IsLongest L s r ∧
    Cursor.skipLayout Lookahead.byte inComment q (pieces r) = ⟨pieces t, q'⟩

theorem skips_layout_narrow {a : UInt8} {rest : List UInt8} (ha : a < 0x80)
    (hlayout : Skips false layout rest) (hinside : Skips true inside rest) :
    Skips false layout (a :: rest) := by
  intro q
  have hlook := Lookahead.byte_char (toNat_latin1_lt ha)
  rw [pieces_cons_narrow ha, Cursor.skipLayout]
  simp only [hlook, Piece.read_char]
  by_cases hblank : Cursor.isLayout (latin1 a) = true
  · obtain ⟨s, t, q', rfl, hs, hskip⟩ := hlayout (q.after (latin1 a))
    rw [if_pos hblank]
    exact ⟨a :: s, t, q', rfl, isLongest_layout_cons hblank hs, hskip⟩
  rw [if_neg hblank]
  have hpast : PastByte Cursor.isLayout (a :: rest) := past_cons (Bool.eq_false_iff.mpr hblank)
  by_cases hslash : latin1 a = '/' ∧ Lookahead.byte.ahead (pieces rest) = '/'
  · simp only [hslash, and_self, if_true]
    obtain ⟨s, t, q', hrest, hs, hskip⟩ := hinside (q.after '/')
    refine ⟨a :: s, t, q', by rw [hrest, List.cons_append], ?_, hskip⟩
    obtain ⟨b', rest, rfl, hb'⟩ := exists_of_ahead hslash.2 (by decide)
    exact isLongest_layout_slash hslash.1 hb' hs
  · simp only [hslash, if_false]
    rw [← pieces_cons_narrow ha]
    refine ⟨[], a :: rest, q, rfl, isLongest_layout_nil hpast ?_, rfl⟩
    by_cases ha : latin1 a = '/'
    · have hnext : PastByte (· == '/') rest := by
        rintro b' rest rfl
        rw [ahead_pieces_cons] at hslash
        simpa [ha] using hslash
      exact hnext.noPrefix_one_mul.one_mul
    · have hnone : PastByte (· == '/') (a :: rest) := past_cons (by simp [ha])
      exact hnone.noPrefix_one_mul

theorem skips_inside_narrow {a : UInt8} {rest : List UInt8} (ha : a < 0x80)
    (hlayout : Skips false layout rest) (hinside : Skips true inside rest) :
    Skips true inside (a :: rest) := by
  intro q
  have hlook := Lookahead.byte_char (toNat_latin1_lt ha)
  rw [pieces_cons_narrow ha, Cursor.skipLayout]
  simp only [hlook, Piece.read_char]
  by_cases hfeed : latin1 a = '\n'
  · rw [if_pos hfeed]
    obtain ⟨s, t, q', rfl, hs, hskip⟩ := hlayout (q.after (latin1 a))
    exact ⟨a :: s, t, q', rfl, isLongest_inside_lineFeed hfeed hs, hskip⟩
  rw [if_neg hfeed]
  by_cases hnul : latin1 a = '\x00'
  · rw [if_pos hnul, ← pieces_cons_narrow ha]
    exact ⟨[], a :: rest, q, rfl, isLongest_inside_nul hnul, rfl⟩
  · rw [if_neg hnul]
    obtain ⟨s, t, q', rfl, hs, hskip⟩ := hinside (q.after (latin1 a))
    have hplain : isPlain (latin1 a) = true := by simp [isPlain, hfeed, hnul]
    exact ⟨a :: s, t, q', rfl, (isLongest_inside_cons hplain).mpr hs, hskip⟩

/-- A wide piece is part of a comment, and ends white space. -/
theorem skips_wide {p : Piece} {rest : List UInt8} (hp : p.Wide)
    (hpieces : pieces (p.bytes ++ rest) = p :: pieces rest) (hinside : Skips true inside rest) :
    Skips false layout (p.bytes ++ rest) ∧ Skips true inside (p.bytes ++ rest) := by
  have hfair : Lookahead.byte.FairTo p :=
    Lookahead.byte_fair (p.bytes ++ rest) p (by rw [hpieces]; exact List.mem_cons_self)
  have hlook := hfair.le_look hp.le_read
  constructor
  · intro q
    have hread : p.read ≠ '/' := fun h => absurd hp.le_read (by rw [h]; decide)
    have hskip : Cursor.skipLayout Lookahead.byte false q (p :: pieces rest) =
        ⟨p :: pieces rest, q⟩ := by
      rw [Cursor.skipLayout]
      simp [Cursor.narrow_isLayout.eq_false hlook, hread]
    rw [← hpieces] at hskip
    refine ⟨[], _, q, rfl, ?_, hskip⟩
    have hslash : Lookahead.Narrow (· == '/') := Lookahead.narrow_eq (by decide)
    obtain ⟨b, more, hbytes⟩ := List.exists_cons_of_ne_nil p.bytes_ne_nil
    have hb := hp.le_of_mem b (hbytes ▸ List.mem_cons_self)
    rw [hbytes]
    exact isLongest_layout_nil (Cursor.narrow_isLayout.past hb) (hslash.past hb).noPrefix_one_mul
  · intro q
    obtain ⟨s, t, q', rfl, hs, hskip⟩ := hinside (q.after p.read)
    refine ⟨p.bytes ++ s, t, q', by rw [List.append_assoc], isLongest_inside_append ?_ hs, ?_⟩
    · intro b hb
      have hle : 0x80 ≤ (latin1 b).toNat := by
        rw [toNat_latin1]
        exact UInt8.le_iff_toNat_le.mp (hp.le_of_mem b hb)
      have hfeed : latin1 b ≠ '\n' := fun h => absurd hle (by rw [h]; decide)
      have hnul : latin1 b ≠ '\x00' := fun h => absurd hle (by rw [h]; decide)
      simp [isPlain, hfeed, hnul]
    · have hfeed : Lookahead.byte p ≠ '\n' := fun h => absurd hlook (by rw [h]; decide)
      have hnul : Lookahead.byte p ≠ '\x00' := fun h => absurd hlook (by rw [h]; decide)
      rw [hpieces, Cursor.skipLayout, if_neg hfeed, if_neg hnul, hskip]

/-- White space and comments are skipped as far as they go. -/
theorem skips (r : List UInt8) : Skips false layout r ∧ Skips true inside r := by
  induction r using pieces_induction with
  | nil =>
      refine ⟨fun q => ⟨[], [], q, rfl, ?_, rfl⟩, fun q => ⟨[], [], q, rfl, ?_, rfl⟩⟩
      · exact isLongest_layout_nil past_nil past_nil.noPrefix_one_mul
      · exact isLongest_inside_empty
  | narrow a rest ha ih =>
      exact ⟨skips_layout_narrow ha ih.1 ih.2, skips_inside_narrow ha ih.1 ih.2⟩
  | wide p rest hp hpieces ih => exact skips_wide hp hpieces ih.2

end TwoSorted
