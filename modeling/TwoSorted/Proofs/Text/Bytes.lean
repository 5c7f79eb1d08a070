import TwoSorted.Proofs.Text.Pieces
import TwoSorted.Text.Digit
import TwoSorted.Text.Letter

/-!
# The bytes of a text

A text is cut into pieces from the left, so a proof about its pieces can go by its
bytes: it is empty, or it begins with a byte below `0x80`, which is a piece of its own,
or with the bytes of a wide piece, all of them from `0x80` on (`pieces_induction`).

The lexer takes the first byte of a piece for the number of a character, as Latin-1
does. Among these characters only `0` to `9` are digits, and `isLatin1Letter` lists the
letters.
-/

namespace TwoSorted

/-- The character that a byte stands for in Latin-1. -/
def latin1 (b : UInt8) : Char :=
  Char.ofNat b.toNat

/-- A letter of Latin-1: an ASCII letter, `ª`, `µ`, `º`, or one from `À` on that is
neither `×` nor `÷`. -/
def isLatin1Letter (b : UInt8) : Bool :=
  (0x41 ≤ b && b ≤ 0x5A) || (0x61 ≤ b && b ≤ 0x7A) || b == 0xAA || b == 0xB5 || b == 0xBA ||
    (0xC0 ≤ b && b ≠ 0xD7 && b ≠ 0xF7)

theorem toNat_ofNat_of_isValidChar {n : Nat} (h : n.isValidChar) : (Char.ofNat n).toNat = n := by
  rw [Char.ofNat, dif_pos h]
  rfl

theorem toNat_latin1 (b : UInt8) : (latin1 b).toNat = b.toNat :=
  toNat_ofNat_of_isValidChar (.inl (Nat.lt_trans b.toNat_lt (by decide)))

theorem latin1_injective {a b : UInt8} (h : latin1 a = latin1 b) : a = b := by
  rw [← UInt8.toNat_inj, ← toNat_latin1, h, toNat_latin1]

/-- Ranges that begin beyond Latin-1 do not matter to its characters. -/
theorem inRanges_latin1 {ranges : List (Nat × Nat)} (k : Nat)
    (hk : ((ranges.drop k).all fun r => 0x100 ≤ r.1) = true) (b : UInt8) :
    inRanges ranges (latin1 b) = inRanges (ranges.take k) (latin1 b) := by
  have hbeyond : inRanges (ranges.drop k) (latin1 b) = false := by
    simp only [inRanges, List.any_eq_false]
    intro r hr
    have hle := List.all_eq_true.mp hk r hr
    have hlt := b.toNat_lt
    rw [toNat_latin1]
    simp at hle ⊢
    omega
  rw [inRanges, ← List.take_append_drop k ranges, List.any_append, ← inRanges, ← inRanges,
    hbeyond, Bool.or_false, List.take_append_drop]

theorem isLetter_latin1 (b : UInt8) : isLetter (latin1 b) = isLatin1Letter b := by
  have h : ∀ n : Fin 256, (if (Char.ofNat n).toNat < 0x80 then (Char.ofNat n).isAlpha
      else inRanges (letterRanges.take 6) (Char.ofNat n)) = isLatin1Letter (UInt8.ofNat n) := by
    decide +kernel
  have hb := h ⟨b.toNat, b.toNat_lt⟩
  rw [UInt8.ofNat_toNat] at hb
  rw [isLetter, inRanges_latin1 6 (by decide +kernel), ← hb]
  rfl

theorem isDecimalDigit_latin1 (b : UInt8) : isDecimalDigit (latin1 b) = (latin1 b).isDigit := by
  rcases Nat.lt_or_ge (latin1 b).toNat 0x80 with hb | hb
  · exact isDecimalDigit_of_lt hb
  · rw [isDecimalDigit, inRanges_latin1 0 (by decide +kernel), if_neg (Nat.not_lt.mpr hb)]
    refine (Bool.eq_false_iff.mpr fun hdigit => ?_).symm
    have hlt := (Char.isDigit_iff_toNat.mp hdigit).2
    exact absurd hb (Nat.not_le.mpr (Nat.lt_of_le_of_lt hlt (by decide)))

/-! ### Forms of characters -/

namespace Utf8

theorem toNat_of_scalar? {least n : Nat} {ch : Char} (h : scalar? least n = some ch) :
    least ≤ ch.val.toNat ∧ ch.val.toNat = n := by
  unfold scalar? at h
  split at h
  · rename_i hn
    cases h
    have hch := toNat_ofNat_of_isValidChar hn.2
    exact ⟨Nat.le_trans hn.1 (Nat.le_of_eq hch.symm), hch⟩
  · cases h

theorem toNat_of_isContinuation {b : UInt8} (h : isContinuation b = true) :
    0x80 ≤ b.toNat ∧ b.toNat < 0xC0 := by
  simp only [isContinuation, Bool.and_eq_true, decide_eq_true_eq] at h
  exact ⟨UInt8.le_iff_toNat_le.mp h.1, UInt8.lt_iff_toNat_lt.mp h.2⟩

theorem ofNat_eq {b : UInt8} {n : Nat} (h : b.toNat = n) : UInt8.ofNat n = b := by
  rw [← h, UInt8.ofNat_toNat]

theorem utf8EncodeChar_of_pair? {a b : UInt8} {ch : Char} (h : pair? a b = some ch) :
    String.utf8EncodeChar ch = [a, b] ∧ 0x80 ≤ ch.toNat := by
  unfold pair? at h
  split at h
  · rename_i hform
    obtain ⟨ha, ha', hb⟩ := hform
    have ha : 0xC0 ≤ a.toNat := UInt8.le_iff_toNat_le.mp ha
    have ha' : a.toNat < 0xE0 := UInt8.lt_iff_toNat_lt.mp ha'
    have hb := toNat_of_isContinuation hb
    obtain ⟨hleast, hch⟩ := toNat_of_scalar? h
    unfold payload at hch
    have hlarge : ¬ ch.val.toNat ≤ 0x7F := by omega
    have hsmall : ch.val.toNat ≤ 0x7FF := by omega
    refine ⟨?_, hleast⟩
    simp only [String.utf8EncodeChar, hlarge, hsmall, if_true, if_false]
    rw [ofNat_eq (b := a) (by omega), ofNat_eq (b := b) (by omega)]
  · cases h

theorem utf8EncodeChar_of_triple? {a b c : UInt8} {ch : Char} (h : triple? a b c = some ch) :
    String.utf8EncodeChar ch = [a, b, c] ∧ 0x80 ≤ ch.toNat := by
  unfold triple? at h
  split at h
  · rename_i hform
    obtain ⟨ha, ha', hb, hc⟩ := hform
    have ha : 0xE0 ≤ a.toNat := UInt8.le_iff_toNat_le.mp ha
    have ha' : a.toNat < 0xF0 := UInt8.lt_iff_toNat_lt.mp ha'
    have hb := toNat_of_isContinuation hb
    have hc := toNat_of_isContinuation hc
    obtain ⟨hleast, hch⟩ := toNat_of_scalar? h
    unfold payload at hch
    have hlarge : ¬ ch.val.toNat ≤ 0x7F := by omega
    have hlarge' : ¬ ch.val.toNat ≤ 0x7FF := by omega
    have hsmall : ch.val.toNat ≤ 0xFFFF := by omega
    refine ⟨?_, Nat.le_trans (by decide) hleast⟩
    simp only [String.utf8EncodeChar, hlarge, hlarge', hsmall, if_true, if_false]
    rw [ofNat_eq (b := a) (by omega), ofNat_eq (b := b) (by omega),
      ofNat_eq (b := c) (by omega)]
  · cases h

theorem utf8EncodeChar_of_quad? {a b c d : UInt8} {ch : Char} (h : quad? a b c d = some ch) :
    String.utf8EncodeChar ch = [a, b, c, d] ∧ 0x80 ≤ ch.toNat := by
  unfold quad? at h
  split at h
  · rename_i hform
    obtain ⟨ha, ha', hb, hc, hd⟩ := hform
    have ha : 0xF0 ≤ a.toNat := UInt8.le_iff_toNat_le.mp ha
    have ha' : a.toNat < 0xF8 := UInt8.lt_iff_toNat_lt.mp ha'
    have hb := toNat_of_isContinuation hb
    have hc := toNat_of_isContinuation hc
    have hd := toNat_of_isContinuation hd
    obtain ⟨hleast, hch⟩ := toNat_of_scalar? h
    unfold payload at hch
    have hlarge : ¬ ch.val.toNat ≤ 0x7F := by omega
    have hlarge' : ¬ ch.val.toNat ≤ 0x7FF := by omega
    have hlarge'' : ¬ ch.val.toNat ≤ 0xFFFF := by omega
    refine ⟨?_, Nat.le_trans (by decide) hleast⟩
    simp only [String.utf8EncodeChar, hlarge, hlarge', hlarge'', if_false]
    rw [ofNat_eq (b := a) (by omega), ofNat_eq (b := b) (by omega),
      ofNat_eq (b := c) (by omega), ofNat_eq (b := d) (by omega)]
  · cases h

theorem le_of_mem_utf8EncodeChar {ch : Char} (h : 0x80 ≤ ch.toNat) :
    ∀ b ∈ String.utf8EncodeChar ch, 0x80 ≤ b := by
  have hlarge : ¬ ch.val.toNat ≤ 0x7F := Nat.not_le.mpr h
  have hle {n : Nat} (hn : 0x80 ≤ n) (hlt : n < 0x100) : 0x80 ≤ UInt8.ofNat n := by
    rw [UInt8.le_iff_toNat_le, UInt8.toNat_ofNat_of_lt' hlt]
    exact hn
  simp only [String.utf8EncodeChar, hlarge, if_false]
  split
  · simp only [List.forall_mem_cons, List.not_mem_nil, false_imp_iff, implies_true, and_true]
    exact ⟨hle (by omega) (by omega), hle (by omega) (by omega)⟩
  · split
    · simp only [List.forall_mem_cons, List.not_mem_nil, false_imp_iff, implies_true, and_true]
      exact ⟨hle (by omega) (by omega), hle (by omega) (by omega), hle (by omega) (by omega)⟩
    · simp only [List.forall_mem_cons, List.not_mem_nil, false_imp_iff, implies_true, and_true]
      exact ⟨hle (by omega) (by omega), hle (by omega) (by omega), hle (by omega) (by omega),
        hle (by omega) (by omega)⟩

end Utf8

open Utf8

/-! ### A text from its first byte on -/

/-- A byte below `0x80` is a piece of its own. -/
theorem pieces_cons_narrow {a : UInt8} (ha : a < 0x80) (rest : List UInt8) :
    pieces (a :: rest) = .char (latin1 a) :: pieces rest :=
  pieces_cons_ascii ha rest

theorem pieces_append_narrow {u : List UInt8} (hu : ∀ b ∈ u, b < 0x80) (t : List UInt8) :
    pieces (u ++ t) = (u.map latin1).map .char ++ pieces t := by
  induction u with
  | nil => rfl
  | cons b u ih =>
      obtain ⟨hb, hu⟩ := List.forall_mem_cons.mp hu
      rw [List.cons_append, pieces_cons_narrow hb, ih hu]
      rfl

theorem toNat_latin1_lt {b : UInt8} (hb : b < 0x80) : (latin1 b).toNat < 0x80 := by
  rw [toNat_latin1]
  exact UInt8.lt_iff_toNat_lt.mp hb

theorem bytes_char_latin1 {b : UInt8} (hb : b < 0x80) : (Piece.char (latin1 b)).bytes = [b] := by
  rw [Piece.bytes, utf8EncodeChar_of_lt (toNat_latin1_lt hb), toNat_latin1, UInt8.ofNat_toNat]

theorem latin1_ofNat {c : Char} (h : c.toNat < 0x80) : latin1 (UInt8.ofNat c.toNat) = c := by
  rw [latin1, toNat_ofNat_of_lt h, Char.ofNat_toNat]

theorem Piece.bytes_ne_nil (p : Piece) : p.bytes ≠ [] := by
  cases p with
  | char c => exact String.utf8EncodeChar_ne_nil
  | stray b => simp [Piece.bytes]

/-- A piece of bytes that are all from `0x80` on. -/
structure Piece.Wide (p : Piece) : Prop where
  le_read : 0x80 ≤ p.read.toNat
  le_of_mem : ∀ b ∈ p.bytes, 0x80 ≤ b

theorem Piece.wide_stray {a : UInt8} (ha : ¬ a < 0x80) : (Piece.stray a).Wide where
  le_read := show 0x80 ≤ Piece.replacement.toNat by decide
  le_of_mem := by simpa [Piece.bytes] using ha

theorem Piece.wide_char {c : Char} (hc : 0x80 ≤ c.toNat) : (Piece.char c).Wide where
  le_read := hc
  le_of_mem := le_of_mem_utf8EncodeChar hc

/-- A property of texts holds of all if it holds of the empty text and if a byte below
`0x80` or a wide piece in front keeps it. -/
theorem pieces_induction {motive : List UInt8 → Prop} (nil : motive [])
    (narrow : ∀ a rest, a < 0x80 → motive rest → motive (a :: rest))
    (wide : ∀ p rest, p.Wide → pieces (p.bytes ++ rest) = p :: pieces rest → motive rest →
      motive (p.bytes ++ rest))
    (bytes : List UInt8) : motive bytes := by
  have hstray {a : UInt8} {rest : List UInt8} (ha : ¬ a < 0x80)
      (h : pieces (a :: rest) = .stray a :: pieces rest) (ih : motive rest) :
      motive (a :: rest) :=
    wide (.stray a) rest (Piece.wide_stray ha) h ih
  have hchar {ch : Char} {bs rest : List UInt8}
      (hbytes : String.utf8EncodeChar ch = bs ∧ 0x80 ≤ ch.toNat)
      (h : pieces (bs ++ rest) = .char ch :: pieces rest) (ih : motive rest) :
      motive (bs ++ rest) := by
    obtain ⟨rfl, hch⟩ := hbytes
    exact wide (.char ch) rest (Piece.wide_char hch) h ih
  fun_induction pieces bytes with
  | case1 => exact nil
  | case2 a rest ha ih => exact narrow a rest ha ih
  | case3 a ha => exact hstray ha (by rw [pieces.eq_def]; simp [ha]) nil
  | case4 a ha b rest ch hpair ih =>
      exact hchar (utf8EncodeChar_of_pair? hpair)
        (by rw [pieces.eq_def]; simp [ha, hpair]) ih
  | case5 a ha b hpair ih =>
      exact hstray ha (by rw [pieces.eq_def]; simp [ha, hpair]) ih
  | case6 a ha b hpair c rest ch htriple ih =>
      exact hchar (utf8EncodeChar_of_triple? htriple)
        (by rw [pieces.eq_def]; simp [ha, hpair, htriple]) ih
  | case7 a ha b hpair c htriple ih =>
      exact hstray ha (by rw [pieces.eq_def]; simp [ha, hpair, htriple]) ih
  | case8 a ha b hpair c htriple d rest ch hquad ih =>
      exact hchar (utf8EncodeChar_of_quad? hquad)
        (by rw [pieces.eq_def]; simp [ha, hpair, htriple, hquad]) ih
  | case9 a ha b hpair c htriple d rest hquad ih =>
      exact hstray ha (by rw [pieces.eq_def]; simp [ha, hpair, htriple, hquad]) ih

end TwoSorted
