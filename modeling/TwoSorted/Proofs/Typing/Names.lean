import TwoSorted.Proofs.Text.Lines
import TwoSorted.Ty

/-!
# Names of types

A type is looked up in lower case and without the blanks around the name. Two characters from
`0x80` on have a lower case below it, `i` and `k`, and neither letter is in a name. So a type is
found under its own name only, with its letters in either case (`Ty.lookup?_iff_spelled`).
-/

namespace TwoSorted

/-! ### Lower case -/

/-- The lower case of the run is from `0x80` on, unless the run is one of the two characters
that stand for `i` and for `k`. -/
theorem caseRuns_lower : ∀ r ∈ caseRuns,
    (r.last = r.first ∧ (r.lower = 'i'.toNat ∨ r.lower = 'k'.toNat)) ∨
      0x80 ≤ r.lower ∧ (r.lower + (r.last - r.first) < 0xD800 ∨
        0xDFFF < r.lower ∧ r.lower + (r.last - r.first) < 0x110000) := by
  decide +kernel

/-- The lower case of a character from `0x80` on is from `0x80` on, or `i` or `k`. -/
theorem lowerCase_cases {c : Char} (h : 0x80 ≤ c.toNat) :
    lowerCase c = 'i' ∨ lowerCase c = 'k' ∨ 0x80 ≤ (lowerCase c).toNat := by
  rw [lowerCase, if_neg (Nat.not_lt.mpr h)]
  split
  · rename_i r hfind
    have hcovers := List.find?_some hfind
    simp only [CaseRun.covers, Bool.and_eq_true, decide_eq_true_eq] at hcovers
    obtain ⟨⟨hfirst, hlast⟩, _⟩ := hcovers
    obtain ⟨hsingle, hlower⟩ | ⟨hlower, hvalid⟩ :=
      caseRuns_lower r (List.mem_of_find?_eq_some hfind)
    · have hoffset : c.toNat - r.first = 0 := by omega
      rw [hoffset, Nat.add_zero]
      obtain hi | hk := hlower
      · rw [hi]
        exact .inl rfl
      · rw [hk]
        exact .inr (.inl rfl)
    · rw [toNat_ofNat_of_isValidChar (by unfold Nat.isValidChar; omega)]
      exact .inr (.inr (by omega))
  · exact .inr (.inr h)

example : lowerCase '\u0130' = 'i' ∧ lowerCase '\u212A' = 'k' := by decide +kernel

/-- The byte of a letter from `A` to `Z` in lower case; any other byte stays. -/
def foldCase (b : UInt8) : UInt8 :=
  if 0x41 ≤ b ∧ b ≤ 0x5A then b + 0x20 else b

theorem lowerCase_latin1 {b : UInt8} (hb : b < 0x80) :
    lowerCase (latin1 b) = latin1 (foldCase b) := by
  have hall : ∀ n : Fin 128,
      (latin1 (UInt8.ofNat n)).toLower = latin1 (foldCase (UInt8.ofNat n)) := by
    decide +kernel
  have hfold := hall ⟨b.toNat, UInt8.lt_iff_toNat_lt.mp hb⟩
  rw [UInt8.ofNat_toNat] at hfold
  rw [lowerCase_of_lt (toNat_latin1_lt hb), hfold]

/-! ### Pieces of a name -/

/-- A letter from `a` to `z` that is the lower case of no character from `0x80` on. -/
def isNameLetter (b : UInt8) : Bool :=
  0x61 ≤ b && b ≤ 0x7A && b ≠ 0x69 && b ≠ 0x6B

theorem of_isNameLetter_foldCase {b : UInt8} (h : isNameLetter (foldCase b)) :
    b < 0x80 ∧ isBlank (latin1 b) = false := by
  have hall : ∀ n : Fin 256, isNameLetter (foldCase (UInt8.ofNat n)) = true →
      UInt8.ofNat n < 0x80 ∧ isBlank (latin1 (UInt8.ofNat n)) = false := by
    decide +kernel
  have hb := hall ⟨b.toNat, b.toNat_lt⟩
  rw [UInt8.ofNat_toNat] at hb
  exact hb h

/-- A piece whose lower case is such a letter is this letter in either case. -/
theorem exists_byte_of_lowerCase {p : Piece} {b : UInt8} (hb : isNameLetter b)
    (h : lowerCase p.read = latin1 b) : ∃ a, p = .char (latin1 a) ∧ foldCase a = b := by
  simp only [isNameLetter, Bool.and_eq_true, decide_eq_true_eq] at hb
  obtain ⟨⟨⟨_, hle⟩, hi⟩, hk⟩ := hb
  have hlt : b < 0x80 := UInt8.lt_of_le_of_lt hle (by decide)
  have hread : p.read.toNat < 0x80 := by
    refine Nat.lt_of_not_le fun hle => ?_
    obtain hcase | hcase | hcase := lowerCase_cases hle <;> rw [h] at hcase
    · exact hi (latin1_injective hcase)
    · exact hk (latin1_injective hcase)
    · exact absurd (toNat_latin1_lt hlt) (Nat.not_lt.mpr hcase)
  cases p with
  | stray a => exact absurd hread (show ¬ Piece.replacement.toNat < 0x80 by decide)
  | char c =>
      rw [Piece.read_char] at h hread
      have hlt : UInt8.ofNat c.toNat < 0x80 := by
        rw [UInt8.lt_iff_toNat_lt, toNat_ofNat_of_lt hread]
        exact hread
      refine ⟨UInt8.ofNat c.toNat, by rw [latin1_ofNat hread], latin1_injective ?_⟩
      rw [← lowerCase_latin1 hlt, latin1_ofNat hread]
      exact h

/-- Pieces whose lower case spells a name are its letters in either case. -/
theorem exists_word_of_lowerCase {ps : List Piece} {name : List UInt8}
    (hname : ∀ b ∈ name, isNameLetter b)
    (h : (ps.map fun p => lowerCase p.read) = name.map latin1) :
    ∃ word : List UInt8, ps = (word.map latin1).map .char ∧ word.map foldCase = name := by
  induction ps generalizing name with
  | nil => exact ⟨[], rfl, (List.map_eq_nil_iff.mp h.symm).symm⟩
  | cons p ps ih =>
      obtain ⟨b, rest, rfl, hp, hps⟩ := List.map_eq_cons_iff.mp h.symm
      obtain ⟨hb, hrest⟩ := List.forall_mem_cons.mp hname
      obtain ⟨a, rfl, rfl⟩ := exists_byte_of_lowerCase hb hp.symm
      obtain ⟨word, rfl, rfl⟩ := ih hrest hps.symm
      exact ⟨a :: word, rfl, rfl⟩

theorem map_lowerCase_word {word : List UInt8} (hword : ∀ b ∈ word, b < 0x80) :
    (((word.map latin1).map Piece.char).map fun p => lowerCase p.read) =
      (word.map foldCase).map latin1 := by
  simp only [List.map_map]
  exact List.map_congr_left fun b hb => lowerCase_latin1 (hword b hb)

/-! ### Blanks around a name -/

section Trim

variable {α : Type} {p : α → Bool}

/-- What is trimmed off are the elements at both ends that satisfy `p`. -/
theorem exists_append_trimBoth (as : List α) : ∃ front back, as = front ++ trimBoth p as ++ back ∧
    front.all p = true ∧ back.all p = true := by
  refine ⟨as.takeWhile p, ((as.dropWhile p).reverse.takeWhile p).reverse, ?_,
    List.all_takeWhile, by rw [List.all_reverse, List.all_takeWhile]⟩
  rw [trimBoth, List.append_assoc, ← List.reverse_append, List.takeWhile_append_dropWhile,
    List.reverse_reverse, List.takeWhile_append_dropWhile]

theorem dropWhile_of_all_not {as : List α} (h : ∀ a ∈ as, p a = false) : as.dropWhile p = as := by
  cases as with
  | nil => rfl
  | cons a as => rw [List.dropWhile_cons, h a List.mem_cons_self]; rfl

theorem trimBoth_append {front mid back : List α} (hfront : front.all p = true)
    (hmid : ∀ a ∈ mid, p a = false) (hback : back.all p = true) :
    trimBoth p (front ++ mid ++ back) = mid := by
  have hfront := List.all_eq_true.mp hfront
  have hback := List.all_eq_true.mp hback
  rw [trimBoth, List.append_assoc, List.dropWhile_append_of_pos hfront]
  cases mid with
  | nil => rw [List.nil_append, List.dropWhile_eq_nil_iff.mpr hback]; rfl
  | cons a mid =>
      have hmid' : ∀ b ∈ (a :: mid).reverse, p b = false :=
        fun b hb => hmid b (List.mem_reverse.mp hb)
      rw [List.cons_append, List.dropWhile_cons_of_neg (by simp [hmid a List.mem_cons_self]),
        ← List.cons_append, List.reverse_append,
        List.dropWhile_append_of_pos fun b hb => hback b (List.mem_reverse.mp hb),
        dropWhile_of_all_not hmid', List.reverse_reverse]

end Trim

namespace Ty

/-- The text is the name of the type, each letter in upper or lower case, with nothing but
blanks around it. -/
def Spelled (t : Ty) (bytes : List UInt8) : Prop :=
  ∃ front word back, bytes = front ++ word ++ back ∧
    isAllBlank (pieces front) = true ∧ isAllBlank (pieces back) = true ∧
    word.map foldCase = t.name.toUTF8.toList.map foldCase

theorem isNameLetter_name (t : Ty) : ∀ b ∈ t.name.toUTF8.toList.map foldCase, isNameLetter b := by
  cases t <;> decide +kernel

theorem name_ne_nil (t : Ty) : t.name.toUTF8.toList.map foldCase ≠ [] := by
  cases t <;> decide +kernel

theorem key_eq (t : Ty) : t.key = (t.name.toUTF8.toList.map foldCase).map latin1 := by
  cases t <;> decide +kernel

theorem lookup?_eq_some_iff_key {name : List Piece} {t : Ty} :
    lookup? name = some t ↔ ((trim name).map fun p => lowerCase p.read) = t.key := by
  have hne : boolean.key ≠ number.key := by decide +kernel
  unfold lookup?
  generalize ((trim name).map fun p => lowerCase p.read) = wanted
  by_cases hboolean : boolean.key = wanted
  · subst hboolean
    cases t with
    | boolean => simp
    | number => simp [hne]
  · rw [List.find?_cons_of_neg (by simpa using hboolean)]
    by_cases hnumber : number.key = wanted
    · subst hnumber
      cases t with
      | boolean => simp [hne.symm]
      | number => simp
    · rw [List.find?_cons_of_neg (by simpa using hnumber), List.find?_nil]
      cases t with
      | boolean => simpa using Ne.symm hboolean
      | number => simpa using Ne.symm hnumber

/-- A name that is found is made of bytes below `0x80`, once the blanks around it are gone. -/
theorem exists_word_of_lookup? {name : List Piece} {t : Ty} (h : lookup? name = some t) :
    ∃ word : List UInt8, trim name = (word.map latin1).map .char ∧
      word.map foldCase = t.name.toUTF8.toList.map foldCase := by
  rw [lookup?_eq_some_iff_key, key_eq] at h
  exact exists_word_of_lowerCase t.isNameLetter_name h

theorem of_mem_word {t : Ty} {word : List UInt8}
    (h : word.map foldCase = t.name.toUTF8.toList.map foldCase) :
    ∀ b ∈ word, b < 0x80 ∧ isBlank (latin1 b) = false :=
  fun b hb => of_isNameLetter_foldCase
    (t.isNameLetter_name (foldCase b) (h ▸ List.mem_map_of_mem hb))

theorem spelled_of_lookup? {bytes : List UInt8} {t : Ty} (h : lookup? (pieces bytes) = some t) :
    t.Spelled bytes := by
  obtain ⟨word, htrim, hword⟩ := exists_word_of_lookup? h
  obtain ⟨front, back, hpieces, hfront, hback⟩ :=
    exists_append_trimBoth (p := Piece.isBlank) (pieces bytes)
  rw [← trim, htrim] at hpieces
  obtain ⟨bytes', back', rfl, hbytes', rfl⟩ := cuts_of_pieces hpieces
  obtain ⟨front', word', rfl, rfl, hword'⟩ := cuts_of_pieces hbytes'
  have hnarrow := pieces_append_narrow (fun b hb => (of_mem_word hword b hb).1) []
  rw [List.append_nil, pieces_nil, List.append_nil, ← hword'] at hnarrow
  obtain rfl := pieces_injective hnarrow
  exact ⟨front', word, back', rfl, hfront, hback, hword⟩

theorem lookup?_of_spelled {bytes : List UInt8} {t : Ty} (h : t.Spelled bytes) :
    lookup? (pieces bytes) = some t := by
  obtain ⟨front, word, back, rfl, hfront, hback, hword⟩ := h
  have hlt : ∀ b ∈ word, b < 0x80 := fun b hb => (of_mem_word hword b hb).1
  have hpieces : pieces (front ++ word ++ back) =
      pieces front ++ (word.map latin1).map .char ++ pieces back := by
    cases word with
    | nil => exact absurd hword.symm t.name_ne_nil
    | cons b word =>
        obtain ⟨hb, hrest⟩ := List.forall_mem_cons.mp hlt
        rw [List.append_assoc, List.cons_append, pieces_append_ascii hb,
          pieces_append_narrow hrest, List.append_assoc]
        rfl
  have hmid : ∀ p ∈ (word.map latin1).map Piece.char, p.isBlank = false := by
    simp only [List.map_map, List.forall_mem_map]
    exact fun b hb => (of_mem_word hword b hb).2
  rw [lookup?_eq_some_iff_key, trim, hpieces, trimBoth_append hfront hmid hback,
    map_lowerCase_word hlt, hword, key_eq]

/-- The two names and nothing else. A text is the name of a type exactly if it is the type's
name with blanks around it, the letters in either case. Any other text is no name. In
particular no text is one in which, without the blanks at its ends, a character from `0x80` on
or a stray byte is left. -/
theorem lookup?_iff_spelled (bytes : List UInt8) :
    (∀ t, lookup? (pieces bytes) = some t ↔ t.Spelled bytes) ∧
    ((∀ t : Ty, ¬ t.Spelled bytes) →
      lookup? (pieces bytes) = none ∧ nameOr (lookup? (pieces bytes)) = "invalid") ∧
    ∀ p ∈ trim (pieces bytes), 0x80 ≤ p.lead → lookup? (pieces bytes) = none := by
  have hiff (t : Ty) : lookup? (pieces bytes) = some t ↔ t.Spelled bytes :=
    ⟨spelled_of_lookup?, lookup?_of_spelled⟩
  refine ⟨hiff, fun hnot => ?_, fun p hp hlead => ?_⟩
  · have hnone : lookup? (pieces bytes) = none :=
      Option.eq_none_iff_forall_ne_some.mpr fun t h => hnot t ((hiff t).mp h)
    exact ⟨hnone, by rw [hnone, nameOr]⟩
  · refine Option.eq_none_iff_forall_ne_some.mpr fun t h => ?_
    obtain ⟨word, htrim, hword⟩ := exists_word_of_lookup? h
    rw [htrim, List.map_map] at hp
    obtain ⟨b, hb, rfl⟩ := List.mem_map.mp hp
    have hlt := (of_mem_word hword b hb).1
    rw [Function.comp_apply, Piece.lead, bytes_char_latin1 hlt] at hlead
    exact absurd hlt (UInt8.not_lt.mpr hlead)

end Ty

end TwoSorted
