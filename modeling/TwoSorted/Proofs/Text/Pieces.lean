import TwoSorted.Text.Utf8

/-!
# Where a text can be cut

A byte below `0x80` is never part of a longer character, so it cuts a text: the
pieces before it do not depend on what comes after it. A text of such bytes alone
falls apart into one character a byte.
-/

namespace TwoSorted

namespace Utf8

theorem isContinuation_eq_false {b : UInt8} (h : b < 0x80) : isContinuation b = false := by
  simp only [isContinuation, Bool.and_eq_false_iff, decide_eq_false_iff_not]
  exact .inl (UInt8.not_le.mpr h)

theorem pair?_eq_none {b : UInt8} (h : b < 0x80) (a : UInt8) : pair? a b = none := by
  simp [pair?, isContinuation_eq_false h]

theorem triple?_eq_none {a b c : UInt8} (h : b < 0x80 ∨ c < 0x80) :
    triple? a b c = none := by
  rcases h with h | h <;> simp [triple?, isContinuation_eq_false h]

theorem quad?_eq_none {a b c d : UInt8} (h : b < 0x80 ∨ c < 0x80 ∨ d < 0x80) :
    quad? a b c d = none := by
  rcases h with h | h | h <;> simp [quad?, isContinuation_eq_false h]

end Utf8

open Utf8

/-! ### A longer form broken off by a byte below `0x80` -/

theorem pieces_of_fourth {a b c d : UInt8} (ha : ¬ a < 0x80) (hpair : pair? a b = none)
    (htriple : triple? a b c = none) (hd : b < 0x80 ∨ c < 0x80 ∨ d < 0x80)
    (rest : List UInt8) :
    pieces (a :: b :: c :: d :: rest) = .stray a :: pieces (b :: c :: d :: rest) := by
  rw [pieces.eq_def]
  simp [ha, hpair, htriple, quad?_eq_none hd]

theorem pieces_of_third {a b c : UInt8} (ha : ¬ a < 0x80) (hpair : pair? a b = none)
    (hc : b < 0x80 ∨ c < 0x80) (rest : List UInt8) :
    pieces (a :: b :: c :: rest) = .stray a :: pieces (b :: c :: rest) := by
  have htriple := triple?_eq_none (a := a) hc
  cases rest with
  | nil =>
      rw [pieces.eq_def]
      simp [ha, hpair, htriple]
  | cons d rest =>
      exact pieces_of_fourth ha hpair htriple (hc.imp_right .inl) rest

theorem pieces_of_second {a b : UInt8} (ha : ¬ a < 0x80) (hb : b < 0x80)
    (rest : List UInt8) : pieces (a :: b :: rest) = .stray a :: pieces (b :: rest) := by
  have hpair := pair?_eq_none hb a
  cases rest with
  | nil =>
      rw [pieces.eq_def]
      simp [ha, hpair]
  | cons c rest => exact pieces_of_third ha hpair (.inl hb) rest

/-- A byte below `0x80` cuts a text. -/
theorem pieces_append_ascii {x : UInt8} (hx : x < 0x80) (p q : List UInt8) :
    pieces (p ++ x :: q) = pieces p ++ .char (Char.ofNat x.toNat) :: pieces q := by
  fun_induction pieces p with
  | case1 => exact pieces_cons_ascii hx q
  | case2 a rest ha ih =>
      rw [List.cons_append, pieces_cons_ascii ha, ih, List.cons_append]
  | case3 a ha => rw [List.singleton_append, pieces_of_second ha hx, pieces_cons_ascii hx]; rfl
  | case4 a ha b rest ch hpair ih =>
      rw [List.cons_append, List.cons_append, pieces.eq_def]
      simp [ha, hpair, ih]
  | case5 a ha b hpair ih =>
      rw [List.cons_append, List.singleton_append, pieces_of_third ha hpair (.inr hx)]
      rw [List.singleton_append] at ih
      rw [ih, List.cons_append]
  | case6 a ha b hpair c rest ch htriple ih =>
      simp only [List.cons_append]
      rw [pieces.eq_def]
      simp [ha, hpair, htriple, ih]
  | case7 a ha b hpair c htriple ih =>
      simp only [List.cons_append, List.nil_append] at ih ⊢
      rw [pieces_of_fourth ha hpair htriple (.inr (.inr hx)), ih]
  | case8 a ha b hpair c htriple d rest ch hquad ih =>
      simp only [List.cons_append]
      rw [pieces.eq_def]
      simp [ha, hpair, htriple, hquad, ih]
  | case9 a ha b hpair c htriple d rest hquad ih =>
      simp only [List.cons_append] at ih ⊢
      rw [pieces.eq_def]
      simp [ha, hpair, htriple, hquad, ih]

/-! ### Characters of one byte -/

theorem utf8EncodeChar_of_lt {c : Char} (h : c.toNat < 0x80) :
    String.utf8EncodeChar c = [UInt8.ofNat c.toNat] := by
  have hle : c.toNat ≤ 127 := Nat.le_of_lt_succ h
  simp [String.utf8EncodeChar, hle]

theorem toNat_ofNat_of_lt {c : Char} (h : c.toNat < 0x80) :
    (UInt8.ofNat c.toNat).toNat = c.toNat :=
  UInt8.toNat_ofNat_of_lt (Nat.lt_of_lt_of_le h (by decide))

theorem toList_loop (bytes : ByteArray) (i : Nat) (read : List UInt8) :
    ByteArray.toList.loop bytes i read = read.reverse ++ bytes.data.toList.drop i := by
  fun_induction ByteArray.toList.loop bytes i read with
  | case1 i read h ih =>
      have hlt : i < bytes.data.toList.length := h
      have hget : bytes.get! i = bytes.data.toList[i] := by
        rw [ByteArray.get!]
        simp [getElem!_pos, h]
      rw [ih, List.drop_eq_getElem_cons hlt, hget]
      simp
  | case2 i read h =>
      have hge : bytes.data.toList.length ≤ i := Nat.le_of_not_lt h
      rw [List.drop_of_length_le hge, List.append_nil]

theorem toList_toUTF8 (s : String) :
    s.toUTF8.toList = s.toList.flatMap String.utf8EncodeChar := by
  rw [String.toUTF8_eq_toByteArray, ← String.utf8Encode_toList, List.utf8Encode,
    ByteArray.toList, toList_loop]
  simp

/-- A text of characters below `0x80` falls apart into these. -/
theorem pieces_toUTF8 {s : String} (h : ∀ c ∈ s.toList, c.toNat < 0x80) :
    pieces s.toUTF8.toList = s.toList.map .char := by
  rw [toList_toUTF8]
  generalize s.toList = cs at h
  induction cs with
  | nil => rfl
  | cons c cs ih =>
      obtain ⟨hc, hcs⟩ := List.forall_mem_cons.mp h
      have hbyte : UInt8.ofNat c.toNat < 0x80 := by
        rw [UInt8.lt_iff_toNat_lt, toNat_ofNat_of_lt hc]
        exact hc
      rw [List.flatMap_cons, utf8EncodeChar_of_lt hc, List.singleton_append,
        pieces_cons_ascii hbyte, ih hcs, toNat_ofNat_of_lt hc, Char.ofNat_toNat,
        List.map_cons]

end TwoSorted
