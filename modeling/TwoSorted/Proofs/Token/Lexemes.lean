import TwoSorted.Proofs.Text.Bytes
import TwoSorted.Proofs.Token.Longest
import TwoSorted.Token.Numeral

/-!
# The lexical grammar

A token is spelled by a lexeme, and white space and comments may stand in front of it.
Here the bytes of both are described as languages. A comment goes on as long as it can,
so it matters for a byte whether a comment has begun in front of it; `inside` is what
can follow then.

`Lexeme t w name` says that the text `t` begins with the lexeme `w` of a token with the
given name. A word must not be followed by a byte that could continue it, and a number
is as long as it can be and must not be followed by a letter.
-/

namespace TwoSorted

open Computability

/-- The words of one byte that stands for a character which `keep` holds of. -/
abbrev byteOf (keep : Char → Bool) : Language UInt8 :=
  one fun b => keep (latin1 b)

theorem IsLongest.byteOf_mul (keep : Char → Bool) {M : Language UInt8} {b : UInt8}
    {w t : List UInt8} (h : IsLongest M w t) (hb : keep (latin1 b) = true) :
    IsLongest (byteOf keep * M) (b :: w) (b :: t) :=
  h.one_mul hb

/-! ### White space and comments -/

/-- A byte of a comment. -/
def isPlain (c : Char) : Bool :=
  c != '\n' && c != '\x00'

/-- White space and comments. -/
def layout : Language UInt8 :=
  (byteOf Cursor.isLayout + byteOf (· == '/') * byteOf (· == '/') * (byteOf isPlain)∗)∗

/-- What is skipped once a comment has begun. -/
def inside : Language UInt8 :=
  (byteOf isPlain)∗ * layout

theorem layout_eq : layout =
    1 + (byteOf Cursor.isLayout * layout +
      byteOf (· == '/') * (byteOf (· == '/') * inside)) := by
  have h : 1 + (byteOf Cursor.isLayout +
      byteOf (· == '/') * byteOf (· == '/') * (byteOf isPlain)∗) * layout = layout :=
    Language.one_add_self_mul_kstar_eq_kstar _
  rw [add_mul] at h
  simpa only [inside, mul_assoc] using h.symm

theorem inside_eq : inside = layout + byteOf isPlain * inside :=
  kstar_mul

theorem mem_inside_of_layout {w : List UInt8} (hw : w ∈ layout) : w ∈ inside := by
  rw [inside_eq]
  exact .inl hw

theorem cons_mem_inside {b : UInt8} {w : List UInt8} (hb : isPlain (latin1 b) = true)
    (hw : w ∈ inside) : b :: w ∈ inside := by
  rw [inside_eq]
  exact .inr (mem_one_mul.mpr ⟨b, w, hb, hw, rfl⟩)

/-- What follows the first byte of white space or of a comment can follow in a comment. -/
theorem mem_inside_of_cons {b : UInt8} {w : List UInt8} (h : b :: w ∈ layout) :
    w ∈ inside := by
  rw [layout_eq] at h
  rcases h with h | h | h
  · cases (Language.mem_one _).mp h
  · obtain ⟨_, _, _, hw, heq⟩ := mem_one_mul.mp h
    cases heq
    exact mem_inside_of_layout hw
  · obtain ⟨_, _, _, hw, heq⟩ := mem_one_mul.mp h
    cases heq
    obtain ⟨b', v, hb', hv, rfl⟩ := mem_one_mul.mp hw
    exact cons_mem_inside (by simp [beq_iff_eq.mp hb', isPlain]) hv

/-- In a comment every byte but a line feed or a `NUL` is skipped. -/
theorem isLongest_inside_cons {b : UInt8} {s t : List UInt8}
    (hb : isPlain (latin1 b) = true) :
    IsLongest inside (b :: s) (b :: t) ↔ IsLongest inside s t := by
  have hmem {u : List UInt8} : b :: u ∈ inside ↔ u ∈ inside := by
    refine ⟨fun h => ?_, cons_mem_inside hb⟩
    rw [inside_eq] at h
    rcases h with h | h
    · exact mem_inside_of_cons h
    · obtain ⟨_, _, _, hu, heq⟩ := mem_one_mul.mp h
      cases heq
      exact hu
  constructor
  · intro h
    refine ⟨hmem.mp h.mem, (List.cons_prefix_cons.mp h.start).2, fun u hu hpre => ?_⟩
    have hle := h.length_le (b :: u) (hmem.mpr hu) (List.cons_prefix_cons.mpr ⟨rfl, hpre⟩)
    simpa using hle
  · intro h
    refine ⟨hmem.mpr h.mem, List.cons_prefix_cons.mpr ⟨rfl, h.start⟩, fun u hu hpre => ?_⟩
    cases u with
    | nil => simp
    | cons b' u =>
        obtain ⟨rfl, hpre'⟩ := List.cons_prefix_cons.mp hpre
        simpa using h.length_le u (hmem.mp hu) hpre'

theorem isLongest_inside_append {u s t : List UInt8} (hu : ∀ b ∈ u, isPlain (latin1 b) = true)
    (h : IsLongest inside s t) : IsLongest inside (u ++ s) (u ++ t) := by
  induction u with
  | nil => exact h
  | cons b u ih =>
      obtain ⟨hb, hu⟩ := List.forall_mem_cons.mp hu
      exact (isLongest_inside_cons hb).mpr (ih hu)

section Skipped

variable {b : UInt8} {s t : List UInt8}

theorem isLongest_layout_cons (hb : Cursor.isLayout (latin1 b) = true)
    (h : IsLongest layout s t) : IsLongest layout (b :: s) (b :: t) := by
  rw [layout_eq]
  have hslash : Past (fun b => latin1 b == '/') (b :: t) := by
    refine past_cons (Bool.eq_false_iff.mpr fun hslash => ?_)
    rw [beq_iff_eq.mp hslash] at hb
    cases hb
  exact ((h.byteOf_mul Cursor.isLayout hb).add hslash.noPrefix_one_mul).one_add

theorem isLongest_layout_nil (hblank : Past (fun b => Cursor.isLayout (latin1 b)) t)
    (hcomment : NoPrefix (byteOf (· == '/') * (byteOf (· == '/') * inside)) t) :
    IsLongest layout [] t := by
  rw [layout_eq]
  exact (hblank.noPrefix_one_mul.add hcomment).isLongest_one_add

/-- A line feed ends a comment. -/
theorem isLongest_inside_lineFeed (hb : latin1 b = '\n') (h : IsLongest layout s t) :
    IsLongest inside (b :: s) (b :: t) := by
  rw [inside_eq]
  have hplain : Past (fun b => isPlain (latin1 b)) (b :: t) :=
    past_cons (by simp [hb, isPlain])
  exact (isLongest_layout_cons (by simp [hb, Cursor.isLayout]) h).add hplain.noPrefix_one_mul

/-- So does a `NUL`, which is not skipped. -/
theorem isLongest_inside_nul (hb : latin1 b = '\x00') : IsLongest inside [] (b :: t) := by
  rw [inside_eq]
  have hplain : Past (fun b => isPlain (latin1 b)) (b :: t) :=
    past_cons (by simp [hb, isPlain])
  have hblank : Past (fun b => Cursor.isLayout (latin1 b)) (b :: t) :=
    past_cons (by simp [hb, Cursor.isLayout])
  have hslash : Past (fun b => latin1 b == '/') (b :: t) := past_cons (by simp [hb])
  exact (isLongest_layout_nil hblank hslash.noPrefix_one_mul).add hplain.noPrefix_one_mul

theorem isLongest_inside_empty : IsLongest inside [] [] := by
  rw [inside_eq]
  exact (isLongest_layout_nil past_nil past_nil.noPrefix_one_mul).add past_nil.noPrefix_one_mul

/-- A slash in front of another one begins a comment, of which the latter is a part. -/
theorem isLongest_layout_slash {b' : UInt8} (hb : latin1 b = '/') (hb' : latin1 b' = '/')
    (h : IsLongest inside s (b' :: t)) : IsLongest layout (b :: s) (b :: b' :: t) := by
  have hplain : isPlain (latin1 b') = true := by simp [hb', isPlain]
  have hone : [b'] ∈ inside := cons_mem_inside hplain isLongest_inside_empty.mem
  have hlength := h.length_le [b'] hone (by simp)
  obtain ⟨x, s, rfl⟩ := List.exists_cons_of_length_pos hlength
  obtain ⟨rfl, _⟩ := List.cons_prefix_cons.mp h.start
  have hinside := (isLongest_inside_cons hplain).mp h
  have hblank : Past (fun b => Cursor.isLayout (latin1 b)) (b :: x :: t) :=
    past_cons (by simp [hb, Cursor.isLayout])
  have hslashes := (hinside.byteOf_mul (· == '/') (beq_iff_eq.mpr hb')).byteOf_mul (· == '/')
    (beq_iff_eq.mpr hb)
  rw [layout_eq, add_comm (byteOf Cursor.isLayout * layout)]
  exact (hslashes.add hblank.noPrefix_one_mul).one_add

end Skipped

/-! ### Numbers -/

open Numeral

def digit : Language UInt8 :=
  byteOf Char.isDigit

def digits : Language UInt8 :=
  digit * digit∗

def point : Language UInt8 :=
  byteOf (· == '.')

/-- A power of ten. -/
def power : Language UInt8 :=
  byteOf isExponentMark * (1 + byteOf isSign) * digits

/-- A digit of base sixteen. -/
def isHex (c : Char) : Bool :=
  c.isDigit || isHexLetter c

def hexadecimals : Language UInt8 :=
  byteOf (· == '0') * byteOf isHexMark * (byteOf isHex * (byteOf isHex)∗)

/-- Numbers: digits with an optional fraction and an optional power of ten, or a point
with digits and an optional power of ten, or a hexadecimal number. -/
def numerals : Language UInt8 :=
  digits * (1 + point * digit∗) * (1 + power) + point * digits * (1 + power) + hexadecimals

/-! ### The longest number -/

/-- All bytes are digits. -/
abbrev AllDigits (ds : List UInt8) : Prop :=
  ∀ b ∈ ds, (latin1 b).isDigit = true

/-- The byte ahead is none for which `keep` holds. -/
abbrev PastByte (keep : Char → Bool) (t : List UInt8) : Prop :=
  Past (fun b => keep (latin1 b)) t

/-- No character belongs to both classes. -/
def Apart (keep keep' : Char → Bool) : Prop :=
  ∀ c, keep c = true → keep' c = false

section Longest

variable {keep keep' : Char → Bool} {b : UInt8} {w whole places ds t : List UInt8}

theorem apart_eq {x : Char} (hx : keep x = false) : Apart (· == x) keep := by
  intro c hc
  rwa [beq_iff_eq.mp hc]

theorem apart_pair {x y : Char} (hx : keep x = false) (hy : keep y = false) :
    Apart (fun c => c == x || c == y) keep := by
  intro c hc
  rcases Bool.or_eq_true_iff.mp hc with hc | hc
  · rwa [beq_iff_eq.mp hc]
  · rwa [beq_iff_eq.mp hc]

theorem Apart.symm (h : Apart keep keep') : Apart keep' keep := by
  intro c hc
  refine Bool.eq_false_iff.mpr fun hkeep => ?_
  rw [h c hkeep] at hc
  cases hc

theorem Apart.past (h : Apart keep keep') (hb : keep (latin1 b) = true) :
    PastByte keep' (b :: t) :=
  past_cons (h _ hb)

theorem Apart.avoids (h : Apart keep keep') {M : Language UInt8} :
    Avoids (fun b => keep' (latin1 b)) (byteOf keep * M) :=
  avoids_one_mul fun b => h (latin1 b)

theorem isLongest_digits (hne : ds ≠ []) (hds : AllDigits ds) (ht : PastByte Char.isDigit t) :
    IsLongest digits ds (ds ++ t) := by
  obtain ⟨d, ds, rfl⟩ := List.exists_cons_of_ne_nil hne
  obtain ⟨hd, hds⟩ := List.forall_mem_cons.mp hds
  exact (isLongest_kstar hds ht).byteOf_mul Char.isDigit hd

theorem power_eq : power =
    byteOf isExponentMark * (digits + byteOf isSign * digits) := by
  rw [power, mul_assoc, add_mul, one_mul]

/-- What can follow the digits in front of a point. -/
def afterWhole : Language UInt8 :=
  (1 + power) + point * (digit∗ * (1 + power))

theorem numerals_eq : numerals =
    digit * (digit∗ * afterWhole) + point * (digit * (digit∗ * (1 + power))) + hexadecimals := by
  rw [numerals, digits, afterWhole]
  simp only [mul_assoc, add_mul, one_mul]

section Power

variable {sign : List UInt8}
  (hsign : sign = [] ∨ ∃ s, isSign (latin1 s) = true ∧ sign = [s])

include hsign

/-- A power of ten, with a sign or without one. -/
theorem isLongest_power (hb : isExponentMark (latin1 b) = true) (hne : ds ≠ [])
    (hds : AllDigits ds) (ht : PastByte Char.isDigit t) :
    IsLongest power (b :: (sign ++ ds)) (b :: (sign ++ (ds ++ t))) := by
  have hdigits := isLongest_digits hne hds ht
  have hapart : Apart isSign Char.isDigit := apart_pair rfl rfl
  rw [power_eq]
  refine IsLongest.byteOf_mul isExponentMark ?_ hb
  obtain rfl | ⟨s, hs, rfl⟩ := hsign
  · obtain ⟨d, ds, rfl⟩ := List.exists_cons_of_ne_nil hne
    have hpast : PastByte isSign (d :: (ds ++ t)) :=
      hapart.symm.past (List.forall_mem_cons.mp hds).1
    exact hdigits.add hpast.noPrefix_one_mul
  · have hpast : PastByte Char.isDigit (s :: (ds ++ t)) := hapart.past hs
    rw [add_comm]
    exact (hdigits.byteOf_mul isSign hs).add hpast.noPrefix_one_mul

/-- A power of ten needs digits. -/
theorem noPrefix_power (hpast : sign = [] → PastByte isSign t)
    (ht : PastByte Char.isDigit t) : NoPrefix power (b :: (sign ++ t)) := by
  have hdigits : NoPrefix digits t := ht.noPrefix_one_mul
  rw [power_eq]
  refine NoPrefix.one_mul ?_
  obtain rfl | ⟨s, hs, rfl⟩ := hsign
  · exact hdigits.add (hpast rfl).noPrefix_one_mul
  · have hapart : Apart isSign Char.isDigit := apart_pair rfl rfl
    have hpast : PastByte Char.isDigit (s :: t) := hapart.past hs
    exact hpast.noPrefix_one_mul.add hdigits.one_mul

end Power

theorem noPrefix_power_of_past (ht : PastByte isExponentMark t) : NoPrefix power t := by
  rw [power_eq]
  exact ht.noPrefix_one_mul

theorem avoids_power : Avoids (fun b => (latin1 b).isDigit) (1 + power) := by
  have hapart : Apart isExponentMark Char.isDigit := apart_pair rfl rfl
  rw [power_eq]
  exact avoids_one.add hapart.avoids

/-- A fraction goes on to its last digit and takes the power of ten behind it. -/
theorem isLongest_fraction (hplaces : AllDigits places) (ht : PastByte Char.isDigit t)
    (h : IsLongest (1 + power) w t) :
    IsLongest (digit∗ * (1 + power)) (places ++ w) (places ++ t) :=
  h.kstar_mul avoids_power hplaces ht

theorem isLongest_afterWhole_of_past (ht : PastByte (· == '.') t)
    (h : IsLongest (1 + power) w t) : IsLongest afterWhole w t :=
  h.add ht.noPrefix_one_mul

theorem isLongest_afterWhole_of_point (hb : latin1 b = '.')
    (h : IsLongest (digit∗ * (1 + power)) w t) : IsLongest afterWhole (b :: w) (b :: t) := by
  have hpast : PastByte isExponentMark (b :: t) := past_cons (by simp [hb, isExponentMark])
  have hnone := (noPrefix_power_of_past hpast).isLongest_one_add
  rw [afterWhole, add_comm]
  refine (h.byteOf_mul (· == '.') (beq_iff_eq.mpr hb)).add_of_le fun u hu hpre => ?_
  exact Nat.le_trans (hnone.length_le u hu hpre) (Nat.zero_le _)

/-- The digits in front of a point, and all that belongs to the number behind them. -/
theorem isLongest_decimal (hne : whole ≠ []) (hwhole : AllDigits whole)
    (ht : PastByte Char.isDigit t) (h : IsLongest afterWhole w t) :
    IsLongest (digit * (digit∗ * afterWhole) + point * (digit * (digit∗ * (1 + power))))
      (whole ++ w) (whole ++ t) := by
  have havoids : Avoids (fun b => (latin1 b).isDigit) afterWhole := by
    have hapart : Apart (· == '.') Char.isDigit := apart_eq rfl
    exact avoids_power.add hapart.avoids
  obtain ⟨d, whole, rfl⟩ := List.exists_cons_of_ne_nil hne
  obtain ⟨hd, hwhole⟩ := List.forall_mem_cons.mp hwhole
  have hpoint : PastByte (· == '.') (d :: (whole ++ t)) :=
    Apart.past (apart_eq rfl).symm hd
  exact ((h.kstar_mul havoids hwhole ht).byteOf_mul Char.isDigit hd).add hpoint.noPrefix_one_mul

/-- A number that begins with a point. -/
theorem isLongest_point (hb : latin1 b = '.') (hne : places ≠ []) (hplaces : AllDigits places)
    (ht : PastByte Char.isDigit t) (h : IsLongest (1 + power) w t) :
    IsLongest numerals (b :: (places ++ w)) (b :: (places ++ t)) := by
  obtain ⟨d, places, rfl⟩ := List.exists_cons_of_ne_nil hne
  obtain ⟨hd, hplaces⟩ := List.forall_mem_cons.mp hplaces
  have hdigit : PastByte Char.isDigit (b :: (d :: places ++ t)) := past_cons (by simp [hb])
  have hzero : PastByte (· == '0') (b :: (d :: places ++ t)) := past_cons (by simp [hb])
  have hdigits := (isLongest_fraction hplaces ht h).byteOf_mul Char.isDigit hd
  rw [numerals_eq, add_comm (digit * _), hexadecimals, mul_assoc]
  exact ((hdigits.byteOf_mul (· == '.') (beq_iff_eq.mpr hb)).add hdigit.noPrefix_one_mul).add
    hzero.noPrefix_one_mul

theorem hexadecimals_eq : hexadecimals =
    byteOf (· == '0') * (byteOf isHexMark * (byteOf isHex * (byteOf isHex)∗)) := by
  rw [hexadecimals, mul_assoc]

/-- Digits are no beginning of a hexadecimal number, but for a zero in front of the
mark. -/
theorem noPrefix_hexadecimals (hwhole : AllDigits whole) (hne : whole ≠ [])
    (h : ∀ z, whole = [z] → latin1 z = '0' → PastByte isHexMark t) :
    NoPrefix hexadecimals (whole ++ t) := by
  rw [hexadecimals_eq]
  obtain ⟨d, whole, rfl⟩ := List.exists_cons_of_ne_nil hne
  by_cases hd : latin1 d = '0'
  · refine NoPrefix.one_mul ?_
    cases whole with
    | nil => exact (h d rfl hd).noPrefix_one_mul
    | cons d' whole =>
        have hapart : Apart isHexMark Char.isDigit := apart_pair rfl rfl
        have hpast : PastByte isHexMark (d' :: (whole ++ t)) :=
          hapart.symm.past (hwhole d' (by simp))
        exact hpast.noPrefix_one_mul
  · have hpast : PastByte (· == '0') (d :: (whole ++ t)) := past_cons (by simp [hd])
    exact hpast.noPrefix_one_mul

section Hexadecimal

variable {z m : UInt8} (hz : latin1 z = '0') (hm : isHexMark (latin1 m) = true)

include hz hm

/-- In front of the mark of a hexadecimal number there is a decimal one, the zero. -/
theorem isLongest_zero :
    IsLongest (digit * (digit∗ * afterWhole) + point * (digit * (digit∗ * (1 + power))))
      [z] (z :: m :: t) := by
  have hdigit : Apart isHexMark Char.isDigit := apart_pair rfl rfl
  have hpoint : Apart isHexMark (· == '.') := apart_pair rfl rfl
  have hmark : Apart isHexMark isExponentMark := apart_pair rfl rfl
  have hnone := (noPrefix_power_of_past (hmark.past (t := t) hm)).isLongest_one_add
  have hwhole : AllDigits [z] := by simp [AllDigits, hz]
  exact isLongest_decimal (List.cons_ne_nil z []) hwhole (hdigit.past hm)
    (isLongest_afterWhole_of_past (hpoint.past hm) hnone)

theorem isLongest_hexadecimal (hne : ds ≠ []) (hds : ∀ b ∈ ds, isHex (latin1 b) = true)
    (ht : PastByte isHex t) : IsLongest numerals (z :: m :: ds) (z :: m :: (ds ++ t)) := by
  obtain ⟨d, ds, rfl⟩ := List.exists_cons_of_ne_nil hne
  obtain ⟨hd, hds⟩ := List.forall_mem_cons.mp hds
  have hhex := (((isLongest_kstar hds ht).byteOf_mul isHex hd).byteOf_mul isHexMark hm).byteOf_mul
    (· == '0') (beq_iff_eq.mpr hz)
  rw [numerals_eq, add_comm _ hexadecimals, hexadecimals_eq]
  refine hhex.add_of_le fun u hu hpre => ?_
  exact Nat.le_trans ((isLongest_zero hz hm).length_le u hu hpre) (by simp)

/-- Without digits behind the mark only the zero is a number. -/
theorem isLongest_zero_of_past (ht : PastByte isHex t) :
    IsLongest numerals [z] (z :: m :: t) := by
  rw [numerals_eq, hexadecimals_eq]
  exact (isLongest_zero hz hm).add ht.noPrefix_one_mul.one_mul.one_mul

end Hexadecimal

end Longest

/-! ### Lexemes -/

/-- A byte that continues a word. -/
def continuesWord (b : UInt8) : Bool :=
  isLatin1Letter b || (latin1 b).isDigit || latin1 b == '_'

/-- A byte that must not follow a number. -/
def spoilsNumber (b : UInt8) : Bool :=
  isLatin1Letter b || latin1 b == '_'

/-- The text `t` begins with the lexeme `w` of a token with the given name. -/
inductive Lexeme : (t w : List UInt8) → (name : String) → Prop
  | punctuation {b rest} (h : latin1 b ∈ ['+', '?', ':', '(', ')']) :
      Lexeme (b :: rest) [b] (String.singleton (latin1 b))
  | word {w rest name} (hname : name = "true" ∨ name = "false")
      (hw : w.map latin1 = name.toList) (hrest : Past continuesWord rest) :
      Lexeme (w ++ rest) w name
  | number {w rest} (hw : IsLongest numerals w (w ++ rest)) (hrest : Past spoilsNumber rest) :
      Lexeme (w ++ rest) w "number"

end TwoSorted
