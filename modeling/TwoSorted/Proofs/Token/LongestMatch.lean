import TwoSorted.Proofs.Token.LongestNumber
import TwoSorted.Proofs.Token.Yield

/-!
# The lexer takes the longest match

A token is read if and only if a lexeme begins behind the white space and the comments,
and then the lexeme is read and nothing else (`Lexer.next_longest_match`). The words are
found by their bytes, though the lexer reads them piece by piece: a piece from `0x80` on
is part of no word that has a meaning.
-/

namespace TwoSorted

/-! ### Words -/

theorem continuesWord_eq : continuesWord = fun b => Lexer.isWordPart (latin1 b) := by
  funext b
  rw [continuesWord, Lexer.isWordPart, isLetter_latin1, isDecimalDigit_latin1]

/-- A run that is read as characters below `0x80` consists of their bytes. -/
theorem exists_run {keep : Char → Bool} (t : List UInt8)
    (h : ∀ c ∈ ((pieces t).takeWhile fun p => keep (Lookahead.byte p)).map Piece.read,
      c.toNat < 0x80) :
    ∃ u rest, t = u ++ rest ∧ PastByte keep rest ∧ u.map latin1 =
      ((pieces t).takeWhile fun p => keep (Lookahead.byte p)).map Piece.read := by
  induction t using pieces_induction with
  | nil => exact ⟨[], [], rfl, past_nil, rfl⟩
  | narrow a rest ha ih =>
      have hlook := Lookahead.byte_char (toNat_latin1_lt ha)
      rw [pieces_cons_narrow ha] at h ⊢
      cases hkeep : keep (latin1 a) with
      | true =>
          simp only [List.takeWhile_cons, hlook, hkeep, if_true, List.map_cons] at h ⊢
          obtain ⟨u, rest, rfl, hrest, hu⟩ := ih (List.forall_mem_cons.mp h).2
          exact ⟨a :: u, rest, rfl, hrest, by rw [List.map_cons, hu]; rfl⟩
      | false =>
          exact ⟨[], a :: rest, rfl, past_cons hkeep, by simp [hlook, hkeep]⟩
  | wide p rest hp hpieces ih =>
      rw [hpieces] at h ⊢
      cases hkeep : keep (Lookahead.byte p) with
      | true =>
          simp only [List.takeWhile_cons, hkeep, if_true, List.map_cons] at h
          exact absurd (List.forall_mem_cons.mp h).1 (Nat.not_lt.mpr hp.le_read)
      | false =>
          refine ⟨[], p.bytes ++ rest, rfl, ?_, by simp [hkeep]⟩
          intro b t ht
          obtain ⟨p', ps, hpieces', hlook⟩ := exists_pieces_cons b t
          rw [← ht, hpieces] at hpieces'
          cases hpieces'
          rwa [hlook] at hkeep

namespace Lexer

open Lookahead

theorem ofWord?_eq_some_iff {w : List Char} {s : Symbol} :
    Symbol.ofWord? w = some s ↔
      w = "true".toList ∧ s = .bool true ∨ w = "false".toList ∧ s = .bool false := by
  have htrue : "true".toList = ['t', 'r', 'u', 'e'] := rfl
  have hfalse : "false".toList = ['f', 'a', 'l', 's', 'e'] := rfl
  rw [htrue, hfalse, Symbol.ofWord?]
  split
  · rename_i hw
    simp [hw, eq_comm]
  · rename_i hw
    split
    · rename_i hw'
      simp [hw', eq_comm]
    · rename_i hw'
      simp [hw, hw']

theorem isWordPart_of_ofWord? {w : List Char} {s : Symbol} (h : Symbol.ofWord? w = some s) :
    ∀ x ∈ w, isWordPart x = true := by
  obtain ⟨rfl, _⟩ | ⟨rfl, _⟩ := ofWord?_eq_some_iff.mp h <;> simp [isWordPart, isLetter]

section Words

variable {b : UInt8} {s : Symbol}

/-- A word with a meaning is read if no byte follows that could continue it. -/
theorem scanWord_of_past {more rest : List UInt8}
    (hword : Symbol.ofWord? ((b :: more).map latin1) = some s)
    (hrest : Past continuesWord rest) (q : Position) :
    ∃ q', scanWord byte (latin1 b) ⟨pieces (more ++ rest), q⟩ = (.ok s, ⟨pieces rest, q'⟩) := by
  have hnarrow := (List.forall_mem_cons.mp (Symbol.toNat_lt_of_ofWord? hword)).2
  have hparts := (List.forall_mem_cons.mp (isWordPart_of_ofWord? hword)).2
  have hmore : ∀ b ∈ more, b < 0x80 := by
    intro b hb
    rw [UInt8.lt_iff_toNat_lt, ← toNat_latin1]
    exact hnarrow _ (List.mem_map_of_mem hb)
  rw [continuesWord_eq] at hrest
  have hend : isWordPart (byte.ahead (pieces rest)) = false := PastByte.ahead hrest rfl
  obtain ⟨q', hspan⟩ := Cursor.span_chars (fun c hc => ⟨hnarrow c hc, hparts c hc⟩) hend q
  rw [pieces_append_narrow hmore]
  exact ⟨q', scanWord_eq_ok_iff.mpr ⟨_, hspan, hword⟩⟩

theorem exists_of_scanWord {t : List UInt8} {q : Position} {c : Cursor}
    (h : scanWord byte (latin1 b) ⟨pieces t, q⟩ = (.ok s, c)) :
    ∃ more rest, t = more ++ rest ∧ Past continuesWord rest ∧
      Symbol.ofWord? ((b :: more).map latin1) = some s := by
  obtain ⟨read, hspan, hword⟩ := scanWord_eq_ok_iff.mp h
  have hread := congrArg Prod.fst hspan
  dsimp only [Cursor.span] at hread
  have hnarrow := (List.forall_mem_cons.mp (Symbol.toNat_lt_of_ofWord? hword)).2
  rw [← hread] at hnarrow
  obtain ⟨more, rest, ht, hrest, hmore⟩ := exists_run t hnarrow
  rw [continuesWord_eq]
  exact ⟨more, rest, ht, hrest, by rwa [List.map_cons, hmore, hread]⟩

end Words

/-! ### Tokens -/

theorem mem_of_ofChar? {c : Char} {s : Symbol} (h : Symbol.ofChar? c = some s) :
    c ∈ ['+', '?', ':', '(', ')'] ∧ s.name = String.singleton c := by
  unfold Symbol.ofChar? at h
  split at h <;> cases h <;> decide

theorem exists_ofChar? {c : Char} (h : c ∈ ['+', '?', ':', '(', ')']) :
    ∃ s, Symbol.ofChar? c = some s := by
  simp only [List.mem_cons, List.not_mem_nil, or_false] at h
  rcases h with rfl | rfl | rfl | rfl | rfl <;> exact ⟨_, rfl⟩

theorem starts_of_mem_numerals {w : List UInt8} (h : w ∈ numerals) (rest : List UInt8) :
    ∃ b t, w ++ rest = b :: t ∧ Numeral.Starts b t := by
  rw [numerals_eq, hexadecimals_eq] at h
  rcases h with (h | h) | h
  · obtain ⟨b, v, hb, _, rfl⟩ := mem_one_mul.mp h
    exact ⟨b, v ++ rest, rfl, .inl hb⟩
  · obtain ⟨b, v, hb, hv, rfl⟩ := mem_one_mul.mp h
    obtain ⟨d, v, hd, _, rfl⟩ := mem_one_mul.mp hv
    refine ⟨b, d :: v ++ rest, rfl, .inr ⟨beq_iff_eq.mp hb, fun hpast => ?_⟩⟩
    have hnone := hpast d (v ++ rest) rfl
    simp [hd] at hnone
  · obtain ⟨b, v, hb, _, rfl⟩ := mem_one_mul.mp h
    exact ⟨b, v ++ rest, rfl, .inl (by rw [beq_iff_eq.mp hb]; rfl)⟩

theorem starts_iff {b : UInt8} {t : List UInt8} :
    (isDecimalDigit (latin1 b) ||
      (latin1 b == '.' && isDecimalDigit (byte.ahead (pieces t)))) = true ↔
      Numeral.Starts b t := by
  have hahead : isDecimalDigit (byte.ahead (pieces t)) = true ↔ ¬ PastByte Char.isDigit t := by
    cases t with
    | nil => exact ⟨nofun, fun h => absurd past_nil h⟩
    | cons d t =>
        rw [ahead_pieces_cons, isDecimalDigit_latin1, ← Bool.not_eq_false]
        exact not_congr ⟨fun h => past_cons h, fun h => h d t rfl⟩
  rw [Bool.or_eq_true_iff, Bool.and_eq_true_iff, isDecimalDigit_latin1, beq_iff_eq, hahead]
  rfl

/-- Where a number begins nothing else does. -/
theorem scanSymbol_of_starts [Conversions] {b : UInt8} {t : List UInt8} (h : Numeral.Starts b t)
    (q : Position) :
    scanSymbol byte (latin1 b) ⟨pieces t, q⟩ = scanNumber byte (latin1 b) ⟨pieces t, q⟩ := by
  have hnone : Symbol.ofChar? (latin1 b) = none := by
    refine Option.eq_none_iff_forall_ne_some.mpr fun s hs => ?_
    have hmem := (mem_of_ofChar? hs).1
    simp only [List.mem_cons, List.not_mem_nil, or_false] at hmem
    rcases h with h | ⟨h, _⟩ <;> rcases hmem with hmem | hmem | hmem | hmem | hmem <;>
      simp [hmem] at h
  simp only [scanSymbol, hnone, starts_iff.mpr h, if_true]

theorem scanSymbol_of_ofWord? [Conversions] {first : Char} {more : List Char} {s : Symbol}
    (h : Symbol.ofWord? (first :: more) = some s) (c : Cursor) :
    scanSymbol byte first c = scanWord byte first c := by
  obtain ⟨hw, _⟩ | ⟨hw, _⟩ := ofWord?_eq_some_iff.mp h <;> cases hw <;> rfl

/-- The longest number is read as the value of its parts. -/
theorem scanSymbol_of_number [Conversions] {b : UInt8} {t w rest : List UInt8}
    (hw : IsLongest numerals w (w ++ rest)) (hrest : Past spoilsNumber rest)
    (htext : w ++ rest = b :: t) (q : Position) :
    ∃ n v q', Numeral.Spells w n ∧ n.value? = some v ∧
      scanSymbol byte (latin1 b) ⟨pieces t, q⟩ = (.ok (.number v), ⟨pieces rest, q'⟩) := by
  obtain ⟨_, _, heq, hstarts⟩ := starts_of_mem_numerals hw.mem rest
  rw [htext] at heq hw
  cases heq
  obtain ⟨w', rest', ht, hw', hscan, _⟩ := Numeral.scan_pieces hstarts q
  obtain rfl := hw.unique hw'
  obtain rfl := List.append_cancel_left (htext.trans ht)
  obtain ⟨n, v, q', hn, hv, hscan⟩ := hscan hrest
  refine ⟨n, v, q', hn, hv, ?_⟩
  rw [scanSymbol_of_starts hstarts]
  exact scanNumber_eq_ok_iff.mpr ⟨v, hscan, rfl⟩

/-- The lexeme with which a text begins is read as its token. -/
theorem scanSymbol_of_lexeme [Conversions] {b : UInt8} {t w : List UInt8} {name : String}
    (h : Lexeme (b :: t) w name) (q : Position) :
    ∃ s rest q', b :: t = w ++ rest ∧ s.name = name ∧
      scanSymbol byte (latin1 b) ⟨pieces t, q⟩ = (.ok s, ⟨pieces rest, q'⟩) := by
  generalize htext : b :: t = text at h
  cases h with
  | punctuation hmem =>
      cases htext
      obtain ⟨s, hs⟩ := exists_ofChar? hmem
      exact ⟨s, t, q, rfl, (mem_of_ofChar? hs).2, by simp only [scanSymbol, hs]⟩
  | word hname hw hrest =>
      rename_i rest
      obtain ⟨v, rfl, hword⟩ : ∃ v, name = (Symbol.bool v).name ∧
          Symbol.ofWord? (w.map latin1) = some (.bool v) := by
        rcases hname with rfl | rfl
        · exact ⟨true, rfl, ofWord?_eq_some_iff.mpr (.inl ⟨hw, rfl⟩)⟩
        · exact ⟨false, rfl, ofWord?_eq_some_iff.mpr (.inr ⟨hw, rfl⟩)⟩
      cases w with
      | nil => cases hword
      | cons b' more =>
          cases htext
          obtain ⟨q', hscan⟩ := scanWord_of_past hword hrest q
          exact ⟨.bool v, rest, q', rfl, rfl, (scanSymbol_of_ofWord? hword _).trans hscan⟩
  | number hw hrest =>
      rename_i rest
      obtain ⟨n, v, q', _, _, hscan⟩ := scanSymbol_of_number hw hrest htext.symm q
      exact ⟨.number v, rest, q', rfl, rfl, hscan⟩

/-- Where a token is read there is a lexeme. -/
theorem exists_lexeme [Conversions] {b : UInt8} {t : List UInt8} {s : Symbol} {q : Position}
    {c : Cursor} (h : scanSymbol byte (latin1 b) ⟨pieces t, q⟩ = (.ok s, c)) :
    ∃ w name, Lexeme (b :: t) w name := by
  unfold scanSymbol at h
  split at h
  · rename_i s' hs
    exact ⟨_, _, .punctuation (mem_of_ofChar? hs).1⟩
  · split at h
    · rename_i hstarts
      obtain ⟨v, hv, _⟩ := scanNumber_eq_ok_iff.mp h
      obtain ⟨w, rest, ht, hw, _, hnot⟩ := Numeral.scan_pieces (starts_iff.mp hstarts) q
      have hrest : Past spoilsNumber rest := not_not.mp fun hrest => hnot hrest v c hv
      rw [ht] at hw ⊢
      exact ⟨w, _, .number hw hrest⟩
    · split at h
      · obtain ⟨more, rest, rfl, hrest, hword⟩ := exists_of_scanWord h
        obtain ⟨hw, _⟩ | ⟨hw, _⟩ := ofWord?_eq_some_iff.mp hword
        · exact ⟨b :: more, _, .word (.inl rfl) hw hrest⟩
        · exact ⟨b :: more, _, .word (.inr rfl) hw hrest⟩
      · cases h

/-- No token begins with a byte from `0x80` on. -/
theorem lt_of_lexeme {b : UInt8} {t w : List UInt8} {name : String}
    (h : Lexeme (b :: t) w name) : b < 0x80 := by
  obtain ⟨s, rest, q', _, _, hscan⟩ := scanSymbol_of_lexeme h Position.start
  refine UInt8.not_le.mp fun hb => ?_
  have hwide : 0x80 ≤ (latin1 b).toNat := by
    rw [toNat_latin1]
    exact UInt8.le_iff_toNat_le.mp hb
  exact scanSymbol_ne_ok hwide s hscan

theorem not_lexeme_nil (w : List UInt8) (name : String) : ¬ Lexeme [] w name := by
  intro h
  generalize htext : [] = text at h
  cases h with
  | punctuation => cases htext
  | word hname hw hrest =>
      obtain ⟨rfl, _⟩ := List.append_eq_nil_iff.mp htext.symm
      rcases hname with rfl | rfl <;> cases hw
  | number hw hrest =>
      obtain ⟨b, t, heq, _⟩ := starts_of_mem_numerals hw.mem _
      rw [← htext] at heq
      cases heq

/-- The bytes of a lexeme are below `0x80`. -/
theorem lt_of_mem_lexeme {t w : List UInt8} {name : String} (h : Lexeme t w name) :
    ∀ b ∈ w, b < 0x80 := by
  have hlt {b : UInt8} (hb : (latin1 b).toNat < 0x80) : b < 0x80 := by
    rw [UInt8.lt_iff_toNat_lt, ← toNat_latin1]
    exact hb
  cases h with
  | punctuation hmem =>
      obtain ⟨s, hs⟩ := exists_ofChar? hmem
      exact List.forall_mem_singleton.mpr (hlt (Symbol.toNat_lt_of_ofChar? hs))
  | word hname hw _ =>
      have hword : ∃ s, Symbol.ofWord? (w.map latin1) = some s := by
        rcases hname with rfl | rfl
        · exact ⟨_, ofWord?_eq_some_iff.mpr (.inl ⟨hw, rfl⟩)⟩
        · exact ⟨_, ofWord?_eq_some_iff.mpr (.inr ⟨hw, rfl⟩)⟩
      obtain ⟨s, hs⟩ := hword
      exact fun b hb => hlt (Symbol.toNat_lt_of_ofWord? hs _ (List.mem_map_of_mem hb))
  | number hw hrest =>
      obtain ⟨b, t, htext, _⟩ := starts_of_mem_numerals hw.mem _
      obtain ⟨n, v, q', hn, _⟩ := scanSymbol_of_number hw hrest htext .start
      exact hn.lt

/-- The lexer in front of the bytes of `r`, with no token put back. -/
def before (r : List UInt8) (ending : Ending) (q : Position) : Lexer :=
  ⟨byte, ending, ⟨pieces r, q⟩, []⟩

variable [Conversions]

section Next

variable {r t : List UInt8} {b : UInt8} {ending : Ending} {q q' : Position}

theorem next_before_nil (hskip : Cursor.skipLayout byte false q (pieces r) = ⟨pieces [], q'⟩) :
    (before r ending q).next = (.error (ending.stop q'), before [] ending q') := by
  have hscan : scan byte ending ⟨pieces r, q⟩ = (.error (ending.stop q'), ⟨[], q'⟩) := by
    simp only [scan, hskip, pieces_nil]
  exact next_of_scan rfl hscan

/-- The token behind white space and comments is what is read. -/
theorem next_of_scanSymbol
    (hskip : Cursor.skipLayout byte false q (pieces r) = ⟨pieces (b :: t), q'⟩) (hb : b < 0x80)
    {s : Symbol} {rest : List UInt8} {q'' : Position}
    (hsymbol : scanSymbol byte (latin1 b) ⟨pieces t, q'.after (latin1 b)⟩ =
      (.ok s, ⟨pieces rest, q''⟩)) :
    (before r ending q).next = (.ok ⟨s, q'.after (latin1 b)⟩, before rest ending q'') := by
  have hscan : scan byte ending ⟨pieces r, q⟩ =
      (.ok ⟨s, q'.after (latin1 b)⟩, ⟨pieces rest, q''⟩) := by
    simp only [scan, hskip, pieces_cons_narrow hb, Piece.read_char, hsymbol]
  exact next_of_scan rfl hscan

theorem next_of_lexeme
    (hskip : Cursor.skipLayout byte false q (pieces r) = ⟨pieces (b :: t), q'⟩)
    {w : List UInt8} {name : String} (h : Lexeme (b :: t) w name) :
    ∃ tok rest q'', b :: t = w ++ rest ∧ tok.symbol.name = name ∧
      (before r ending q).next = (.ok tok, before rest ending q'') := by
  obtain ⟨s, rest, q'', ht, hname, hsymbol⟩ := scanSymbol_of_lexeme h (q'.after (latin1 b))
  exact ⟨_, rest, q'', ht, hname, next_of_scanSymbol hskip (lt_of_lexeme h) hsymbol⟩

/-- Without a lexeme there is a fault. -/
theorem next_of_not_lexeme
    (hskip : Cursor.skipLayout byte false q (pieces r) = ⟨pieces (b :: t), q'⟩)
    (h : ¬ ∃ w name, Lexeme (b :: t) w name) :
    ∃ q'' fault, (before r ending q).next.1 = .error (.lexical q'' fault) := by
  obtain ⟨p, ps, hpieces, hlook⟩ := exists_pieces_cons b t
  rcases hsymbol : scanSymbol byte p.read ⟨ps, q'.after p.read⟩ with ⟨fault | s, c⟩
  · have hscan : scan byte ending ⟨pieces r, q⟩ = (.error (.lexical c.position fault), c) := by
      simp only [scan, hskip, hpieces, hsymbol]
    exact ⟨c.position, fault, by rw [next_of_scan (l := before r ending q) rfl hscan]⟩
  · rcases UInt8.lt_or_le b 0x80 with hb | hb
    · rw [pieces_cons_narrow hb] at hpieces
      cases hpieces
      exact absurd (exists_lexeme hsymbol) h
    · have hfair := byte_fair (b :: t) p (by rw [hpieces]; exact List.mem_cons_self)
      have hwide : 0x80 ≤ (byte p).toNat := by
        rw [hlook, toNat_latin1]
        exact UInt8.le_iff_toNat_le.mp hb
      refine absurd hsymbol (scanSymbol_ne_ok ?_ s)
      refine Nat.not_lt.mp fun hread => ?_
      rw [hfair.eq_read hread] at hwide
      exact Nat.not_le.mpr hread hwide

/-- What there is of a text that a token is read from. -/
theorem exists_of_next_before {tok : Token} (h : (before r ending q).next.1 = .ok tok) :
    ∃ skipped b t w rest q' q'', r = skipped ++ b :: t ∧ IsLongest layout skipped r ∧
      b :: t = w ++ rest ∧ Lexeme (b :: t) w tok.symbol.name ∧
      Cursor.skipLayout byte false q (pieces r) = ⟨pieces (b :: t), q'⟩ ∧
      scanSymbol byte (latin1 b) ⟨pieces t, q'.after (latin1 b)⟩ =
        (.ok tok.symbol, ⟨pieces rest, q''⟩) ∧
      (before r ending q).next = (.ok tok, before rest ending q'') ∧
      tok.position = q'.after (latin1 b) := by
  obtain ⟨skipped, t, q', hr, hskipped, hskip⟩ := (skips r).1 q
  cases t with
  | nil =>
      rw [next_before_nil hskip] at h
      cases h
  | cons b t =>
      by_cases hlexeme : ∃ w name, Lexeme (b :: t) w name
      · obtain ⟨w, name, hlexeme⟩ := hlexeme
        obtain ⟨s, rest, q'', ht, rfl, hsymbol⟩ :=
          scanSymbol_of_lexeme hlexeme (q'.after (latin1 b))
        have hnext : (before r ending q).next = _ :=
          next_of_scanSymbol hskip (lt_of_lexeme hlexeme) hsymbol
        rw [hnext] at h
        cases h
        exact ⟨skipped, b, t, w, rest, q', q'', hr, hskipped, ht, hlexeme, hskip, hsymbol, hnext,
          rfl⟩
      · obtain ⟨q'', fault, hfault⟩ := next_of_not_lexeme hskip hlexeme
        rw [hfault] at h
        cases h

end Next

/-- The lexer takes the longest match. What it skips is the longest prefix of white space
and comments. If nothing is left then, that is the end. Otherwise there is a token if and
only if a lexeme begins there; the token is named for it, and the lexer goes on behind it.
In all other cases there is a fault of the characters. -/
theorem next_longest_match (r : List UInt8) (ending : Ending) (q : Position) :
    ∃ skipped t, r = skipped ++ t ∧ IsLongest layout skipped r ∧
      (t = [] → ending = .endOfFile → (before r ending q).next.1 = .error .endOfInput) ∧
      ((∃ tok, (before r ending q).next.1 = .ok tok) ↔ ∃ w name, Lexeme t w name) ∧
      (∀ w name, Lexeme t w name → ∃ tok rest q', t = w ++ rest ∧ tok.symbol.name = name ∧
        (before r ending q).next = (.ok tok, before rest ending q')) ∧
      (t ≠ [] → (¬ ∃ w name, Lexeme t w name) →
        ∃ q' fault, (before r ending q).next.1 = .error (.lexical q' fault)) := by
  obtain ⟨skipped, t, q', hr, hskipped, hskip⟩ := (skips r).1 q
  refine ⟨skipped, t, hr, hskipped, ?_⟩
  cases t with
  | nil =>
      have hnone : ¬ ∃ w name, Lexeme [] w name := fun ⟨w, name, h⟩ => not_lexeme_nil w name h
      rw [next_before_nil hskip]
      refine ⟨?_, ?_, fun w name h => absurd h (not_lexeme_nil w name), fun h => absurd rfl h⟩
      · rintro _ rfl
        rfl
      · exact ⟨nofun, fun h => absurd h hnone⟩
  | cons b t =>
      refine ⟨nofun, ⟨fun ⟨tok, htok⟩ => ?_, ?_⟩, fun w name => next_of_lexeme hskip,
        fun _ => next_of_not_lexeme hskip⟩
      · refine not_not.mp fun hnone => ?_
        obtain ⟨q'', fault, hfault⟩ := next_of_not_lexeme hskip hnone
        rw [hfault] at htok
        cases htok
      · rintro ⟨w, name, h⟩
        obtain ⟨tok, rest, q'', _, _, hnext⟩ := next_of_lexeme hskip h
        exact ⟨tok, by rw [hnext]⟩

end Lexer

end TwoSorted
