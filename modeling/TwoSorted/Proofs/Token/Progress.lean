import TwoSorted.Token.Lexer

/-!
# Progress of the lexer

`c.Leads c'` says that reading some pieces leads from the cursor `c` to the
cursor `c'`, with the position moved on over exactly these pieces. Every part of
the lexer leads on from where it starts, and a scan that gives a token reads at
least one piece.
-/

namespace TwoSorted

namespace Cursor

/-- Reading some pieces leads from `c` to `c'`. -/
def Leads (c c' : Cursor) : Prop :=
  ∃ ps, c.rest = ps ++ c'.rest ∧ c'.position = advance c.position ps

@[refl] theorem Leads.refl (c : Cursor) : c.Leads c :=
  ⟨[], rfl, rfl⟩

theorem Leads.trans {c₁ c₂ c₃ : Cursor} (h : c₁.Leads c₂) (h' : c₂.Leads c₃) :
    c₁.Leads c₃ := by
  obtain ⟨ps, hrest, hposition⟩ := h
  obtain ⟨qs, hrest', hposition'⟩ := h'
  refine ⟨ps ++ qs, ?_, ?_⟩
  · rw [hrest, hrest', List.append_assoc]
  · rw [hposition', hposition, advance_append]

theorem Leads.length_le {c c' : Cursor} (h : c.Leads c') :
    c'.rest.length ≤ c.rest.length := by
  obtain ⟨ps, hrest, _⟩ := h
  simp [hrest]

/-- Reading the next piece leads on. -/
theorem leads_cons (p : Piece) (rest : List Piece) (q : Position) :
    Leads ⟨p :: rest, q⟩ ⟨rest, q.after p.read⟩ :=
  ⟨[p], rfl, rfl⟩

theorem span_leads (look : Lookahead) (keep : Char → Bool) (c : Cursor) :
    c.Leads (c.span look keep).2 :=
  ⟨_, List.takeWhile_append_dropWhile.symm, rfl⟩

theorem takeIf_leads (look : Lookahead) (keep : Char → Bool) (c : Cursor) :
    c.Leads (c.takeIf look keep).2 := by
  obtain ⟨rest, q⟩ := c
  cases rest with
  | nil => exact .refl _
  | cons p rest =>
      by_cases hkeep : keep (look p)
      · simp only [takeIf, hkeep, if_true]
        exact leads_cons p rest q
      · simp only [takeIf, hkeep]
        exact .refl _

theorem skipLayout_leads (look : Lookahead) (inComment : Bool) (q : Position)
    (ps : List Piece) : Leads ⟨ps, q⟩ (skipLayout look inComment q ps) := by
  induction ps generalizing inComment q with
  | nil => cases inComment <;> exact .refl _
  | cons p rest ih =>
      have honward : ∀ b, Leads ⟨p :: rest, q⟩ (skipLayout look b (q.after p.read) rest) :=
        fun b => (leads_cons p rest q).trans (ih b _)
      cases inComment with
      | false =>
          unfold skipLayout
          split
          · exact honward false
          · split
            · exact honward true
            · exact .refl _
      | true =>
          unfold skipLayout
          split
          · exact honward false
          · split
            · exact .refl _
            · exact honward true

end Cursor

namespace Numeral

theorem scanExponent_leads (look : Lookahead) (whole : List Char)
    (fraction : Option (List Char)) (c : Cursor) :
    c.Leads (scanExponent look whole fraction c).2.2 := by
  have hmark := c.takeIf_leads look isExponentMark
  unfold scanExponent
  dsimp only
  split
  · exact hmark
  · exact hmark.trans ((Cursor.takeIf_leads ..).trans (Cursor.span_leads ..))

theorem scanParts_leads (look : Lookahead) (first : Char) (c : Cursor) :
    c.Leads (scanParts look first c).2.2 := by
  have hdigits := c.span_leads look isDecimalDigit
  unfold scanParts
  dsimp only
  split
  · exact hdigits.trans (scanExponent_leads ..)
  · split
    · exact hdigits.trans ((Cursor.takeIf_leads ..).trans (Cursor.span_leads ..))
    · have hdot := hdigits.trans (Cursor.takeIf_leads look (· == '.') _)
      split
      · exact hdot.trans (scanExponent_leads ..)
      · exact hdot.trans ((Cursor.span_leads ..).trans (scanExponent_leads ..))

theorem scan_leads [Conversions] (look : Lookahead) (first : Char) (c : Cursor) :
    c.Leads (scan look first c).2 := by
  have hparts := scanParts_leads look first c
  unfold scan
  dsimp only
  split
  · exact hparts
  · split
    · exact hparts
    · split <;> exact hparts

end Numeral

/-- Behind the last piece of a text is its end, or a failure to read on. -/
theorem Ending.stop_cases (ending : Ending) (q : Position) :
    (ending.stop q).isEnd = true ∨
    ∃ why, why.isEnd = false ∧ ending.stop q = .lexical q (.unreadable why) := by
  cases ending with
  | endOfFile => exact .inl rfl
  | failure why =>
      cases hend : why.isEnd with
      | true => exact .inl (by simp [Ending.stop, hend, Stop.isEnd])
      | false => exact .inr ⟨why, hend, by simp [Ending.stop, hend]⟩

theorem Ending.eq_of_stop_endOfInput {ending : Ending} {q : Position}
    (h : ending.stop q = .endOfInput) : ending = .endOfFile := by
  cases ending with
  | endOfFile => rfl
  | failure why =>
      unfold Ending.stop at h
      dsimp only at h
      split at h <;> cases h

theorem Ending.eq_of_stop_brokenOff {ending : Ending} {q : Position} {why : ReadFailure}
    (h : ending.stop q = .brokenOff why) : ending = .failure why := by
  cases ending with
  | endOfFile => cases h
  | failure why' =>
      unfold Ending.stop at h
      dsimp only at h
      split at h <;> cases h
      rfl

/-- The stop passes for the end of the text exactly if that is among its causes. -/
def Stop.Honest : Stop → Prop
  | endOfInput => True
  | brokenOff why => why.isEnd = true
  | lexical _ fault => fault.isEnd = false
  | syntactic _ _ => True

theorem Ending.stop_honest (ending : Ending) (q : Position) : (ending.stop q).Honest := by
  cases ending with
  | endOfFile => trivial
  | failure why =>
      unfold Ending.stop
      dsimp only
      split
      next h => exact h
      next h => exact Bool.eq_false_iff.mpr h

namespace Lexer

theorem scanWord_leads (look : Lookahead) (first : Char) (c : Cursor) :
    c.Leads (scanWord look first c).2 := by
  have hspan := c.span_leads look isWordPart
  unfold scanWord
  dsimp only
  split <;> exact hspan

theorem scanNumber_leads [Conversions] (look : Lookahead) (first : Char) (c : Cursor) :
    c.Leads (scanNumber look first c).2 := by
  have hscan := Numeral.scan_leads look first c
  unfold scanNumber
  split <;> simp_all

theorem scanSymbol_leads [Conversions] (look : Lookahead) (first : Char) (c : Cursor) :
    c.Leads (scanSymbol look first c).2 := by
  unfold scanSymbol
  split
  · exact .refl _
  · split
    · exact scanNumber_leads ..
    · split
      · exact scanWord_leads ..
      · exact .refl _

theorem ofChar?_ne_endOfText (c : Char) : Symbol.ofChar? c ≠ some .endOfText := by
  unfold Symbol.ofChar?
  split <;> simp

theorem ofWord?_ne_endOfText (w : List Char) : Symbol.ofWord? w ≠ some .endOfText := by
  unfold Symbol.ofWord?
  split
  · simp
  · split <;> simp

variable [Conversions]

/-- No characters spell the end of the text. -/
theorem scanSymbol_ne_endOfText (look : Lookahead) (first : Char) (c : Cursor) :
    (scanSymbol look first c).1 ≠ .ok .endOfText := by
  unfold scanSymbol
  split
  · rename_i s hs
    rintro ⟨rfl⟩
    exact ofChar?_ne_endOfText first hs
  · split
    · unfold scanNumber
      split <;> simp
    · split
      · unfold scanWord
        dsimp only
        split
        · rename_i s hs
          rintro ⟨rfl⟩
          exact ofWord?_ne_endOfText _ hs
        · simp
      · simp

/-- No characters are a reason not to read on. -/
theorem scanSymbol_ne_unreadable (look : Lookahead) (first : Char) (c : Cursor)
    (why : ReadFailure) : (scanSymbol look first c).1 ≠ .error (.unreadable why) := by
  unfold scanSymbol
  split
  · simp
  · split
    · unfold scanNumber
      split <;> simp
    · split
      · unfold scanWord
        dsimp only
        split <;> simp
      · simp

/-- What a scan comes to: the end of the text, a token, or a fault, in the
last two cases with at least one piece read. -/
theorem scan_cases (look : Lookahead) (ending : Ending) (c : Cursor) :
    (∃ q, scan look ending c = (.error (ending.stop q), ⟨[], q⟩) ∧ c.Leads ⟨[], q⟩) ∨
    (∃ t c', scan look ending c = (.ok t, c') ∧ t.symbol ≠ .endOfText ∧
      c.Leads c' ∧ c'.rest.length < c.rest.length) ∨
    ∃ fault c', scan look ending c = (.error (.lexical c'.position fault), c') ∧
      c.Leads c' ∧ c'.rest.length < c.rest.length := by
  have hskip := Cursor.skipLayout_leads look false c.position c.rest
  rcases hc : Cursor.skipLayout look false c.position c.rest with ⟨rest, q⟩
  rw [hc] at hskip
  cases rest with
  | nil => exact .inl ⟨q, by simp only [scan, hc], hskip⟩
  | cons p rest =>
      right
      have hread := hskip.trans (Cursor.leads_cons p rest q)
      have hsymbol := scanSymbol_leads look p.read ⟨rest, q.after p.read⟩
      have hne := scanSymbol_ne_endOfText look p.read ⟨rest, q.after p.read⟩
      have hlt : (scanSymbol look p.read ⟨rest, q.after p.read⟩).2.rest.length <
          c.rest.length := by
        have hle := hskip.length_le
        have hle' := hsymbol.length_le
        simp only [List.length_cons] at hle hle'
        omega
      rcases hs : scanSymbol look p.read ⟨rest, q.after p.read⟩ with ⟨fault | s, c'⟩ <;>
        rw [hs] at hsymbol hlt hne
      · exact .inr ⟨fault, c', by simp only [scan, hc, hs], hread.trans hsymbol, hlt⟩
      · refine .inl ⟨⟨s, q.after p.read⟩, c', by simp only [scan, hc, hs], ?_,
          hread.trans hsymbol, hlt⟩
        rintro rfl
        exact hne rfl

theorem scan_honest {look : Lookahead} {ending : Ending} {c c' : Cursor} {stop : Stop}
    (h : scan look ending c = (.error stop, c')) : stop.Honest := by
  rcases hc : Cursor.skipLayout look false c.position c.rest with ⟨_ | ⟨p, rest⟩, q⟩
  · simp only [scan, hc] at h
    cases h
    exact ending.stop_honest q
  · have hne := scanSymbol_ne_unreadable look p.read ⟨rest, q.after p.read⟩
    rcases hs : scanSymbol look p.read ⟨rest, q.after p.read⟩ with ⟨fault | s, c''⟩ <;>
      simp only [scan, hc, hs] at h <;> cases h
    rw [hs] at hne
    cases fault with
    | unreadable why => exact absurd rfl (hne why)
    | _ => rfl

/-- A token has the position that the lexer reaches with its first character. -/
theorem scan_leads_token {look : Lookahead} {ending : Ending} {c c' : Cursor} {t : Token}
    (h : scan look ending c = (.ok t, c')) : ∃ rest, c.Leads ⟨rest, t.position⟩ := by
  have hskip := Cursor.skipLayout_leads look false c.position c.rest
  rcases hc : Cursor.skipLayout look false c.position c.rest with ⟨rest, q⟩
  rw [hc] at hskip
  cases rest with
  | nil => simp [scan, hc] at h
  | cons p rest =>
      refine ⟨rest, hskip.trans ?_⟩
      rcases hs : scanSymbol look p.read ⟨rest, q.after p.read⟩ with ⟨fault | s, c''⟩ <;>
        simp only [scan, hc, hs] at h <;> cases h
      exact Cursor.leads_cons p rest q

theorem scan_leads (look : Lookahead) (ending : Ending) (c : Cursor) :
    c.Leads (scan look ending c).2 := by
  obtain ⟨q, hscan, hleads⟩ | ⟨t, c', hscan, _, hleads, _⟩ | ⟨fault, c', hscan, hleads, _⟩ :=
    scan_cases look ending c
  · rw [hscan]
    exact hleads
  · rw [hscan]
    exact hleads
  · rw [hscan]
    exact hleads

/-- At the end of a text a scan stays where it is. -/
theorem scan_nil (look : Lookahead) (ending : Ending) (q : Position) :
    scan look ending ⟨[], q⟩ = (.error (ending.stop q), ⟨[], q⟩) := rfl

end Lexer

end TwoSorted
