import TwoSorted.Parse
import TwoSorted.Proofs.Parser.Stream
import TwoSorted.Proofs.Token.Progress

/-!
# The tokens that a text yields

`l.Yields ts stop l'` says that the lexer `l`, asked for one token after another,
gives the tokens `ts` and then stops with `stop`, by which time it has become
`l'`. The parser sees no more of a lexer than that: on a lexer it gives the same
answer as on the stream of these tokens (`parse_eq_program`).
-/

namespace TwoSorted

variable [Conversions]

namespace Lexer

/-- The tokens that come before the first stop, the stop, and the lexer then. -/
inductive Yields : Lexer → List Token → Stop → Lexer → Prop
  | stopped {l stop l'} (h : l.next = (.error stop, l')) : Yields l [] stop l'
  | token {l t l₁ ts stop l'} (h : l.next = (.ok t, l₁)) (hrest : Yields l₁ ts stop l') :
      Yields l (t :: ts) stop l'

theorem Yields.of_next {l l' : Lexer} {t : Token} {ts : List Token} {stop : Stop}
    (h : l.next.1 = .ok t) (hrest : l.next.2.Yields ts stop l') : l.Yields (t :: ts) stop l' :=
  .token (Prod.ext h rfl) hrest

theorem Yields.of_next_error {l : Lexer} {stop : Stop} (h : l.next.1 = .error stop) :
    l.Yields [] stop l.next.2 :=
  .stopped (Prod.ext h rfl)

/-- The number of tokens held and of pieces left. -/
def size (l : Lexer) : Nat :=
  l.held.length + l.cursor.rest.length

/-! ### One token -/

theorem next_of_held {l : Lexer} {t : Token} {held : List Token}
    (h : l.held = t :: held) : l.next = (.ok t, { l with held := held }) := by
  simp only [next, h]

theorem next_of_scan {l : Lexer} (h : l.held = []) {answer : Except Stop Token}
    {c : Cursor} (hscan : scan l.look l.ending l.cursor = (answer, c)) :
    l.next = (answer, { l with cursor := c }) := by
  simp only [next, h, hscan]

theorem scan_of_next {l l' : Lexer} (h : l.held = []) {answer : Except Stop Token}
    (hnext : l.next = (answer, l')) :
    ∃ c, scan l.look l.ending l.cursor = (answer, c) ∧ l.cursor.Leads c ∧
      l' = { l with cursor := c } := by
  have hleads := scan_leads l.look l.ending l.cursor
  rcases hscan : scan l.look l.ending l.cursor with ⟨answer', c⟩
  rw [hscan] at hleads
  rw [next_of_scan h hscan] at hnext
  cases hnext
  exact ⟨c, rfl, hleads, rfl⟩

theorem held_next (l : Lexer) : l.next.2.held = l.held.tail := by
  cases hheld : l.held with
  | cons t held => rw [next_of_held hheld, List.tail_cons]
  | nil =>
      rcases hscan : scan l.look l.ending l.cursor with ⟨answer, c⟩
      rw [next_of_scan hheld hscan]
      exact hheld

/-- What a lexer that holds no tokens does next: it is at the end of its text, or
it reads a token, or a fault. -/
theorem next_cases {l : Lexer} (h : l.held = []) :
    (∃ q, l.next = (.error (l.ending.stop q), { l with cursor := ⟨[], q⟩ })) ∨
    (∃ t c, l.next = (.ok t, { l with cursor := c }) ∧ t.symbol ≠ .endOfText ∧
      c.rest.length < l.cursor.rest.length) ∨
    ∃ fault c, l.next = (.error (.lexical c.position fault), { l with cursor := c }) := by
  obtain ⟨q, hscan, _⟩ | ⟨t, c, hscan, ht, _, hlt⟩ | ⟨fault, c, hscan, _⟩ :=
    scan_cases l.look l.ending l.cursor
  · exact .inl ⟨q, next_of_scan h hscan⟩
  · exact .inr (.inl ⟨t, c, next_of_scan h hscan, ht, hlt⟩)
  · exact .inr (.inr ⟨fault, c, next_of_scan h hscan⟩)

theorem held_of_next_error {l l' : Lexer} {stop : Stop}
    (h : l.next = (.error stop, l')) : l.held = [] := by
  cases hheld : l.held with
  | nil => rfl
  | cons t held =>
      rw [next_of_held hheld] at h
      cases h

section AtEnd

variable {l l' : Lexer} {stop : Stop}

/-- A lexer that finds the end of its text has nothing left to read. -/
theorem of_next_end (h : l.next = (.error stop, l')) (hend : stop.isEnd = true) :
    ∃ q, l.ending.stop q = stop ∧ l' = { l with cursor := ⟨[], q⟩ } := by
  obtain ⟨q, hnext⟩ | ⟨t, c, hnext, _⟩ | ⟨fault, c, hnext⟩ :=
    next_cases (held_of_next_error h) <;> rw [hnext] at h
  · obtain ⟨hstop, hl'⟩ := Prod.mk.inj h
    exact ⟨q, Except.error.inj hstop, hl'.symm⟩
  · cases h
  · cases h
    cases hend

/-- At the end of its text a lexer stays where it is. -/
theorem next_of_end (h : l.next = (.error stop, l')) (hend : stop.isEnd = true) :
    l'.next = (.error stop, l') := by
  have hheld := held_of_next_error h
  obtain ⟨q, hstop, rfl⟩ := of_next_end h hend
  have hsame : l.ending.stop q = stop := hstop
  rw [← hsame]
  exact next_of_scan (l := { l with cursor := ⟨[], q⟩ }) hheld (scan_nil ..)

theorem size_le_of_end (h : l.next = (.error stop, l')) (hend : stop.isEnd = true) :
    l'.size ≤ l.size := by
  obtain ⟨q, _, rfl⟩ := of_next_end h hend
  simp [size]

end AtEnd

theorem size_lt_of_next {l l' : Lexer} {t : Token} (h : l.next = (.ok t, l')) :
    l'.size < l.size := by
  cases hheld : l.held with
  | cons t' held =>
      rw [next_of_held hheld] at h
      cases h
      simp [size, hheld]
  | nil =>
      obtain ⟨q, hnext⟩ | ⟨t, c, hnext, _, hlt⟩ | ⟨fault, c, hnext⟩ :=
        next_cases hheld <;> rw [hnext] at h
      · cases h
      · cases h
        simpa [size, hheld] using hlt
      · cases h

/-- Every lexer stops giving tokens at some time. -/
theorem exists_yields (l : Lexer) : ∃ ts stop l', l.Yields ts stop l' := by
  rcases hnext : l.next with ⟨stop | t, l₁⟩
  · exact ⟨[], stop, l₁, .stopped hnext⟩
  · have hlt := size_lt_of_next hnext
    obtain ⟨ts, stop, l', hrest⟩ := exists_yields l₁
    exact ⟨t :: ts, stop, l', .token hnext hrest⟩
termination_by l.size

/-- The tokens that a lexer yields, and why it stops then, are determined. -/
theorem Yields.unique {l l₁ l₂ : Lexer} {ts us : List Token} {stop stop' : Stop}
    (h : l.Yields ts stop l₁) (h' : l.Yields us stop' l₂) : ts = us ∧ stop = stop' := by
  induction h generalizing us with
  | stopped hnext =>
      cases h' with
      | stopped hnext' =>
          rw [hnext] at hnext'
          cases hnext'
          exact ⟨rfl, rfl⟩
      | token hnext' _ =>
          rw [hnext] at hnext'
          cases hnext'
  | token hnext _ ih =>
      cases h' with
      | stopped hnext' =>
          rw [hnext] at hnext'
          cases hnext'
      | token hnext' hrest' =>
          rw [hnext] at hnext'
          cases hnext'
          obtain ⟨rfl, rfl⟩ := ih hrest'
          exact ⟨rfl, rfl⟩

/-- A lexer stops at the end of its text or for a fault, which is where it has come to. -/
theorem Yields.stop_cases {l l' : Lexer} {ts : List Token} {stop : Stop}
    (h : l.Yields ts stop l') (hheld : l.held = []) :
    (stop.isEnd = true ∧ stop = l.ending.stop l'.position) ∨
      ∃ fault, stop = .lexical l'.position fault := by
  induction h with
  | stopped hnext =>
      rename_i l stop l'
      obtain ⟨q, hend⟩ | ⟨t, c, hok, _⟩ | ⟨fault, c, hfault⟩ := next_cases hheld
      · rw [hend] at hnext
        cases hnext
        obtain hend | ⟨why, _, hwhy⟩ := l.ending.stop_cases q
        · exact .inl ⟨hend, rfl⟩
        · exact .inr ⟨.unreadable why, hwhy⟩
      · rw [hok] at hnext
        cases hnext
      · rw [hfault] at hnext
        cases hnext
        exact .inr ⟨fault, rfl⟩
  | token hnext _ ih =>
      obtain ⟨c, _, _, rfl⟩ := scan_of_next hheld hnext
      exact ih hheld

theorem Yields.honest {l l' : Lexer} {ts : List Token} {stop : Stop}
    (h : l.Yields ts stop l') (hheld : l.held = []) : stop.Honest := by
  induction h with
  | stopped hnext =>
      obtain ⟨c, hscan, _⟩ := scan_of_next hheld hnext
      exact scan_honest hscan
  | token hnext _ ih =>
      obtain ⟨c, _, _, rfl⟩ := scan_of_next hheld hnext
      exact ih hheld

/-- The lexer reads on over what is left. -/
theorem Yields.leads {l l' : Lexer} {ts : List Token} {stop : Stop}
    (h : l.Yields ts stop l') (hheld : l.held = []) : l.cursor.Leads l'.cursor := by
  induction h with
  | stopped hnext =>
      obtain ⟨c, _, hleads, rfl⟩ := scan_of_next hheld hnext
      exact hleads
  | token hnext _ ih =>
      obtain ⟨c, _, hleads, rfl⟩ := scan_of_next hheld hnext
      exact hleads.trans (ih hheld)

/-- A lexer that has found the end of its text has read all of it. -/
theorem Yields.position_eq {l l' : Lexer} {ts : List Token} {stop : Stop}
    (h : l.Yields ts stop l') (hheld : l.held = []) (hend : stop.isEnd = true) :
    l'.position = Cursor.advance l.position l.cursor.rest := by
  have hnil : l'.cursor.rest = [] := by
    induction h with
    | stopped hnext =>
        obtain ⟨q, _, rfl⟩ := of_next_end hnext hend
        rfl
    | token hnext _ ih =>
        obtain ⟨c, _, _, rfl⟩ := scan_of_next hheld hnext
        exact ih hheld hend
  obtain ⟨ps, hrest, hposition⟩ := h.leads hheld
  rw [hnil, List.append_nil] at hrest
  rw [position, hposition, hrest]
  rfl

/-! ### The token ahead -/

theorem ahead_of_held {l : Lexer} {t : Token} {held : List Token}
    (h : l.held = t :: held) : l.ahead = .ok (t, l) := by
  simp only [ahead, peek, h]

theorem ahead_of_unheld {l l₁ : Lexer} {t : Token} (hheld : l.held = [])
    (h : l.next = (.ok t, l₁)) : l.ahead = .ok (t, l₁.back t) := by
  simp only [ahead, peek, hheld, h]

/-- A token that `next` gives is seen ahead, and `next` still gives it then. -/
theorem ahead_of_next {l l₁ : Lexer} {t : Token} (h : l.next = (.ok t, l₁)) :
    ∃ l₂, l.ahead = .ok (t, l₂) ∧ l₂.next = (.ok t, l₁) ∧ l₂.size ≤ l.size := by
  cases hheld : l.held with
  | cons t' held =>
      have hnext := next_of_held hheld
      rw [h] at hnext
      cases hnext
      exact ⟨l, ahead_of_held hheld, h, Nat.le_refl _⟩
  | nil =>
      refine ⟨l₁.back t, ahead_of_unheld hheld h, rfl, ?_⟩
      have hlt := size_lt_of_next h
      simp only [size, back, List.length_cons] at hlt ⊢
      omega

theorem ahead_of_end {l l' : Lexer} {stop : Stop} (h : l.next = (.error stop, l'))
    (hend : stop.isEnd = true) : l.ahead = .ok (⟨.endOfText, l'.position⟩, l') := by
  simp only [ahead, peek, held_of_next_error h, h, hend, if_true]

theorem ahead_of_stop {l l' : Lexer} {stop : Stop} (h : l.next = (.error stop, l'))
    (hstop : stop.isEnd = false) : l.ahead = .error stop := by
  simp [ahead, peek, held_of_next_error h, h, hstop]

theorem ahead_ne (l : Lexer) : l.ahead ≠ .error .endOfInput := by
  rcases h : l.next with ⟨stop | t, l'⟩
  · cases hstop : stop.isEnd with
    | true => simp [ahead_of_end h hstop]
    | false =>
        rw [ahead_of_stop h hstop]
        rintro ⟨rfl⟩
        cases hstop
  · obtain ⟨l₂, hahead, _⟩ := ahead_of_next h
    simp [hahead]

theorem expect_of_next_error {l l' : Lexer} {stop : Stop}
    (h : l.next = (.error stop, l')) (c : Symbol) : l.expect c = .error stop := by
  simp only [expect, h]

theorem expect_of_next {l l₁ : Lexer} {t : Token} (h : l.next = (.ok t, l₁))
    (c : Symbol) :
    l.expect c = if t.symbol = c then .ok l₁
      else .error (.syntactic t.position (.mismatch c t.symbol)) := by
  simp only [expect, h]

theorem size_lt_of_expect {l l' : Lexer} {c : Symbol} (h : l.expect c = .ok l') :
    l'.size < l.size := by
  rcases hnext : l.next with ⟨stop | t, l₁⟩
  · rw [expect_of_next_error hnext] at h
    cases h
  · rw [expect_of_next hnext] at h
    split at h
    · cases h
      exact size_lt_of_next hnext
    · cases h

theorem size_le_of_ahead {l l' : Lexer} {t : Token} (h : l.ahead = .ok (t, l')) :
    l'.size ≤ l.size := by
  rcases hnext : l.next with ⟨stop | t', l₁⟩
  · cases hstop : stop.isEnd with
    | true =>
        rw [ahead_of_end hnext hstop] at h
        cases h
        exact size_le_of_end hnext hstop
    | false =>
        rw [ahead_of_stop hnext hstop] at h
        cases h
  · obtain ⟨l₂, hahead, _, hle⟩ := ahead_of_next hnext
    rw [hahead] at h
    cases h
    exact hle

theorem reader_sized : reader.Sized size where
  ahead_le := size_le_of_ahead
  take_lt := size_lt_of_expect
  expect_lt := size_lt_of_expect

/-! ### A lexer and the stream of its tokens -/

/-- The stream holds the tokens that the lexer yields. -/
def Matches (l : Lexer) (s : Stream) : Prop :=
  ∃ l', l.Yields s.tokens s.stop l' ∧ l'.position = s.position

theorem ahead_agree {l : Lexer} {s : Stream} (h : l.Matches s) :
    Agree False (fun x x' => x.1 = x'.1 ∧ Matches x.2 x'.2)
      (fun x => x.1.symbol = .endOfText ∧ False) l.ahead s.ahead := by
  obtain ⟨tokens, stop, position⟩ := s
  obtain ⟨l', hyields, hposition⟩ := h
  dsimp only at hyields hposition
  cases hyields with
  | stopped hnext =>
      cases hstop : stop.isEnd with
      | true =>
          subst hposition
          rw [ahead_of_end hnext hstop, Stream.ahead_of_end rfl hstop]
          exact .onward ⟨rfl, l', .stopped (next_of_end hnext hstop), rfl⟩
      | false =>
          rw [ahead_of_stop hnext hstop, Stream.ahead_of_stop rfl hstop]
          exact .stopped _
  | token hnext hrest =>
      obtain ⟨l₂, hahead, hnext', _⟩ := ahead_of_next hnext
      rw [hahead]
      exact .onward ⟨rfl, l', .token hnext' hrest, hposition⟩

theorem expect_agree {l : Lexer} {s : Stream} (c : Symbol) (h : l.Matches s) :
    Agree False Matches (fun _ => False) (l.expect c) (s.expect c) := by
  obtain ⟨tokens, stop, position⟩ := s
  obtain ⟨l', hyields, hposition⟩ := h
  dsimp only at hyields hposition
  cases hyields with
  | stopped hnext =>
      rw [expect_of_next_error hnext]
      exact .stopped _
  | token hnext hrest =>
      rename_i t l₁ ts
      rw [expect_of_next hnext]
      simp only [Stream.expect]
      by_cases hsymbol : t.symbol = c
      · simp only [hsymbol, if_true]
        exact .onward ⟨l', hrest, hposition⟩
      · simp only [hsymbol, if_false]
        exact .stopped _

/-- A lexer and the stream of its tokens, side by side. -/
def comparison : Comparison reader Stream.reader where
  longer := False
  Meets := Matches
  Over := fun _ => False
  ahead_agree := ahead_agree
  take_agree := expect_agree
  expect_agree := expect_agree
  ahead_over := False.elim
  expect_over := fun _ => False.elim
  longer_of_over := False.elim
  ahead_ne := Stream.ahead_ne

/-- Reading a lexer as one expression is reading the stream of its tokens. -/
theorem parse_eq_program {l l' : Lexer} {ts : List Token} {stop : Stop} {bound : Nat}
    (hheld : l.held = []) (h : l.Yields ts stop l') (hbound : ts.length < bound) :
    l.parse = Parser.program Stream.reader bound ⟨ts, stop, l'.position⟩ := by
  have hsize : l.size = l.cursor.rest.length := by simp [size, hheld]
  -- one bound that is large enough for both sources
  let large := bound + l.size + 1
  calc l.parse = Parser.program reader large l :=
        Parser.program_congr reader_sized (by omega) (by omega)
    _ = Parser.program Stream.reader large ⟨ts, stop, l'.position⟩ :=
        (comparison.program_agree large ⟨l', h, rfl⟩).eq_of_not_longer id
    _ = Parser.program Stream.reader bound ⟨ts, stop, l'.position⟩ :=
        Parser.program_congr Stream.reader_sized (by dsimp only; omega) hbound

/-- The end of the text is no token that a lexer yields of its own. -/
theorem Yields.ne_endOfText {l l' : Lexer} {ts : List Token} {stop : Stop}
    (h : l.Yields ts stop l') (hheld : l.held = []) :
    ∀ t ∈ ts, t.symbol ≠ .endOfText := by
  induction h with
  | stopped h => simp
  | token h hrest ih =>
      obtain ⟨q, hnext⟩ | ⟨t, c, hnext, ht, _⟩ | ⟨fault, c, hnext⟩ :=
        next_cases hheld <;> rw [hnext] at h
      · cases h
      · cases h
        exact List.forall_mem_cons.mpr ⟨ht, ih hheld⟩
      · cases h

end Lexer

/-- The source can be cut into the tokens `ts` up to its end. -/
def Source.Lexes (src : Source) (ts : List Token) : Prop :=
  ∃ l, (Lexer.start src).Yields ts .endOfInput l

end TwoSorted
