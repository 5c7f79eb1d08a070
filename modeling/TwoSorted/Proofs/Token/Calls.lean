import TwoSorted.Proofs.Token.Yield

/-!
# Calls of the lexer

A lexer is asked for the next token, or for the token ahead, or is given a token back.
`l.log calls` is what comes of a series of such calls, each with its answer. A peek that
is answered with a token could as well have been left out: the other calls are answered
alike without it (`log_of_thins`).

A peek changes the lexer, though. It reads on, and keeps what it has read below all
tokens that are put back later. `ReadAhead l l'` says that `l'` is `l` but for that, and
the two answer every call alike and stay so related.
-/

namespace TwoSorted

namespace Lexer

/-- What can be asked of a lexer. -/
inductive Call where
  | next
  | peek
  | back (t : Token)
  deriving DecidableEq

/-- The answer to a call. There is none where a token is put back. -/
abbrev Answer := Option (Except Stop Token)

section

variable [Conversions]

/-- One call. -/
def perform (l : Lexer) : Call → Answer × Lexer
  | .next => (some l.next.1, l.next.2)
  | .peek => (some l.peek.1, l.peek.2)
  | .back t => (none, l.back t)

/-- The calls, one after another, with their answers. -/
def log (l : Lexer) : List Call → List (Call × Answer)
  | [] => []
  | c :: calls => (c, (l.perform c).1) :: (l.perform c).2.log calls

/-- The second log is the first one without some of the peeks that were answered with a
token, be it the symbol for the end of the text. -/
inductive Thins : List (Call × Answer) → List (Call × Answer) → Prop
  | nil : Thins [] []
  | keep {entries entries'} (x : Call × Answer) (h : Thins entries entries') :
      Thins (x :: entries) (x :: entries')
  | drop {entries entries'} (t : Token) (h : Thins entries entries') :
      Thins ((.peek, some (.ok t)) :: entries) entries'

/-- The lexer `l'` is `l` itself, or it has read the next token and keeps it below those
that are put back, or it has found the end. -/
inductive ReadAhead (l : Lexer) : Lexer → Prop
  | same : ReadAhead l l
  | token {t c} (h : scan l.look l.ending l.cursor = (.ok t, c)) :
      ReadAhead l { l with cursor := c, held := l.held ++ [t] }
  | ended {stop c} (h : scan l.look l.ending l.cursor = (.error stop, c))
      (hend : stop.isEnd = true) : ReadAhead l { l with cursor := c }

/-- Once a scan has found the end, it finds it again and stays there. -/
theorem scan_of_end {look : Lookahead} {ending : Ending} {c c' : Cursor} {stop : Stop}
    (h : scan look ending c = (.error stop, c')) (hend : stop.isEnd = true) :
    scan look ending c' = (.error stop, c') := by
  obtain ⟨q, hscan, _⟩ | ⟨t, c'', hscan, _⟩ | ⟨fault, c'', hscan, _⟩ :=
    scan_cases look ending c <;> rw [h] at hscan
  · obtain ⟨hstop, rfl⟩ := Prod.mk.inj hscan
    rw [scan_nil, ← Except.error.inj hstop]
  · cases hscan
  · cases hscan
    cases hend

/-! ### One call -/

section Calls

variable {l l' l₁ : Lexer} {t : Token} {c : Cursor} {stop : Stop}

theorem peek_of_held {held : List Token} (h : l.held = t :: held) : l.peek = (.ok t, l) := by
  simp only [peek, h]

theorem peek_of_scan (h : l.held = []) (hscan : scan l.look l.ending l.cursor = (.ok t, c)) :
    l.peek = (.ok t, { l with cursor := c, held := [t] }) := by
  simp only [peek, h, next_of_scan h hscan, back]

theorem peek_of_scan_end (h : l.held = [])
    (hscan : scan l.look l.ending l.cursor = (.error stop, c)) (hend : stop.isEnd = true) :
    l.peek = (.ok ⟨.endOfText, c.position⟩, { l with cursor := c }) := by
  simp only [peek, h, next_of_scan h hscan, hend, if_true, position]

/-- A peek leaves the lexer as it is if there are tokens put back, and else where `next`
does, perhaps with a token put back. -/
theorem peek_snd_cases (l : Lexer) :
    l.peek.2 = l ∨ l.held = [] ∧ (l.peek.2 = l.next.2 ∨ ∃ t, l.peek.2 = l.next.2.back t) := by
  cases hheld : l.held with
  | cons t held => exact .inl (by rw [peek_of_held hheld])
  | nil =>
      refine .inr ⟨rfl, ?_⟩
      simp only [peek, hheld]
      rcases l.next with ⟨stop | t, l'⟩
      · left
        dsimp only
        split <;> rfl
      · exact .inr ⟨t, rfl⟩

/-- Both lexers answer a call alike. -/
theorem ReadAhead.perform (h : ReadAhead l l') (call : Call) :
    (l'.perform call).1 = (l.perform call).1 ∧
      ReadAhead (l.perform call).2 (l'.perform call).2 := by
  obtain ⟨look, ending, cursor, held⟩ := l
  cases h with
  | same => exact ⟨rfl, .same⟩
  | token hscan =>
      cases call with
      | back u => exact ⟨rfl, .token hscan⟩
      | next =>
          cases held with
          | cons u held => exact ⟨rfl, .token hscan⟩
          | nil =>
              simp only [Lexer.perform, next_of_scan rfl hscan]
              exact ⟨rfl, .same⟩
      | peek =>
          cases held with
          | cons u held => exact ⟨rfl, .token hscan⟩
          | nil =>
              simp only [Lexer.perform, peek_of_scan rfl hscan]
              exact ⟨rfl, .same⟩
  | ended hscan hend =>
      have hagain := scan_of_end hscan hend
      cases call with
      | back u => exact ⟨rfl, .ended hscan hend⟩
      | next =>
          cases held with
          | cons u held => exact ⟨rfl, .ended hscan hend⟩
          | nil =>
              simp only [Lexer.perform, next_of_scan rfl hscan]
              rw [next_of_scan rfl hagain]
              exact ⟨rfl, .same⟩
      | peek =>
          cases held with
          | cons u held => exact ⟨rfl, .ended hscan hend⟩
          | nil =>
              simp only [Lexer.perform, peek_of_scan_end rfl hscan hend]
              rw [peek_of_scan_end rfl hagain hend]
              exact ⟨rfl, .same⟩

/-- What a peek that gives a token does when no token has been put back. -/
theorem peek_cases (hheld : l.held = []) (hpeek : l.peek = (.ok t, l₁)) :
    (∃ c, scan l.look l.ending l.cursor = (.ok t, c) ∧
      l₁ = { l with cursor := c, held := [t] }) ∨
    ∃ stop c, scan l.look l.ending l.cursor = (.error stop, c) ∧ stop.isEnd = true ∧
      t = ⟨.endOfText, c.position⟩ ∧ l₁ = { l with cursor := c } := by
  rcases hscan : scan l.look l.ending l.cursor with ⟨stop | u, c⟩
  · cases hend : stop.isEnd with
    | true =>
        rw [peek_of_scan_end hheld hscan hend] at hpeek
        cases hpeek
        exact .inr ⟨stop, c, rfl, hend, rfl, rfl⟩
    | false =>
        simp [Lexer.peek, hheld, next_of_scan hheld hscan, hend] at hpeek
  · rw [peek_of_scan hheld hscan] at hpeek
    cases hpeek
    exact .inl ⟨c, rfl, rfl⟩

/-- A peek that gives a token does no more than read ahead. -/
theorem ReadAhead.peek (h : ReadAhead l l') (hpeek : l'.peek = (.ok t, l₁)) :
    ReadAhead l l₁ := by
  cases hheld : l'.held with
  | cons u held =>
      rw [peek_of_held hheld] at hpeek
      cases hpeek
      exact h
  | nil =>
      cases h with
      | same =>
          obtain ⟨c, hscan, rfl⟩ | ⟨_, c, hscan, hend, _, rfl⟩ := peek_cases hheld hpeek
          · simpa only [hheld, List.nil_append] using ReadAhead.token hscan
          · exact .ended hscan hend
      | token hscan => simp at hheld
      | ended hscan hend =>
          rw [peek_of_scan_end hheld (scan_of_end hscan hend) hend] at hpeek
          cases hpeek
          exact .ended hscan hend

/-- The token that a peek gives comes next, unless it only stands for the end, and once it
is taken the tokens put back are the same as without the peek. -/
theorem next_of_peek (hpeek : l.peek = (.ok t, l₁))
    (ht : l.held ≠ [] ∨ t.symbol ≠ .endOfText) :
    ∃ l₂, l₁.next = (.ok t, l₂) ∧ l₂.held = l.held.tail := by
  cases hheld : l.held with
  | cons u held =>
      rw [peek_of_held hheld] at hpeek
      cases hpeek
      exact ⟨_, next_of_held hheld, rfl⟩
  | nil =>
      obtain ⟨c, hscan, rfl⟩ | ⟨_, c, _, _, rfl, _⟩ := peek_cases hheld hpeek
      · exact ⟨_, next_of_held rfl, rfl⟩
      · obtain hne | hne := ht
        · exact absurd hheld hne
        · exact absurd rfl hne

/-! ### A series of calls -/

/-- Two such lexers answer all calls alike, and the first one does so without the peeks
that the second one answers with a token. -/
theorem ReadAhead.log_eq {calls : List Call} {entries : List (Call × Answer)}
    (h : ReadAhead l l') (hthins : Thins (l'.log calls) entries) :
    l.log (entries.map Prod.fst) = entries := by
  induction calls generalizing l l' entries with
  | nil =>
      cases hthins
      rfl
  | cons call calls ih =>
      obtain ⟨hanswer, honward⟩ := h.perform call
      rw [log] at hthins
      generalize hentry : (call, (l'.perform call).1) = entry at hthins
      cases hthins with
      | keep _ hrest =>
          subst hentry
          simp only [List.map_cons, log, hanswer, ih honward hrest]
      | drop t hrest =>
          obtain ⟨rfl, hpeek⟩ := Prod.mk.inj hentry
          exact ih (h.peek (Prod.ext (Option.some.inj hpeek) rfl)) hrest

end Calls

/-- Peeks change nothing that can be seen. In any state of a lexer, whatever is called
then, each peek that was answered with a token can be left out, and all other calls are
answered as they were. And a token that a peek gives, other than the mere sign of the end,
is the one that comes next; where no token had been put back before, none is left then. -/
theorem log_of_thins (l : Lexer) :
    (∀ calls entries, Thins (l.log calls) entries → l.log (entries.map Prod.fst) = entries) ∧
    ∀ t l₁, l.peek = (.ok t, l₁) → l.held ≠ [] ∨ t.symbol ≠ .endOfText →
      ∃ l₂, l₁.next = (.ok t, l₂) ∧ (l.held = [] → l₂.held = []) := by
  refine ⟨fun calls entries h => ReadAhead.same.log_eq h, fun t l₁ hpeek ht => ?_⟩
  obtain ⟨l₂, hnext, hheld⟩ := next_of_peek hpeek ht
  refine ⟨l₂, hnext, fun hnil => ?_⟩
  rw [hheld, hnil, List.tail_nil]

end

/-- The text `+&(` with a token put back over the one that was peeked. The peek that meets
the fault stays; the others, at the end of the text too, are left out. -/
theorem log_of_thins_fault :
    Thins
      ((start (.ofBytes [0x2B, 0x26, 0x28])).log
        [.peek, .back ⟨.colon, ⟨7, 7⟩⟩, .peek, .next, .next, .peek, .peek, .next, .peek, .next])
      [(.back ⟨.colon, ⟨7, 7⟩⟩, none), (.next, some (.ok ⟨.colon, ⟨7, 7⟩⟩)),
        (.next, some (.ok ⟨.plus, ⟨1, 1⟩⟩)),
        (.peek, some (.error (.lexical ⟨1, 2⟩ (.unexpectedCharacter '&')))),
        (.next, some (.ok ⟨.openParen, ⟨1, 3⟩⟩)), (.next, some (.error .endOfInput))] ∧
    (start (.ofBytes [0x2B, 0x26, 0x28])).log
        [.back ⟨.colon, ⟨7, 7⟩⟩, .next, .next, .peek, .next, .next] =
      [(.back ⟨.colon, ⟨7, 7⟩⟩, none), (.next, some (.ok ⟨.colon, ⟨7, 7⟩⟩)),
        (.next, some (.ok ⟨.plus, ⟨1, 1⟩⟩)),
        (.peek, some (.error (.lexical ⟨1, 2⟩ (.unexpectedCharacter '&')))),
        (.next, some (.ok ⟨.openParen, ⟨1, 3⟩⟩)), (.next, some (.error .endOfInput))] ∧
    ∃ l₂, (start (.ofBytes [0x2B, 0x26, 0x28])).peek.2.next = (.ok ⟨.plus, ⟨1, 1⟩⟩, l₂) ∧
      l₂.held = [] := by
  obtain ⟨hlog, hnext⟩ := log_of_thins (start (.ofBytes [0x2B, 0x26, 0x28]))
  have hthins := Thins.drop ⟨.plus, ⟨1, 1⟩⟩ <| .keep (.back ⟨.colon, ⟨7, 7⟩⟩, none) <|
    .drop ⟨.colon, ⟨7, 7⟩⟩ <| .keep (.next, some (.ok ⟨.colon, ⟨7, 7⟩⟩)) <|
    .keep (.next, some (.ok ⟨.plus, ⟨1, 1⟩⟩)) <|
    .keep (.peek, some (.error (.lexical ⟨1, 2⟩ (.unexpectedCharacter '&')))) <|
    .drop ⟨.openParen, ⟨1, 3⟩⟩ <| .keep (.next, some (.ok ⟨.openParen, ⟨1, 3⟩⟩)) <|
    .drop ⟨.endOfText, ⟨1, 3⟩⟩ <| .keep (.next, some (.error .endOfInput)) <| .nil
  obtain ⟨l₂, htaken, hheld⟩ := hnext ⟨.plus, ⟨1, 1⟩⟩ _ rfl (.inr (by decide))
  exact ⟨hthins, hlog [.peek, .back ⟨.colon, ⟨7, 7⟩⟩, .peek, .next, .next, .peek, .peek,
    .next, .peek, .next] _ hthins, l₂, htaken, hheld rfl⟩

end Lexer

end TwoSorted
