import TwoSorted.Proofs.Parser.BreakOff
import TwoSorted.Proofs.Parser.Reuse
import TwoSorted.Proofs.Session.Lines
import TwoSorted.Proofs.Verdict.Messages
import TwoSorted.Session

/-!
# The turns of a session

A session that is fed lines, interrupted and told that its input ends goes through
turns, one after another. A turn takes a chunk of the lines and ends with the call
after which nothing is pending: a line of blanks is passed over, a chunk that is
whole is answered with its type or its fault, and a chunk that is not is dropped by
an interrupt or, with a message, at the end of the input. The lines fed after the
last turn are pending.

There is one way only to cut a session into turns, since no turn begins with all the
calls of another one. What a turn writes depends on its own lines alone: whenever
nothing is pending the session is as it was at its start, but for the parser, and the
state of the parser makes no difference.
-/

namespace TwoSorted

namespace Session

/-! ### Lines written and lines pending -/

/-- Colors add no line. -/
theorem lineFeeds_paint (style : Style) (text : String) :
    lineFeeds (style.paint text) = lineFeeds text := by
  have hopening : lineFeeds style.opening = 0 := OneLine.lineFeeds_eq style.opening_oneLine
  have hclosing : lineFeeds style.closing = 0 := OneLine.lineFeeds_eq style.closing_oneLine
  rw [Style.paint, lineFeeds_append, lineFeeds_append, hopening, hclosing, Nat.zero_add,
    Nat.add_zero]

theorem lineFeeds_droppedMessage (text : List Piece) :
    lineFeeds (droppedMessage text) = 1 := by
  have hlabel : OneLine label := by decide
  have hquoted : OneLine ("Parse Error: " ++ label ++ ": unexpected end of input, dropped " ++
      quotePieces text) :=
    ((OneLine.append (by decide) hlabel).append (by decide)).append (oneLine_quotePieces text)
  exact (lineFeeds_append_newline _).trans (congrArg (· + 1) hquoted.lineFeeds_eq)

/-- The session with the given lines pending. -/
def holding (s : Session) (lines : List (List UInt8)) : Session :=
  { s with
    pending := joined lines
    prompt := if lines.isEmpty then s.firstPrompt else morePrompt }

/-- The session with another parser. -/
def withParser (s : Session) (p : TextParser) : Session :=
  { s with parser := p }

theorem pending_holding (s : Session) (lines : List (List UInt8)) (line : List UInt8) :
    (s.holding lines).pending ++ line ++ [0x0A] = joined (lines ++ [line]) :=
  (joined_append_singleton lines line).symm

/-! ### Calls and turns -/

/-- What a session is told. -/
inductive Call where
  | feed (line : List UInt8)
  | interrupt
  | flush

/-- The line that is fed, if one is. -/
def Call.line? : Call → Option (List UInt8)
  | feed line => some line
  | interrupt => none
  | flush => none

theorem map_feed_injective : Function.Injective (List.map Call.feed) :=
  List.map_injective_iff.mpr fun _ _ h => Call.feed.inj h

/-- What is written on the two outputs, and whether an interrupt has dropped
something. -/
structure Reply where
  out : String
  err : String
  dropped : Bool

/-- Nothing is written. -/
def Reply.silent : Reply := ⟨"", "", false⟩

variable [Conversions]

/-- One call. -/
def call (s : Session) : Call → Session × Reply
  | .feed line =>
    let fed := s.feed line
    (fed.session, ⟨fed.output.out, fed.output.err, false⟩)
  | .interrupt =>
    let (s, dropped) := s.interrupt
    (s, ⟨"", "", dropped⟩)
  | .flush =>
    let (s, written) := s.flush
    (s, ⟨written.out, written.err, false⟩)

/-- One call after another, with the reply to each. -/
def calls (s : Session) : List Call → Session × List Reply
  | [] => (s, [])
  | c :: cs =>
    let (s, reply) := s.call c
    let (s, replies) := s.calls cs
    (s, reply :: replies)

/-- What becomes of some lines. -/
inductive Turn where
  /-- A line of blanks is passed over. -/
  | blank (line : List UInt8)
  /-- The lines are whole with the last one. -/
  | evaluated (earlier : List (List UInt8)) (last : List UInt8)
  /-- The lines are dropped by an interrupt. -/
  | interrupted (lines : List (List UInt8))
  /-- The lines are dropped at the end of the input. -/
  | flushed (lines : List (List UInt8))
  /-- There are no lines, and there is nothing to drop. -/
  | idle (c : Call)

namespace Turn

/-- The lines that are pending when the turn ends. -/
def earlier : Turn → List (List UInt8)
  | blank _ => []
  | evaluated earlier _ => earlier
  | interrupted lines => lines
  | flushed lines => lines
  | idle _ => []

/-- The call that ends the turn. -/
def closing : Turn → Call
  | blank line => .feed line
  | evaluated _ last => .feed last
  | interrupted _ => .interrupt
  | flushed _ => .flush
  | idle c => c

/-- The calls of the turn. -/
def calls (t : Turn) : List Call :=
  t.earlier.map .feed ++ [t.closing]

/-- The lines of the turn. -/
def lines : Turn → List (List UInt8)
  | blank line => [line]
  | evaluated earlier last => earlier ++ [last]
  | interrupted lines => lines
  | flushed lines => lines
  | idle _ => []

/-- The lines are such as the turn says. -/
def Proper : Turn → Prop
  | blank line => isAllBlank (pieces (joined [line])) = true
  | evaluated earlier last =>
    Unfinished earlier ∧ isAllBlank (pieces (joined (earlier ++ [last]))) = false ∧
      parse (.ofBytes (joined (earlier ++ [last]))) ≠ .error .endOfInput
  | interrupted lines => lines ≠ [] ∧ Unfinished lines
  | flushed lines => lines ≠ [] ∧ Unfinished lines
  | idle c => c.line? = none

/-- What is written at the end of the turn, with the settings of `s`. -/
def reply (s : Session) : Turn → Reply
  | blank _ => .silent
  | evaluated earlier last =>
    match verdict label (.ofBytes (joined (earlier ++ [last]))) with
    | .ok t => ⟨s.typeLine t, "", false⟩
    | .error failure => ⟨"", s.failureLine failure, false⟩
  | interrupted _ => ⟨"", "", true⟩
  | flushed lines =>
    ⟨"", s.failureStyle.paint (droppedMessage (trim (pieces (joined lines)))), false⟩
  | idle _ => .silent

/-- The replies to the calls of the turn. -/
def replies (s : Session) (t : Turn) : List Reply :=
  t.earlier.map (fun _ => .silent) ++ [t.reply s]

/-- The turn in which the call is made while the lines are pending. -/
def ending (lines : List (List UInt8)) : Call → Turn
  | .feed last =>
    if isAllBlank (pieces (joined (lines ++ [last]))) then blank last
    else evaluated lines last
  | .interrupt => if lines.isEmpty then idle .interrupt else interrupted lines
  | .flush => if lines.isEmpty then idle .flush else flushed lines

/-- A turn is known by the lines that are pending at its end and by its last call. -/
theorem Proper.ending_eq {t : Turn} (h : t.Proper) : ending t.earlier t.closing = t := by
  cases t with
  | blank line => exact if_pos h
  | evaluated earlier last =>
      simp only [Turn.earlier, closing, ending, h.2.1]
      rfl
  | interrupted lines => simp [Turn.earlier, closing, ending, h.1]
  | flushed lines => simp [Turn.earlier, closing, ending, h.1]
  | idle c =>
      cases c with
      | feed line => cases h
      | interrupt => rfl
      | flush => rfl

end Turn

/-! ### Cutting a session into turns -/

/-- The calls are those of the turns, and after them the lines are fed. -/
structure SplitsInto (cs : List Call) (turns : List Turn) (rest : List (List UInt8)) :
    Prop where
  calls_eq : cs = turns.flatMap Turn.calls ++ rest.map .feed
  proper : ∀ t ∈ turns, t.Proper
  unfinished : Unfinished rest

/-- After the call nothing is pending any more. -/
structure Ends (lines : List (List UInt8)) (c : Call) : Prop where
  unfinished : Unfinished lines
  closes : ∀ line, c = .feed line → ¬ Unfinished (lines ++ [line])

theorem Turn.Proper.ends {t : Turn} (h : t.Proper) : Ends t.earlier t.closing := by
  cases t with
  | blank line =>
      refine ⟨.nil, fun line' hline hunfinished => ?_⟩
      cases hline
      have hbegun : isAllBlank (pieces (joined [line])) = false :=
        hunfinished.not_isAllBlank (List.cons_ne_nil _ _) []
      rw [Turn.Proper, hbegun] at h
      cases h
  | evaluated earlier last =>
      refine ⟨h.1, fun line' hline hunfinished => ?_⟩
      cases hline
      exact h.2.2 (hunfinished.incomplete _ [] (List.append_nil _).symm)
  | interrupted lines => exact ⟨h.2, fun line' hline => nomatch hline⟩
  | flushed lines => exact ⟨h.2, fun line' hline => nomatch hline⟩
  | idle c =>
      refine ⟨.nil, fun line' hline _ => ?_⟩
      cases hline
      cases h

/-- Lines that are still unfinished go on past no end of a turn. -/
theorem Ends.not_append {lines lines' : List (List UInt8)} {c : Call} (h : Ends lines c)
    (h' : Unfinished lines') (cs : List Call) :
    lines'.map .feed ≠ lines.map .feed ++ c :: cs := by
  intro heq
  obtain ⟨us, vs, rfl, hus, hvs⟩ := List.map_eq_append_iff.mp heq
  obtain rfl := map_feed_injective hus
  obtain ⟨line, more, rfl, hline, _⟩ := List.map_eq_cons_iff.mp hvs
  rw [← List.singleton_append, ← List.append_assoc] at h'
  exact h.closes line hline.symm h'.of_append

/-- Of two turns neither begins with all the calls of the other. -/
theorem Ends.unique {lines lines' : List (List UInt8)} {c c' : Call} {cs cs' : List Call}
    (h : Ends lines c) (h' : Ends lines' c')
    (heq : lines.map .feed ++ c :: cs = lines'.map .feed ++ c' :: cs') :
    lines = lines' ∧ c = c' ∧ cs = cs' := by
  rcases List.append_eq_append_iff.mp heq with ⟨us, hlines, hrest⟩ | ⟨us, hlines, hrest⟩
  · cases us with
    | nil =>
        rw [List.append_nil] at hlines
        obtain ⟨rfl, rfl⟩ := List.cons.inj hrest
        exact ⟨(map_feed_injective hlines).symm, rfl, rfl⟩
    | cons c'' us =>
        obtain ⟨rfl, _⟩ := List.cons.inj hrest
        exact absurd hlines (h.not_append h'.unfinished us)
  · cases us with
    | nil =>
        rw [List.append_nil] at hlines
        obtain ⟨rfl, rfl⟩ := List.cons.inj hrest
        exact ⟨map_feed_injective hlines, rfl, rfl⟩
    | cons c'' us =>
        obtain ⟨rfl, _⟩ := List.cons.inj hrest
        exact absurd hlines (h'.not_append h.unfinished us)

theorem SplitsInto.cons_inv {cs : List Call} {t : Turn} {turns : List Turn}
    {rest : List (List UInt8)} (h : SplitsInto cs (t :: turns) rest) :
    ∃ cs', cs = t.earlier.map .feed ++ t.closing :: cs' ∧ t.Proper ∧
      SplitsInto cs' turns rest := by
  obtain ⟨ht, hturns⟩ := List.forall_mem_cons.mp h.proper
  refine ⟨_, ?_, ht, rfl, hturns, h.unfinished⟩
  rw [h.calls_eq]
  simp [Turn.calls]

/-- There is one way only to cut a session into turns. -/
theorem SplitsInto.unique {cs : List Call} {turns turns' : List Turn}
    {rest rest' : List (List UInt8)} (h : SplitsInto cs turns rest)
    (h' : SplitsInto cs turns' rest') : turns' = turns ∧ rest' = rest := by
  induction turns generalizing cs turns' with
  | nil =>
      have hcs : cs = rest.map .feed := h.calls_eq
      cases turns' with
      | nil =>
          have hcs' : cs = rest'.map .feed := h'.calls_eq
          rw [hcs] at hcs'
          exact ⟨rfl, (map_feed_injective hcs').symm⟩
      | cons t' turns' =>
          obtain ⟨cs', heq, ht', _⟩ := h'.cons_inv
          rw [hcs] at heq
          exact absurd heq (ht'.ends.not_append h.unfinished cs')
  | cons t turns ih =>
      obtain ⟨us, heq, ht, hturns⟩ := h.cons_inv
      cases turns' with
      | nil =>
          have hcs' : cs = rest'.map .feed := h'.calls_eq
          rw [hcs'] at heq
          exact absurd heq (ht.ends.not_append h'.unfinished us)
      | cons t' turns' =>
          obtain ⟨us', heq', ht', hturns'⟩ := h'.cons_inv
          rw [heq] at heq'
          obtain ⟨hearlier, hclosing, rfl⟩ := ht.ends.unique ht'.ends heq'
          obtain ⟨rfl, rfl⟩ := ih hturns hturns'
          rw [← ht.ending_eq, hearlier, hclosing, ht'.ending_eq]
          exact ⟨rfl, rfl⟩

variable (s : Session) {lines : List (List UInt8)} {line : List UInt8}

/-- What is written in a turn does not depend on the parser. -/
theorem Turn.replies_withParser (p : TextParser) :
    Turn.replies (s.withParser p) = Turn.replies s :=
  rfl

theorem feed_blank (hblank : isAllBlank (pieces (joined [line])) = true) :
    (s.holding []).feed line = ⟨s.holding [], .none, s.firstPrompt⟩ := by
  simp only [feed, pending_holding, List.nil_append, hblank, if_true]
  rfl

/-- What becomes of a line that is not passed over depends on its text alone, whatever
the parser has read before. -/
theorem feed_of_parseAs
    (hblank : isAllBlank (pieces (joined (lines ++ [line]))) = false) :
    ∃ p, (s.holding lines).feed line =
      match parseAs label (.ofBytes (joined (lines ++ [line]))) with
      | .error failure =>
        if failure.isIncomplete then
          ⟨(s.withParser p).holding (lines ++ [line]), .none, morePrompt⟩
        else ⟨(s.withParser p).holding [], ⟨"", s.failureLine failure, []⟩, s.firstPrompt⟩
      | .ok e => ⟨(s.withParser p).holding [], s.answer e, s.firstPrompt⟩ := by
  have hparse := s.parser.parse_fst label (.ofBytes (joined (lines ++ [line])))
  refine ⟨(s.parser.parse label (.ofBytes (joined (lines ++ [line])))).2, ?_⟩
  simp only [feed, pending_holding, hblank, Bool.false_eq_true, if_false]
  rw [← hparse]
  rcases hresult : (s.holding lines).parser.parse label
    (.ofBytes (joined (lines ++ [line]))) with ⟨failure | e, p⟩
  all_goals
    have hresult' : s.parser.parse label (.ofBytes (joined (lines ++ [line]))) = _ := hresult
    rw [hresult']
  · dsimp only
    split
    · simp [holding, withParser]
    · rfl
  · rfl

theorem feed_incomplete
    (hblank : isAllBlank (pieces (joined (lines ++ [line]))) = false)
    (hparse : parse (.ofBytes (joined (lines ++ [line]))) = .error .endOfInput) :
    ∃ p, (s.holding lines).feed line =
      ⟨(s.withParser p).holding (lines ++ [line]), .none, morePrompt⟩ := by
  obtain ⟨p, hfeed⟩ := s.feed_of_parseAs hblank
  rw [parseAs, hparse] at hfeed
  exact ⟨p, hfeed⟩

theorem call_evaluated
    (hblank : isAllBlank (pieces (joined (lines ++ [line]))) = false)
    (hparse : parse (.ofBytes (joined (lines ++ [line]))) ≠ .error .endOfInput) :
    ∃ p, (s.holding lines).call (.feed line) =
      ((s.withParser p).holding [], (Turn.evaluated lines line).reply s) := by
  obtain ⟨p, hfeed⟩ := s.feed_of_parseAs hblank
  refine ⟨p, ?_⟩
  simp only [call, hfeed, Turn.reply, verdict, parseAs]
  cases hresult : parse (.ofBytes (joined (lines ++ [line]))) with
  | error stop =>
      have hstop : stop ≠ .endOfInput := fun h => hparse (h ▸ hresult)
      simp only [Except.mapError, isIncomplete_of_parse hresult hstop]
      rfl
  | ok e =>
      simp only [Except.mapError, Outcome.ok_bind, checkAs, answer]
      cases typeOf e with
      | error fault => rfl
      | ok t => rfl

theorem flush_holding (h : Unfinished lines) (hne : lines ≠ []) :
    (s.holding lines).call .flush = (s.holding [], (Turn.flushed lines).reply s) := by
  have hblank := h.not_isAllBlank hne []
  rw [List.append_nil] at hblank
  have htext : (trim (pieces (s.holding lines).pending)).isEmpty = false := by
    rw [List.isEmpty_eq_false_iff]
    exact trim_ne_nil hblank
  simp only [call, flush, htext]
  rfl

/-- A call adds a line to those that are pending, or it ends a turn. -/
theorem call_holding (h : Unfinished lines) (c : Call) :
    (∃ line p, c = .feed line ∧ Unfinished (lines ++ [line]) ∧
      (s.holding lines).call c = ((s.withParser p).holding (lines ++ [line]), .silent)) ∨
    ∃ (t : Turn) (p : TextParser), t.Proper ∧ t.earlier = lines ∧ t.closing = c ∧
      (s.holding lines).call c = ((s.withParser p).holding [], t.reply s) := by
  cases c with
  | feed line =>
      cases hblank : isAllBlank (pieces (joined (lines ++ [line]))) with
      | true =>
          obtain rfl : lines = [] := by
            by_contra hne
            rw [h.not_isAllBlank hne] at hblank
            cases hblank
          refine .inr ⟨.blank line, s.parser, hblank, rfl, rfl, ?_⟩
          rw [call, feed_blank s hblank]
          rfl
      | false =>
          by_cases hparse : parse (.ofBytes (joined (lines ++ [line]))) = .error .endOfInput
          · obtain ⟨p, hfeed⟩ := feed_incomplete s hblank hparse
            refine .inl ⟨line, p, rfl, h.append_singleton hblank hparse, ?_⟩
            rw [call, hfeed]
            rfl
          · obtain ⟨p, hcall⟩ := call_evaluated s hblank hparse
            exact .inr ⟨.evaluated lines line, p, ⟨h, hblank, hparse⟩, rfl, rfl, hcall⟩
  | interrupt =>
      right
      by_cases hne : lines = []
      · subst hne
        exact ⟨.idle .interrupt, s.parser, rfl, rfl, rfl, rfl⟩
      · refine ⟨.interrupted lines, s.parser, ⟨hne, h⟩, rfl, rfl, ?_⟩
        have hpending : (s.holding lines).pending.isEmpty = false := by
          simpa [holding, joined_eq_nil_iff] using hne
        simp only [call, interrupt, hpending]
        rfl
  | flush =>
      right
      by_cases hne : lines = []
      · subst hne
        exact ⟨.idle .flush, s.parser, rfl, rfl, rfl, rfl⟩
      · exact ⟨.flushed lines, s.parser, ⟨hne, h⟩, rfl, rfl, flush_holding s h hne⟩

/-- Any number of calls: what is pending before them belongs to the first turn. -/
theorem calls_holding (h : Unfinished lines) (cs : List Call) :
    ∃ turns rest p, SplitsInto (lines.map .feed ++ cs) turns rest ∧
      ((s.holding lines).calls cs).1 = (s.withParser p).holding rest ∧
      lines.map (fun _ => .silent) ++ ((s.holding lines).calls cs).2 =
        turns.flatMap (Turn.replies s) ++ rest.map fun _ => .silent := by
  induction cs generalizing s lines with
  | nil =>
      exact ⟨[], lines, s.parser, ⟨by simp, by simp, h⟩, rfl, by simp [calls]⟩
  | cons c cs ih =>
      obtain ⟨line, p, rfl, hunfinished, hcall⟩ | ⟨t, p, ht, rfl, rfl, hcall⟩ :=
        call_holding s h c
      · obtain ⟨turns, rest, p', hsplit, hstate, hreplies⟩ := ih (s.withParser p) hunfinished
        refine ⟨turns, rest, p', ?_, ?_, ?_⟩
        · simpa using hsplit
        · rw [calls, hcall]
          exact hstate
        · rw [calls, hcall]
          simpa [Turn.replies_withParser] using hreplies
      · obtain ⟨turns, rest, p', hsplit, hstate, hreplies⟩ := ih (s.withParser p) .nil
        refine ⟨t :: turns, rest, p', ⟨?_, ?_, hsplit.unfinished⟩, ?_, ?_⟩
        · have hcs : cs = turns.flatMap Turn.calls ++ rest.map .feed := hsplit.calls_eq
          rw [hcs]
          simp [Turn.calls]
        · exact List.forall_mem_cons.mpr ⟨ht, hsplit.proper⟩
        · rw [calls, hcall]
          exact hstate
        · rw [Turn.replies_withParser] at hreplies
          simp only [calls, hcall, List.flatMap_cons, Turn.replies]
          simpa using hreplies

end Session

end TwoSorted
