import TwoSorted.Proofs.Parser.Recognition
import TwoSorted.Proofs.Token.Yield

/-!
# The language that is read

A text that can be cut into tokens up to its end is read as an expression exactly
if its tokens are a word of the grammar, nested at most `maxLevels` deep. It ends
too early exactly if it is no such word but begins one, and it is refused exactly
if it neither is nor begins one.

A stream is compared with its extensions for the last part: where the parser
refuses a stream, it refuses every stream that begins with the same tokens, so no
extension is a word of the grammar.
-/

namespace TwoSorted

open Outcome Grammar

/-- The parser has stopped at a token or for lack of one, and not the lexer. -/
def Stop.OfParser : Stop → Prop
  | endOfInput => True
  | brokenOff _ => False
  | lexical _ _ => False
  | syntactic _ _ => True

namespace Stream

open TwoSorted.Parser

/-- A stream and the same stream with more tokens behind it. -/
def extension (more : List Token) : Comparison reader reader where
  longer := True
  Meets := fun s s' => s.stop = .endOfInput ∧ s'.tokens = s.tokens ++ more
  Over := fun s => s.stop = .endOfInput ∧ s.tokens = []
  ahead_agree := by
    rintro ⟨tokens, stop, q⟩ ⟨tokens', stop', q'⟩ ⟨rfl, rfl⟩
    cases tokens with
    | nil => exact .ended ⟨rfl, rfl, rfl⟩
    | cons t rest => exact .onward ⟨rfl, rfl, rfl⟩
  take_agree := by
    rintro ⟨tokens, stop, q⟩ ⟨tokens', stop', q'⟩ c ⟨rfl, rfl⟩
    cases tokens with
    | nil => exact .lacking trivial
    | cons t rest =>
        simp only [reader_take, expect, List.cons_append]
        split
        · exact .onward ⟨rfl, rfl⟩
        · exact .stopped _
  expect_agree := by
    rintro ⟨tokens, stop, q⟩ ⟨tokens', stop', q'⟩ c ⟨rfl, rfl⟩
    cases tokens with
    | nil => exact .lacking trivial
    | cons t rest =>
        simp only [reader_expect, expect, List.cons_append]
        split
        · exact .onward ⟨rfl, rfl⟩
        · exact .stopped _
  ahead_over := by
    rintro ⟨tokens, stop, q⟩ ⟨rfl, rfl⟩
    exact ⟨_, _, rfl, rfl, rfl, rfl⟩
  expect_over := by
    rintro ⟨tokens, stop, q⟩ c ⟨rfl, rfl⟩
    rfl
  longer_of_over := fun _ => trivial
  ahead_ne := ahead_ne

section Stops

variable {own : Stop} {P : Stop → Prop}

theorem expect_keeps_own (hown : P own) (htoken : ∀ q fault, P (.syntactic q fault))
    {s : Stream} (c : Symbol) (h : s.stop = own) :
    Satisfies P (fun s' : Stream => s'.stop = own) (s.expect c) := by
  obtain ⟨tokens, stop, q⟩ := s
  cases tokens with
  | nil =>
      cases h
      exact hown
  | cons t rest =>
      simp only [expect]
      split
      · exact h
      · exact htoken _ _

/-- The parser stops where the stream does, or for lack of input, or at a token. -/
theorem reader_keeps_own (hown : P own) (hend : P .endOfInput)
    (htoken : ∀ q fault, P (.syntactic q fault)) :
    reader.Keeps (fun s => s.stop = own) P where
  ahead := by
    rintro ⟨tokens, stop, q⟩ h
    cases tokens with
    | nil =>
        cases hstop : stop.isEnd with
        | true =>
            rw [reader_ahead, ahead_of_end rfl hstop]
            exact ⟨h, fun _ => htoken _ _, fun _ => hend⟩
        | false =>
            rw [reader_ahead, ahead_of_stop rfl hstop]
            cases h
            exact hown
    | cons t rest => exact ⟨h, fun _ => htoken _ _, fun _ => hend⟩
  take := expect_keeps_own hown htoken
  expect := expect_keeps_own hown htoken

end Stops

/-- A stream that just ends is stopped at one of its tokens or for lack of input. -/
theorem reader_keeps_stop :
    reader.Keeps (fun s => s.stop = .endOfInput) Stop.OfParser :=
  reader_keeps_own trivial trivial fun _ _ => trivial

theorem expect_keeps_fault {s : Stream} (c : Symbol)
    (h : s.Proper ∧ s.stop.isEnd = false) :
    Satisfies (·.isEnd = false) (fun s' : Stream => s'.Proper ∧ s'.stop.isEnd = false)
      (s.expect c) := by
  obtain ⟨tokens, stop, q⟩ := s
  obtain ⟨hproper, hstop⟩ := h
  cases tokens with
  | nil => exact hstop
  | cons t rest =>
      simp only [expect]
      split
      · exact ⟨fun t ht => hproper t (List.mem_cons_of_mem _ ht), hstop⟩
      · exact rfl

/-- A stream that stops for a fault never lacks input, nor does it come to a result. -/
theorem reader_keeps_fault :
    reader.Keeps (fun s => s.Proper ∧ s.stop.isEnd = false) (·.isEnd = false) where
  ahead := by
    rintro ⟨tokens, stop, q⟩ ⟨hproper, hstop⟩
    cases tokens with
    | nil =>
        rw [reader_ahead, ahead_of_stop rfl hstop]
        exact hstop
    | cons t rest =>
        exact ⟨⟨hproper, hstop⟩, fun _ => rfl,
          fun ht => absurd ht (hproper t List.mem_cons_self)⟩
  take := expect_keeps_fault
  expect := expect_keeps_fault

variable {s : Stream} {bound : Nat}

theorem isExpression_of_program (hs : s.Proper) {e : Expr}
    (h : program reader bound s = .ok e) : IsExpression maxLevels s.spelling e := by
  obtain ⟨⟨e', s'⟩, hexpression, h⟩ := bind_eq_ok_iff.mp h
  obtain ⟨t, hahead, h⟩ := ahead_bind_eq_ok h
  obtain ⟨w, hw, he⟩ := expression_sound bound maxLevels hexpression
  dsimp only at h
  split at h
  · rename_i ht
    cases h
    have hnil := spelling_eq_nil ((hw.proper hs).tokens_eq_nil hahead ht)
    rw [hw.spelling_eq, hnil, List.append_nil]
    exact he
  · cases h

theorem program_of_isExpression (hstop : s.stop = .endOfInput)
    (hbound : s.tokens.length < bound) {e : Expr}
    (h : IsExpression maxLevels s.spelling e) : program reader bound s = .ok e := by
  let s' : Stream := { s with tokens := [] }
  have hspells : s.Spells s.spelling s' := ⟨s.tokens, by simp [s'], rfl⟩
  have hahead : s'.ahead = .ok (⟨.endOfText, s.position⟩, s') :=
    ahead_of_end rfl (by rw [show s'.stop = .endOfInput from hstop]; rfl)
  have hexpression := expression_complete bound maxLevels h hspells
    (closes_of_ahead hahead (.inr (.inr rfl))) hbound
  simp [program, hexpression, hahead]

theorem viable_of_program (hs : s.Proper)
    (h : program reader bound s = .error .endOfInput) :
    Viable (IsExpression maxLevels) s.spelling := by
  obtain hexpression | ⟨⟨e, s'⟩, _, h⟩ := bind_eq_error_iff.mp h
  · exact expression_viable bound maxLevels hs hexpression
  · obtain ⟨t, _, h⟩ := ahead_bind_eq_endOfInput h
    dsimp only at h
    split at h <;> cases h

/-- No extension of a stream that the parser refuses is a word of the grammar. -/
theorem not_isExpression_of_program (hstop : s.stop = .endOfInput)
    (hbound : s.tokens.length < bound) {q : Position} {fault : SyntaxFault}
    (h : program reader bound s = .error (.syntactic q fault)) (v : List Symbol)
    (e : Expr) : ¬ IsExpression maxLevels (s.spelling ++ v) e := by
  intro he
  -- the positions of the tokens added are of no account
  let more : List Token := v.map fun c => ⟨c, s.position⟩
  let s' : Stream := { s with tokens := s.tokens ++ more }
  have hspelling : s'.spelling = s.spelling ++ v := by
    simp [s', more, spelling, Function.comp_def]
  have hlength : s'.tokens.length = s.tokens.length + v.length := by simp [s', more]
  have hs' : program reader (bound + v.length) s' = .ok e := by
    refine program_of_isExpression (s := s') hstop (by omega) ?_
    rw [hspelling]
    exact he
  have hs : program reader (bound + v.length) s = .error (.syntactic q fault) := by
    rw [← h]
    exact program_congr reader_sized (by omega) hbound
  have hagree := (extension more).program_agree (bound + v.length)
    (show (extension more).Meets s s' from ⟨hstop, rfl⟩)
  rw [hs, hs'] at hagree
  cases hagree

end Stream

/-- A text with a fault in it is neither read nor found to lack input. -/
theorem Lexer.parse_of_fault [Conversions] {l l' : Lexer} {ts : List Token} {stop : Stop}
    (hheld : l.held = []) (h : l.Yields ts stop l') (hstop : stop.isEnd = false) :
    ∃ x, l.parse = .error x ∧ x.isEnd = false := by
  have hkeeps := Parser.program_keeps Stream.reader_keeps_fault (ts.length + 1)
    (s := ⟨ts, stop, l'.position⟩) ⟨h.ne_endOfText hheld, hstop⟩
  rw [← parse_eq_program hheld h (Nat.lt_succ_self _)] at hkeeps
  cases hparse : l.parse with
  | error x =>
      rw [hparse] at hkeeps
      exact ⟨x, rfl, hkeeps⟩
  | ok e =>
      rw [hparse] at hkeeps
      cases hkeeps

/-- A run that is broken off is broken off by the text. -/
theorem Lexer.ending_of_parse_brokenOff [Conversions] {l : Lexer} {why : ReadFailure}
    (hheld : l.held = []) (h : l.parse = .error (.brokenOff why)) :
    l.ending = .failure why := by
  obtain ⟨ts, stop, l', hyields⟩ := l.exists_yields
  have hkeeps := Parser.program_keeps (Stream.reader_keeps_own
    (P := fun x => x = .brokenOff why → stop = .brokenOff why) id nofun nofun)
    (ts.length + 1) (s := ⟨ts, stop, l'.position⟩) rfl
  rw [← parse_eq_program hheld hyields (Nat.lt_succ_self _), h] at hkeeps
  have hstop : stop = .brokenOff why := hkeeps rfl
  obtain ⟨_, hending⟩ | ⟨fault, hfault⟩ := hyields.stop_cases hheld
  · exact Ending.eq_of_stop_brokenOff (hending.symm.trans hstop)
  · rw [hstop] at hfault
    cases hfault

/-- No stop of the parser misjudges its own cause. -/
theorem honest_of_parse [Conversions] {src : Source} {x : Stop} (h : parse src = .error x) :
    x.Honest := by
  obtain ⟨ts, stop, l', hyields⟩ := (Lexer.start src).exists_yields
  have hkeeps := Parser.program_keeps (Stream.reader_keeps_own (P := Stop.Honest)
    (hyields.honest rfl) trivial fun _ _ => trivial)
    (ts.length + 1) (s := ⟨ts, stop, l'.position⟩) rfl
  rw [← Lexer.parse_eq_program rfl hyields (Nat.lt_succ_self _)] at hkeeps
  rw [show (Lexer.start src).parse = .error x from h] at hkeeps
  exact hkeeps

theorem parse_ne_brokenOff [Conversions] (bytes : List UInt8) (why : ReadFailure) :
    parse (.ofBytes bytes) ≠ .error (.brokenOff why) := by
  intro h
  have hending : Ending.endOfFile = .failure why :=
    Lexer.ending_of_parse_brokenOff (l := .start (.ofBytes bytes)) rfl h
  cases hending

/-- A text that is all there ends for lack of input only. -/
theorem isEnd_of_parse [Conversions] {bytes : List UInt8} {x : Stop}
    (h : parse (.ofBytes bytes) = .error x) (hx : x ≠ .endOfInput) : x.isEnd = false := by
  cases x with
  | endOfInput => exact absurd rfl hx
  | brokenOff why => exact absurd h (parse_ne_brokenOff bytes why)
  | lexical q fault => rfl
  | syntactic q fault => rfl

/-- The names of the symbols of the tokens. -/
def kinds (ts : List Token) : List String :=
  ts.map fun t => t.symbol.name

theorem kinds_eq_map (ts : List Token) :
    kinds ts = (ts.map Token.symbol).map Symbol.name := by
  simp [kinds, Function.comp_def]

theorem kinds_mem_language_iff {n : Nat} {ts : List Token} :
    kinds ts ∈ language n ↔ ∃ e, IsExpression n (ts.map Token.symbol) e := by
  rw [kinds_eq_map, mem_language_iff]

/-- A word can be continued exactly if its kinds can. -/
theorem viable_iff_language {n : Nat} {ts : List Token} :
    Stream.Viable (IsExpression n) (ts.map Token.symbol) ↔
      ∃ v, v ≠ [] ∧ kinds ts ++ v ∈ language n := by
  simp only [kinds_eq_map, append_mem_language_iff]
  constructor
  · rintro ⟨v, e, hv, he⟩
    exact ⟨v.map Symbol.name, by simpa using hv, v, e, rfl, he⟩
  · rintro ⟨_, hne, v, e, rfl, he⟩
    exact ⟨v, e, by simpa using hne, he⟩

/-- What is read, what is incomplete and what is refused, in terms of the
grammar. -/
theorem parse_iff_language [Conversions] {bytes : List UInt8} {ts : List Token}
    (h : (Source.ofBytes bytes).Lexes ts) :
    (∀ e, parse (.ofBytes bytes) = .ok e ↔
      IsExpression Parser.maxLevels (ts.map Token.symbol) e) ∧
    ((∃ e, parse (.ofBytes bytes) = .ok e) ↔
      kinds ts ∈ language Parser.maxLevels) ∧
    (parse (.ofBytes bytes) = .error .endOfInput ↔
      kinds ts ∉ language Parser.maxLevels ∧
        ∃ v, v ≠ [] ∧ kinds ts ++ v ∈ language Parser.maxLevels) ∧
    ((∃ q fault, parse (.ofBytes bytes) = .error (.syntactic q fault)) ↔
      kinds ts ∉ language Parser.maxLevels ∧
        ∀ v, kinds ts ++ v ∉ language Parser.maxLevels) := by
  obtain ⟨l, hyields⟩ := h
  let s : Stream := ⟨ts, .endOfInput, l.position⟩
  have hproper : s.Proper := hyields.ne_endOfText rfl
  have hparse : parse (.ofBytes bytes) = Parser.program Stream.reader (ts.length + 1) s :=
    Lexer.parse_eq_program rfl hyields (Nat.lt_succ_self _)
  have hbound : s.tokens.length < ts.length + 1 := Nat.lt_succ_self _
  have hok : ∀ e, parse (.ofBytes bytes) = .ok e ↔
      IsExpression Parser.maxLevels (ts.map Token.symbol) e := by
    intro e
    rw [hparse]
    exact ⟨s.isExpression_of_program hproper, s.program_of_isExpression rfl hbound⟩
  have hmem : (∃ e, parse (.ofBytes bytes) = .ok e) ↔
      kinds ts ∈ language Parser.maxLevels := by
    rw [kinds_mem_language_iff]
    exact exists_congr hok
  have hviable : parse (.ofBytes bytes) = .error .endOfInput →
      ∃ v, v ≠ [] ∧ kinds ts ++ v ∈ language Parser.maxLevels := by
    rw [hparse, ← viable_iff_language]
    exact s.viable_of_program hproper
  have hnone : ∀ q fault, parse (.ofBytes bytes) = .error (.syntactic q fault) →
      ∀ v, kinds ts ++ v ∉ language Parser.maxLevels := by
    intro q fault hrefused v
    rw [hparse] at hrefused
    rw [kinds_eq_map, append_mem_language_iff]
    rintro ⟨w, e, _, he⟩
    exact s.not_isExpression_of_program rfl hbound hrefused w e he
  have hlexical := Parser.program_keeps Stream.reader_keeps_stop (ts.length + 1)
    (show s.stop = .endOfInput from rfl)
  rw [← hparse] at hlexical
  refine ⟨hok, hmem, ?_⟩
  rw [← hmem]
  -- the three outcomes exclude each other, so one direction of each is enough
  rcases hresult : parse (.ofBytes bytes) with (_ | why | ⟨q, fault⟩ | ⟨q, fault⟩) | e
  · obtain ⟨v, hne, hv⟩ := hviable hresult
    exact ⟨⟨fun _ => ⟨by simp, v, hne, hv⟩, fun _ => rfl⟩,
      by simp, fun h => absurd hv (h.2 v)⟩
  · rw [hresult] at hlexical
    exact hlexical.elim
  · rw [hresult] at hlexical
    exact hlexical.elim
  · have hnever := hnone q fault hresult
    simp [hnever]
  · simp

/-- The text `true?` lacks the rest of a conditional. -/
theorem parse_iff_language_unfinished :
    (Source.ofBytes [0x74, 0x72, 0x75, 0x65, 0x3F]).Lexes
      [⟨.bool true, ⟨1, 1⟩⟩, ⟨.question, ⟨1, 5⟩⟩] ∧
    ["true", "?"] ∉ language Parser.maxLevels ∧
      ∃ v, v ≠ [] ∧ ["true", "?"] ++ v ∈ language Parser.maxLevels := by
  have hlexes : (Source.ofBytes [0x74, 0x72, 0x75, 0x65, 0x3F]).Lexes
      [⟨.bool true, ⟨1, 1⟩⟩, ⟨.question, ⟨1, 5⟩⟩] :=
    ⟨_, .token rfl (.token rfl (.stopped rfl))⟩
  obtain ⟨_, _, hincomplete, _⟩ := parse_iff_language hlexes
  exact ⟨hlexes, hincomplete.mp rfl⟩

end TwoSorted
