import TwoSorted.Proofs.Verdict.Kinds

/-!
# What a verdict can be

The verdict on a text is of exactly one of four kinds: a type, the word that the text
is incomplete, a fault of the text at some place in it, or a fault of the types, which
has no place but names a node of the tree that was read. A text that fails to be read
may have a fifth: the failure alone, if it passes for the end of the text.

Every fault of the lexer and of the parser is found at a position that is reached on
the way through the text (`parse_placed`). The lexer yields tokens that have such
positions, and the parser stops at tokens only, or where the lexer does. The trees
that the parser gives lack no operand, so a fault of the types is always a mismatch.
-/

namespace TwoSorted

open Outcome Grammar

/-! ### Places of faults -/

/-- The stop has no position or one of which `K` holds. -/
def Stop.PlacedIn (K : Position → Prop) : Stop → Prop
  | endOfInput => True
  | brokenOff _ => True
  | lexical q _ => K q
  | syntactic q _ => K q

namespace Stream

variable {K : Position → Prop}

/-- All positions in the stream are such that `K` holds. -/
structure PlacedIn (K : Position → Prop) (s : Stream) : Prop where
  tokens : ∀ t ∈ s.tokens, K t.position
  stop : s.stop.PlacedIn K
  position : K s.position

theorem expect_placed {s : Stream} (c : Symbol) (h : s.PlacedIn K) :
    Satisfies (Stop.PlacedIn K) (PlacedIn K) (s.expect c) := by
  unfold expect
  split
  · rename_i t rest htokens
    have hmem : ∀ t' ∈ t :: rest, K t'.position := htokens ▸ h.tokens
    obtain ⟨ht, hrest⟩ := List.forall_mem_cons.mp hmem
    split
    · exact ⟨hrest, h.stop, h.position⟩
    · exact ht
  · exact h.stop

/-- The parser stops at positions of the stream. -/
theorem reader_keeps_placed : reader.Keeps (PlacedIn K) (Stop.PlacedIn K) where
  ahead {s} h := by
    rw [reader_ahead]
    obtain ⟨t, rest, htokens, hahead⟩ | ⟨_, _, hahead⟩ | ⟨_, _, hahead⟩ := s.ahead_cases <;>
      rw [hahead]
    · exact ⟨h, fun _ => h.tokens t (htokens ▸ List.mem_cons_self), fun _ => trivial⟩
    · exact ⟨h, fun _ => h.position, fun _ => trivial⟩
    · exact h.stop
  take := expect_placed
  expect := expect_placed

end Stream

/-- What a lexer yields is placed at positions that it reaches. -/
theorem Lexer.Yields.placed [Conversions] {l l' : Lexer} {ts : List Token} {stop : Stop}
    (h : l.Yields ts stop l') (hheld : l.held = []) {K : Position → Prop}
    (hK : ∀ c, l.cursor.Leads c → K c.position) :
    Stream.PlacedIn K ⟨ts, stop, l'.position⟩ where
  tokens := by
    induction h with
    | stopped hnext => simp
    | token hnext hrest ih =>
        obtain ⟨c, hscan, hleads, rfl⟩ := scan_of_next hheld hnext
        obtain ⟨rest, htoken⟩ := scan_leads_token hscan
        exact List.forall_mem_cons.mpr ⟨hK _ htoken,
          ih hheld fun c' hc' => hK c' (hleads.trans hc')⟩
  stop := by
    obtain ⟨hend, _⟩ | ⟨fault, rfl⟩ := h.stop_cases hheld
    · cases stop <;> trivial
    · exact hK _ (h.leads hheld)
  position := hK _ (h.leads hheld)

/-- A text is stopped, if at all, at a position that is reached on the way through it. -/
theorem parse_placed [Conversions] (src : Source) :
    Satisfies (Stop.PlacedIn fun q =>
        ∃ rest, Cursor.Leads ⟨pieces src.bytes, Position.start⟩ ⟨rest, q⟩)
      (fun _ => True) (parse src) := by
  obtain ⟨ts, stop, l, hyields⟩ := (Lexer.start src).exists_yields
  have hplaced := hyields.placed rfl (K := fun q =>
    ∃ rest, Cursor.Leads ⟨pieces src.bytes, Position.start⟩ ⟨rest, q⟩)
    fun c hc => ⟨c.rest, hc⟩
  rw [parse, Lexer.parse_eq_program rfl hyields (Nat.lt_succ_self _)]
  exact (Parser.program_keeps Stream.reader_keeps_placed _ hplaced).imp (fun _ => id)
    fun _ _ => trivial

/-- Lines are counted from one. -/
theorem Cursor.one_le_line_advance {q : Position} (h : 1 ≤ q.line) (ps : List Piece) :
    1 ≤ (advance q ps).line := by
  induction ps generalizing q with
  | nil => exact h
  | cons p ps ih =>
      have hafter : 1 ≤ (q.after p.read).line := by
        unfold Position.after
        split
        · exact Int.le_add_one h
        · exact h
      exact ih hafter

/-- The places of faults are lines of the text. -/
theorem Stop.PlacedIn.one_le_line {ps : List Piece} {stop : Stop}
    (h : stop.PlacedIn fun q => ∃ rest, Cursor.Leads ⟨ps, Position.start⟩ ⟨rest, q⟩) :
    stop.PlacedIn fun q => 1 ≤ q.line := by
  have hline {q : Position} :
      (∃ rest, Cursor.Leads ⟨ps, Position.start⟩ ⟨rest, q⟩) → 1 ≤ q.line := by
    rintro ⟨rest, qs, _, hposition⟩
    dsimp only at hposition
    rw [hposition]
    exact Cursor.one_le_line_advance (Int.le_refl 1) qs
  cases stop with
  | endOfInput => trivial
  | brokenOff why => trivial
  | lexical q fault => exact hline h
  | syntactic q fault => exact hline h

/-! ### Kinds of answers -/

/-- The mismatch of types that the failure is about, if it is about one. -/
def Failure.mismatch? : Failure → Option Mismatch
  | incomplete => none
  | brokenOff _ => none
  | rejected r =>
    match r.cause with
    | .typing (.mismatch m) => some m
    | _ => none

/-- Whether the failure is a mismatch of the given pattern. -/
def Failure.isA (f : Failure) (pattern : FaultCode) : Bool :=
  f.mismatch?.any fun m => m.code.isA pattern

/-- A mismatch is of one kind. -/
theorem Mismatch.isA_anywhere_iff {m : Mismatch} {kind : FaultKind} :
    m.code.isA (.anywhere kind) = true ↔ kind = m.kind := by
  have hcode : m.kind.code = kind.code ↔ kind = m.kind := by
    cases m.kind <;> cases kind <;> decide
  simp [code, FaultCode.isA, FaultCode.anywhere, hcode]

/-- The kinds of verdicts. -/
inductive Answer where
  | typed
  | incomplete
  | cutShort
  | misread
  | mistyped

variable [Conversions]

/-- The verdict `v` on the text `src` with the label `file` is of this kind. -/
def Answer.Describes (file : String) (src : Source) : Answer → Except Failure Ty → Prop
  | typed, v => ∃ t, v = .ok t ∧ (t = .boolean ∨ t = .number)
  | incomplete, v => v = .error .incomplete ∧ Failure.incomplete.isIncomplete = true
  | cutShort, v => ∃ why, src.ending = .failure why ∧ v = .error (.brokenOff why) ∧
      (Failure.brokenOff why).isIncomplete = true
  | misread, v => ∃ r : Report, v = .error (.rejected r) ∧
      (r.cause.phase = .lexer ∨ r.cause.phase = .parser) ∧
      r.file = file ∧ 1 ≤ r.position.line ∧
      (Failure.rejected r).isIncomplete = false ∧ (Failure.rejected r).mismatch? = none
  | mistyped, v => ∃ (r : Report) (m : Mismatch) (e : Expr), v = .error (.rejected r) ∧
      r.cause.phase = .checker ∧ r.file = file ∧ r.position = ⟨0, 0⟩ ∧
      (Failure.rejected r).mismatch? = some m ∧
      parse src = .ok e ∧ e.at? m.path = some m.node ∧
      ∃! kind, (Failure.rejected r).isA (.anywhere kind) = true

/-- The kind that a verdict can only be of. -/
def Answer.of : Except Failure Ty → Answer
  | .ok _ => typed
  | .error .incomplete => incomplete
  | .error (.brokenOff _) => cutShort
  | .error (.rejected r) => if r.cause.phase = .checker then mistyped else misread

theorem Answer.Describes.eq_of {file : String} {src : Source} {a : Answer}
    {v : Except Failure Ty} (h : a.Describes file src v) : a = .of v := by
  cases a with
  | typed =>
      obtain ⟨t, rfl, _⟩ := h
      rfl
  | incomplete =>
      obtain ⟨rfl, _⟩ := h
      rfl
  | cutShort =>
      obtain ⟨why, _, rfl, _⟩ := h
      rfl
  | misread =>
      obtain ⟨r, rfl, hphase, _⟩ := h
      rcases hphase with hphase | hphase <;> simp [of, hphase]
  | mistyped =>
      obtain ⟨r, m, e, rfl, hphase, _⟩ := h
      simp [of, hphase]

/-- A tree that is read lacks no operand. -/
theorem parse_whole {src : Source} {e : Expr} (h : parse src = .ok e) : e.Whole := by
  obtain ⟨ts, stop, l, hyields⟩ := (Lexer.start src).exists_yields
  rw [parse, Lexer.parse_eq_program rfl hyields (Nat.lt_succ_self _)] at h
  have hproper : Stream.Proper ⟨ts, stop, l.position⟩ := hyields.ne_endOfText rfl
  exact (Stream.isExpression_of_program hproper h).whole

theorem exists_describes (file : String) (src : Source) :
    ∃ a : Answer, a.Describes file src (verdict file src) := by
  have hplaced := parse_placed src
  cases hparse : parse src with
  | error stop =>
      rw [hparse] at hplaced
      have hline := hplaced.one_le_line
      have hhonest := honest_of_parse hparse
      rw [verdict, parseAs, hparse]
      cases stop with
      | endOfInput => exact ⟨.incomplete, rfl, rfl⟩
      | brokenOff why =>
          have hending : src.ending = .failure why :=
            Lexer.ending_of_parse_brokenOff (l := .start src) rfl hparse
          exact ⟨.cutShort, why, hending, rfl, hhonest⟩
      | lexical q fault => exact ⟨.misread, _, rfl, .inl rfl, rfl, hline, hhonest, rfl⟩
      | syntactic q fault => exact ⟨.misread, _, rfl, .inr rfl, rfl, hline, rfl, rfl⟩
  | ok e =>
      rw [verdict_of_parse hparse, checkAs]
      obtain ⟨t, htype, _⟩ | ⟨m, hfault, hat, _⟩ := typeOf_cases (parse_whole hparse)
      · rw [htype]
        exact ⟨.typed, t, rfl, by cases t <;> simp⟩
      · rw [hfault]
        refine ⟨.mistyped, _, m, e, rfl, rfl, rfl, rfl, rfl, hparse, hat, m.kind, ?_, ?_⟩
        · exact Mismatch.isA_anywhere_iff.mpr rfl
        · exact fun kind hkind => Mismatch.isA_anywhere_iff.mp hkind

/-- The verdict on a text is of exactly one kind, and no operand is ever missing from a
tree that is read. It is cut short only for a text that fails to be read. -/
theorem existsUnique_answer (file : String) (src : Source) :
    (∃! a : Answer, a.Describes file src (verdict file src)) ∧
    ∀ e, parse src = .ok e → e.Whole ∧ typeOf e ≠ .error .missing := by
  constructor
  · obtain ⟨a, ha⟩ := exists_describes file src
    exact ⟨a, ha, fun a' ha' => ha'.eq_of.trans ha.eq_of.symm⟩
  · intro e he
    have hwhole := parse_whole he
    refine ⟨hwhole, fun hmissing => ?_⟩
    obtain ⟨t, htype, _⟩ | ⟨m, hfault, _⟩ := typeOf_cases hwhole
    · cases hmissing.symm.trans htype
    · cases hmissing.symm.trans hfault

end TwoSorted
