import TwoSorted.Proofs.Parser.Language
import TwoSorted.Proofs.Typing.Rules
import TwoSorted.Verdict

/-!
# What a verdict depends on

The verdict on a text that can be cut into tokens depends on the kinds of its
tokens only. The values of numbers, the way in which they are written, white space,
comments and positions are of no account.

The parser sees the words of a grammar, and a word is read alike up to the values of
its numbers whatever they are (`Finished.parse_of_kinds_eq`). The typing rules do not look
at values, so a tree and the same tree with its values erased have the same type or
the same fault, but for the values in the node that is named
(`Expr.infer_erase`).
-/

namespace TwoSorted

open Outcome Grammar

/-! ### Types of erased trees -/

/-- The fault with zero in the place of every number. -/
def TypeFault.erase : TypeFault → TypeFault
  | missing => missing
  | mismatch m => mismatch { m with node := m.node.erase }

/-- Erasing the values of a tree erases them from its fault and keeps its type. -/
theorem Expr.infer_erase (path : List Nat) (e : Expr) :
    e.erase.infer path = (e.infer path).mapError TypeFault.erase := by
  induction e generalizing path with
  | missing => rfl
  | bool b => rfl
  | number v => rfl
  | add left right ihleft ihright =>
      simp only [erase, infer, ihleft, ihright, mapError_bind]
      refine bind_congr fun l _ => ?_
      cases l with
      | boolean => rfl
      | number =>
          simp only [ne_eq, not_true_eq_false, if_false, mapError_bind]
          refine bind_congr fun r _ => ?_
          cases r <;> rfl
  | cond test yes no ihtest ihyes ihno =>
      simp only [erase, infer, ihtest, ihyes, ihno, mapError_bind]
      refine bind_congr fun c _ => ?_
      cases c with
      | number => rfl
      | boolean =>
          simp only [ne_eq, not_true_eq_false, if_false, mapError_bind]
          refine bind_congr fun y _ => bind_congr fun n _ => ?_
          by_cases hsame : y = n
          · simp only [hsame]
            rfl
          · simp only [hsame]
            rfl

/-- Trees that differ in the values of numbers only have the same type, or faults
of the same kind at the same locus and path. -/
theorem typeOf_of_erase_eq {e e' : Expr} (h : e.erase = e'.erase) (he : e.Whole)
    (he' : e'.Whole) :
    (∃ t, typeOf e = .ok t ∧ typeOf e' = .ok t) ∨
    ∃ m m', typeOf e = .error (.mismatch m) ∧ typeOf e' = .error (.mismatch m') ∧
      m.kind = m'.kind ∧ m.locus = m'.locus ∧ m.path = m'.path ∧
      e.at? m.path = some m.node ∧ e'.at? m'.path = some m'.node := by
  have herase : (typeOf e).mapError TypeFault.erase =
      (typeOf e').mapError TypeFault.erase := by
    rw [typeOf_eq_infer_root, typeOf_eq_infer_root, ← Expr.infer_erase,
      ← Expr.infer_erase, h]
  obtain ⟨t, htype, _⟩ | ⟨m, hfault, hat, _⟩ := typeOf_cases he <;>
    obtain ⟨t', htype', _⟩ | ⟨m', hfault', hat', _⟩ := typeOf_cases he'
  · rw [htype, htype'] at herase
    cases herase
    exact .inl ⟨t, htype, htype'⟩
  · rw [htype, hfault'] at herase
    cases herase
  · rw [hfault, htype'] at herase
    cases herase
  · rw [hfault, hfault'] at herase
    have hmismatch := TypeFault.mismatch.inj (Except.error.inj herase)
    obtain ⟨hkind, hlocus, _, hpath⟩ := Mismatch.mk.inj hmismatch
    exact .inr ⟨m, m', hfault, hfault', hkind, hlocus, hpath, hat, hat'⟩

/-! ### Words with the same names -/

namespace Stream

open TwoSorted.Parser

/-- The stream holds all tokens of a text, up to its end. -/
structure Finished (s : Stream) : Prop where
  proper : s.Proper
  stop_eq : s.stop = .endOfInput

/-- Reads the stream as one expression. -/
def parse (s : Stream) : Except Stop Expr :=
  program reader (s.tokens.length + 1) s

variable {s s' : Stream}

theorem Finished.parse_of_isExpression (hs : s.Finished) {e : Expr}
    (h : IsExpression maxLevels s.spelling e) : s.parse = .ok e :=
  program_of_isExpression hs.stop_eq (Nat.lt_succ_self _) h

/-- A stream is read as the tree of its word, or its word can be continued, or no
word of the grammar begins with it. -/
theorem Finished.parse_cases (hs : s.Finished) :
    (∃ e, s.parse = .ok e ∧ IsExpression maxLevels s.spelling e) ∨
    (s.parse = .error .endOfInput ∧ Viable (IsExpression maxLevels) s.spelling) ∨
    ∃ q fault, s.parse = .error (.syntactic q fault) ∧
      ∀ v e, ¬ IsExpression maxLevels (s.spelling ++ v) e := by
  have hparser : Satisfies Stop.OfParser _ s.parse :=
    program_keeps reader_keeps_stop (s.tokens.length + 1) hs.stop_eq
  rcases hparse : s.parse with (_ | why | ⟨q, fault⟩ | ⟨q, fault⟩) | e <;>
    rw [hparse] at hparser
  · exact .inr (.inl ⟨rfl, viable_of_program hs.proper hparse⟩)
  · exact hparser.elim
  · exact hparser.elim
  · exact .inr (.inr ⟨q, fault, rfl,
      not_isExpression_of_program hs.stop_eq (Nat.lt_succ_self _) hparse⟩)
  · exact .inl ⟨e, rfl, isExpression_of_program hs.proper hparse⟩

/-- Streams of tokens of the same kinds are read as the same tree but for the values
of its numbers, or both lack input, or both are refused. -/
theorem Finished.parse_of_kinds_eq (hs : s.Finished) (hs' : s'.Finished)
    (h : kinds s.tokens = kinds s'.tokens) :
    (∃ e e', s.parse = .ok e ∧ s'.parse = .ok e' ∧ e.erase = e'.erase) ∨
    (s.parse = .error .endOfInput ∧ s'.parse = .error .endOfInput) ∨
    ∃ q fault q' fault', s.parse = .error (.syntactic q fault) ∧
      s'.parse = .error (.syntactic q' fault') := by
  have hnames : ∀ v : List Symbol, (s.spelling ++ v).map Symbol.name =
      (s'.spelling ++ v).map Symbol.name := by
    intro v
    rw [kinds_eq_map, kinds_eq_map] at h
    rw [List.map_append, List.map_append, spelling, spelling, h]
  have hnames' := hnames []
  rw [List.append_nil, List.append_nil] at hnames'
  obtain ⟨e, hparse, hword⟩ | ⟨hparse, v, e, hne, hword⟩ | ⟨q, fault, hparse, hnone⟩ :=
    hs.parse_cases
  · obtain ⟨e', hword', herase⟩ := IsExpression.of_names maxLevels hword hnames'.symm
    exact .inl ⟨e, e', hparse, hs'.parse_of_isExpression hword', herase.symm⟩
  · obtain ⟨e', hparse', hword'⟩ | ⟨hparse', _⟩ | ⟨q', fault', hparse', hnone'⟩ :=
      hs'.parse_cases
    · obtain ⟨e'', hword'', _⟩ := IsExpression.of_names maxLevels hword' hnames'
      rw [hs.parse_of_isExpression hword''] at hparse
      cases hparse
    · exact .inr (.inl ⟨hparse, hparse'⟩)
    · obtain ⟨e', hword', _⟩ := IsExpression.of_names maxLevels hword (hnames v).symm
      exact absurd hword' (hnone' v e')
  · obtain ⟨e', hparse', hword'⟩ | ⟨hparse', v, e', hne, hword'⟩ | ⟨q', fault', hparse', _⟩ :=
      hs'.parse_cases
    · obtain ⟨e, hword, _⟩ := IsExpression.of_names maxLevels hword' hnames'
      rw [hs.parse_of_isExpression hword] at hparse
      cases hparse
    · obtain ⟨e, hword, _⟩ := IsExpression.of_names maxLevels hword' (hnames v)
      exact absurd hword (hnone v e)
    · exact .inr (.inr ⟨q, fault, q', fault', hparse, hparse'⟩)

end Stream

/-- A text that can be cut into tokens is read as the stream of these tokens. -/
theorem Source.Lexes.parse_eq [Conversions] {src : Source} {ts : List Token} (h : src.Lexes ts) :
    ∃ s : Stream, s.Finished ∧ s.tokens = ts ∧ TwoSorted.parse src = s.parse := by
  obtain ⟨l, hyields⟩ := h
  exact ⟨⟨ts, .endOfInput, l.position⟩, ⟨hyields.ne_endOfText rfl, rfl⟩, rfl,
    Lexer.parse_eq_program rfl hyields (Nat.lt_succ_self _)⟩

/-! ### Trees of words -/

namespace Grammar

variable {nested : Phrase} {w : List Symbol} {e : Expr}

theorem IsOperand.whole (hn : ∀ w e, nested w e → e.Whole) (h : IsOperand nested w e) :
    e.Whole := by
  cases h with
  | bool b => trivial
  | number v => trivial
  | paren h => exact hn _ _ h

theorem IsSum.whole (hn : ∀ w e, nested w e → e.Whole) (h : IsSum nested w e) :
    e.Whole := by
  induction h with
  | operand h => exact h.whole hn
  | add _ hright ihleft => exact ⟨ihleft, hright.whole hn⟩

/-- No operand is missing from the tree of a word. -/
theorem IsExpression.whole {n : Nat} (h : IsExpression n w e) : e.Whole := by
  induction n generalizing w e with
  | zero => exact h.elim
  | succ n ih =>
      cases h with
      | sum h => exact h.whole fun _ _ => ih
      | cond htest hyes hno => exact ⟨htest.whole fun _ _ => ih, ih hyes, ih hno⟩

end Grammar

theorem Stream.Finished.whole {s : Stream} (hs : s.Finished) {e : Expr}
    (h : s.parse = .ok e) : e.Whole := by
  obtain ⟨e', hparse, hword⟩ | ⟨hparse, _⟩ | ⟨q, fault, hparse, _⟩ := hs.parse_cases <;>
    rw [h] at hparse <;> cases hparse
  exact hword.whole

/-! ### Verdicts -/

/-- The verdict on a text that is read as a tree is the type of the tree. -/
theorem verdict_of_parse [Conversions] {src : Source} {e : Expr} (h : parse src = .ok e)
    (file : String) : verdict file src = checkAs file e := by
  simp only [verdict, parseAs, h]
  rfl

/-- Two texts that are read as trees which differ in the values of numbers only
get the same verdict. -/
theorem verdict_of_erase_eq [Conversions] {src src' : Source} {e e' : Expr} (h : parse src = .ok e)
    (h' : parse src' = .ok e') (he : e.Whole) (he' : e'.Whole)
    (herase : e.erase = e'.erase) (file file' : String) :
    (∃ t, verdict file src = .ok t ∧ verdict file' src' = .ok t) ∨
    ∃ m m', verdict file src = .error (.ofTypeFault file (.mismatch m)) ∧
      verdict file' src' = .error (.ofTypeFault file' (.mismatch m')) ∧
      m.kind = m'.kind ∧ m.locus = m'.locus ∧ m.path = m'.path ∧
      e.at? m.path = some m.node ∧ e'.at? m'.path = some m'.node := by
  rw [verdict_of_parse h, verdict_of_parse h', checkAs, checkAs]
  obtain ⟨t, htype, htype'⟩ | ⟨m, m', hfault, hfault', hsame⟩ :=
    typeOf_of_erase_eq herase he he'
  · rw [htype, htype']
    exact .inl ⟨t, rfl, rfl⟩
  · rw [hfault, hfault']
    exact .inr ⟨m, m', rfl, rfl, hsame⟩

/-- Two texts whose tokens are of the same kinds get the same verdict: the same
type, or a fault of the same kind at the same locus and path, or both texts lack
input, or both are refused by the parser. -/
theorem verdict_of_kinds_eq [Conversions] {a b : List UInt8} {ts us : List Token}
    (ha : (Source.ofBytes a).Lexes ts) (hb : (Source.ofBytes b).Lexes us)
    (h : kinds ts = kinds us) (file file' : String) :
    (∃ e e', parse (.ofBytes a) = .ok e ∧ parse (.ofBytes b) = .ok e' ∧
      e.erase = e'.erase ∧
      ((∃ t, verdict file (.ofBytes a) = .ok t ∧ verdict file' (.ofBytes b) = .ok t) ∨
        ∃ m m', verdict file (.ofBytes a) = .error (.ofTypeFault file (.mismatch m)) ∧
          verdict file' (.ofBytes b) = .error (.ofTypeFault file' (.mismatch m')) ∧
          m.kind = m'.kind ∧ m.locus = m'.locus ∧ m.path = m'.path ∧
          e.at? m.path = some m.node ∧ e'.at? m'.path = some m'.node)) ∨
    (parse (.ofBytes a) = .error .endOfInput ∧ parse (.ofBytes b) = .error .endOfInput) ∨
    ∃ q fault q' fault', parse (.ofBytes a) = .error (.syntactic q fault) ∧
      parse (.ofBytes b) = .error (.syntactic q' fault') := by
  obtain ⟨s, hs, rfl, hparse⟩ := ha.parse_eq
  obtain ⟨s', hs', rfl, hparse'⟩ := hb.parse_eq
  obtain ⟨e, e', hread, hread', herase⟩ | hlacking | hrefused :=
    hs.parse_of_kinds_eq hs' h
  · refine .inl ⟨e, e', hparse.trans hread, hparse'.trans hread', herase, ?_⟩
    exact verdict_of_erase_eq (hparse.trans hread) (hparse'.trans hread')
      (hs.whole hread) (hs'.whole hread') herase file file'
  · rw [hparse, hparse']
    exact .inr (.inl hlacking)
  · rw [hparse, hparse']
    exact .inr (.inr hrefused)

set_option maxRecDepth 2000 in
/-- The texts `true?0x1F:2+false` and, with a comment after the colon and the rest on
a new line, `true ?1e9:.5+false`. -/
theorem verdict_of_kinds_eq_values :
    let a : List UInt8 :=
      [0x74, 0x72, 0x75, 0x65, 0x3F, 0x30, 0x78, 0x31, 0x46, 0x3A, 0x32, 0x2B, 0x66, 0x61,
       0x6C, 0x73, 0x65]
    let b : List UInt8 :=
      [0x74, 0x72, 0x75, 0x65, 0x20, 0x3F, 0x31, 0x65, 0x39, 0x3A, 0x2F, 0x2F, 0x20, 0x0A,
       0x2E, 0x35, 0x2B, 0x66, 0x61, 0x6C, 0x73, 0x65]
    ∃ ts us m m', (Source.ofBytes a).Lexes ts ∧ (Source.ofBytes b).Lexes us ∧
      kinds ts = kinds us ∧
      verdict "a" (.ofBytes a) = .error (.ofTypeFault "a" (.mismatch m)) ∧
      verdict "b" (.ofBytes b) = .error (.ofTypeFault "b" (.mismatch m')) ∧
      m'.kind = .numberExpected ∧ m'.locus = .right ∧ m'.path = [2] := by
  intro a b
  obtain ⟨ts, us, ha, hb, hkinds⟩ : ∃ ts us, (Source.ofBytes a).Lexes ts ∧
      (Source.ofBytes b).Lexes us ∧ kinds ts = kinds us := by
    -- the tokens come from evaluating the lexer on the bytes themselves
    simp only [a, b]
    refine ⟨_, _,
      ⟨_, .token rfl (.token rfl (.token rfl (.token rfl (.token rfl (.token rfl
        (.token rfl (.stopped rfl)))))))⟩,
      ⟨_, .token rfl (.token rfl (.token rfl (.token rfl (.token rfl (.token rfl
        (.token rfl (.stopped rfl)))))))⟩, ?_⟩
    simp only [kinds, List.map, Symbol.name]
  have hread : parse (.ofBytes a) = .ok (.cond (.bool true) (.number ⟨0x403F000000000000⟩)
      (.add (.number ⟨0x4000000000000000⟩) (.bool false))) := by decide +kernel
  have hfault : verdict "a" (.ofBytes a) = .error (.ofTypeFault "a" (.mismatch
      ⟨.numberExpected, .right, .add (.number ⟨0x4000000000000000⟩) (.bool false), [2]⟩)) := by
    rw [verdict_of_parse hread, checkAs, typeOf_eq_infer_root]
    rfl
  obtain ⟨_, _, _, _, _, ⟨t, htype, _⟩ | ⟨m, m', hm, hm', hkind, hlocus, hpath, _⟩⟩ |
      ⟨hlacking, _⟩ | ⟨_, _, _, _, hrefused, _⟩ := verdict_of_kinds_eq ha hb hkinds "a" "b"
  · rw [hfault] at htype
    cases htype
  · rw [hfault] at hm
    cases hm
    exact ⟨ts, us, _, m', ha, hb, hkinds, hfault, hm', hkind.symm, hlocus.symm, hpath.symm⟩
  · rw [hread] at hlacking
    cases hlacking
  · rw [hread] at hrefused
    cases hrefused

end TwoSorted
