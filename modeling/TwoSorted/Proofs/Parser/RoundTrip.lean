import TwoSorted.Proofs.Parser.Language
import TwoSorted.Proofs.Token.Printed

/-!
# Printing and reading back

A printed expression is read back as itself, up to the limit on nesting. Every
sum and every conditional is printed in parentheses, which count one level, and
either branch of a conditional counts one more; `Expr.nesting` adds these up. If
the whole nests deeper than the parser allows, reading it fails for that reason
and no other.
-/

namespace TwoSorted

open Grammar Outcome TwoSorted.Parser TwoSorted.Stream

namespace Expr

/-- How many expressions are nested in the printed one, one in another. -/
def nesting : Expr → Nat
  | add left right => 1 + max left.nesting right.nesting
  | cond test yes no => 1 + max test.nesting (max (1 + yes.nesting) (1 + no.nesting))
  | _ => 0

/-- A printed expression is an operand of the grammar. -/
theorem isOperand_symbols {e : Expr} (h : e.Printable) {n : Nat} (hn : e.nesting ≤ n) :
    IsOperand (IsExpression n) e.symbols e := by
  induction e generalizing n with
  | missing => exact h.elim
  | bool b => exact .bool b
  | number v => exact .number v
  | add left right ihleft ihright =>
      simp only [nesting] at hn
      obtain ⟨n, rfl⟩ : ∃ m, n = m + 1 := ⟨n - 1, by omega⟩
      have hleft := ihleft h.1 (n := n) (by omega)
      have hright := ihright h.2 (n := n) (by omega)
      have hparen : IsOperand (IsExpression (n + 1))
          (.openParen :: (left.symbols ++ .plus :: right.symbols ++ [.closeParen]))
          (add left right) := .paren (.sum (.add (.operand hleft) hright))
      simpa [symbols] using hparen
  | cond test yes no ihtest ihyes ihno =>
      simp only [nesting] at hn
      obtain ⟨n, rfl⟩ : ∃ m, n = m + 2 := ⟨n - 2, by omega⟩
      have htest := ihtest h.1 (n := n + 1) (by omega)
      have hyes := ihyes h.2.1 (n := n) (by omega)
      have hno := ihno h.2.2 (n := n) (by omega)
      have hparen : IsOperand (IsExpression (n + 2))
          (.openParen :: (test.symbols ++ .question :: (yes.symbols ++ .colon :: no.symbols) ++
            [.closeParen]))
          (cond test yes no) :=
        .paren (.cond (.operand htest) (.sum (.operand hyes)) (.sum (.operand hno)))
      simpa [symbols] using hparen

theorem isExpression_symbols {e : Expr} (h : e.Printable) {n : Nat}
    (hn : 1 + e.nesting ≤ n) : IsExpression n e.symbols e := by
  obtain ⟨n, rfl⟩ : ∃ m, n = m + 1 := ⟨n - 1, by omega⟩
  exact .sum (.operand (isOperand_symbols h (by omega)))

end Expr

/-! ### Nesting too deep -/

/-- Reading fails because expressions nest too deep. -/
def TooDeep {α : Type} (x : Except Stop α) : Prop :=
  ∃ q found, x = .error (.syntactic q (.tooManyLevels found))

theorem TooDeep.bind {α β : Type} {x : Except Stop α} (h : TooDeep x)
    (f : α → Except Stop β) : TooDeep (x >>= f) := by
  obtain ⟨q, found, rfl⟩ := h
  exact ⟨q, found, rfl⟩

namespace Parser

theorem expression_zero_tooDeep {bound : Nat} {s s' : Stream} {w : List Symbol}
    (hw : w ≠ []) (hs : s.Spells w s') : TooDeep (expression reader bound 0 s) := by
  cases w with
  | nil => exact absurd rfl hw
  | cons c w =>
      obtain ⟨t, _, hahead, _⟩ := hs.of_cons
      exact ⟨t.position, t.symbol, by simp [expression, hahead]⟩

theorem operand_paren_tooDeep {nested : Stream → Except Stop (Expr × Stream)}
    {s s' : Stream} {w : List Symbol} (hs : s.Spells (.openParen :: w) s')
    (h : ∀ m, m.Spells w s' → m.tokens.length < s.tokens.length → TooDeep (nested m)) :
    TooDeep (operand reader nested s) := by
  obtain ⟨t, m, hahead, ht, htake, hm⟩ := hs.of_cons
  simp only [operand, reader_ahead, hahead, ok_bind, ht, reader_take, htake]
  exact (h m hm (length_lt_of_expect htake)).bind _

/-- Where the printed expression nests deeper than the level allows, reading it as
an operand fails. -/
def Refused (e : Expr) : Prop :=
  ∀ ⦃bound n s s'⦄, n < e.nesting → s.Spells e.symbols s' → s.tokens.length < bound →
    TooDeep (operand reader (expression reader bound n) s)

/-- An expression that is printed as an operand needs one more level. -/
theorem Refused.expression {e : Expr} (h : Refused e) (he : e.Printable) {bound n : Nat}
    (hn : n ≤ e.nesting) {s s' : Stream} (hs : s.Spells e.symbols s')
    (hbound : s.tokens.length < bound) : TooDeep (expression reader bound n s) := by
  cases n with
  | zero => exact expression_zero_tooDeep (Expr.symbols_ne_nil he) hs
  | succ n => exact ((h hn hs hbound).bind _).bind _

/-- A printed expression nests too deep for the level, or it is read as an operand. -/
theorem Refused.operand_cases {e : Expr} (h : Refused e) (he : e.Printable) (n : Nat)
    {bound : Nat} {s s' : Stream} (hs : s.Spells e.symbols s')
    (hbound : s.tokens.length < bound) :
    TooDeep (operand reader (Parser.expression reader bound n) s) ∨
      (e.nesting ≤ n ∧
        operand reader (Parser.expression reader bound n) s = .ok (e, s')) := by
  rcases Nat.lt_or_ge n e.nesting with hdeep | hn
  · exact .inl (h hdeep hs hbound)
  · exact .inr ⟨hn, operand_complete (expression_complete bound n)
      (Expr.isOperand_symbols he hn) hs hbound⟩

theorem refused_add {left right : Expr} (he : left.Printable) (hleft : Refused left)
    (hright : Refused right) : Refused (.add left right) := by
  intro bound n s s' hn hs hbound
  refine operand_paren_tooDeep hs fun m hm hlt => ?_
  cases n with
  | zero => exact expression_zero_tooDeep (by simp) hm
  | succ n =>
      simp only [Expr.nesting] at hn
      obtain ⟨m₁, hs₁, hrest⟩ := hm.of_append
      obtain hdeep | ⟨hread, hoperand⟩ :=
        hleft.operand_cases he n hs₁ (show m.tokens.length < bound by omega)
      · exact (hdeep.bind _).bind _
      · -- the left operand is read, so it is the right one that nests too deep
        obtain ⟨t, m₂, hahead, ht, htake, hrest⟩ := hrest.of_cons
        obtain ⟨m₃, hs₂, _⟩ := hrest.of_append
        have hle := hs₁.length_le
        have hlt₁ := length_lt_of_expect htake
        have hdeep' := hright (n := n) (by omega) hs₂ (show m₂.tokens.length < bound by omega)
        obtain ⟨b, rfl⟩ : ∃ b, bound = b + 1 := ⟨bound - 1, by omega⟩
        have hsum : TooDeep (sum reader (expression reader (b + 1) n) (b + 1) m) := by
          simp only [sum, hoperand, ok_bind, summands, reader_ahead, hahead, ht, if_true,
            reader_take, htake]
          exact hdeep'.bind _
        exact hsum.bind _

theorem refused_cond {test yes no : Expr} (he : (Expr.cond test yes no).Printable)
    (htest : Refused test) (hyes : Refused yes) (hno : Refused no) :
    Refused (.cond test yes no) := by
  intro bound n s s' hn hs hbound
  refine operand_paren_tooDeep hs fun m hm hlt => ?_
  cases n with
  | zero => exact expression_zero_tooDeep (by simp) hm
  | succ n =>
      simp only [Expr.nesting] at hn
      obtain ⟨m₁, hs₁, hrest⟩ := hm.of_append
      obtain hdeep | ⟨hread, hoperand⟩ :=
        htest.operand_cases he.1 n hs₁ (show m.tokens.length < bound by omega)
      · exact (hdeep.bind _).bind _
      · -- the condition is read, so it is one of the branches that nests too deep
        obtain ⟨t, m₂, hahead, ht, htake, hrest⟩ := hrest.of_cons
        obtain ⟨m₃, hs₂, hrest⟩ := hrest.of_append
        obtain ⟨t', m₄, hahead', ht', hexpect, hrest⟩ := hrest.of_cons
        obtain ⟨m₅, hs₃, _⟩ := hrest.of_append
        have hle₁ := hs₁.length_le
        have hlt₂ := length_lt_of_expect htake
        have hle₃ := hs₂.length_le
        have hlt₄ := length_lt_of_expect hexpect
        have hsum : sum reader (expression reader bound n) bound m = .ok (test, m₁) := by
          simp only [sum, hoperand, ok_bind]
          exact summands_eq_ok hahead (by simp [ht])
        simp only [Parser.expression, hsum, ok_bind, reader_ahead, hahead, ht, if_true,
          reader_take, htake]
        by_cases hdeep' : n ≤ yes.nesting
        · exact (hyes.expression he.2.1 hdeep' hs₂ (by omega)).bind _
        · have hyes := expression_complete bound n
            (Expr.isExpression_symbols he.2.1 (by omega)) hs₂
            (closes_of_ahead hahead' (.inr (.inl ht'))) (by omega)
          simp only [hyes, ok_bind, reader_expect, hexpect]
          exact (hno.expression he.2.2 (by omega) hs₃ (by omega)).bind _

theorem refused {e : Expr} (h : e.Printable) : Refused e := by
  induction e with
  | missing => exact h.elim
  | bool b => exact fun _ n _ _ hn => absurd hn (Nat.not_lt_zero n)
  | number v => exact fun _ n _ _ hn => absurd hn (Nat.not_lt_zero n)
  | add left right ihleft ihright => exact refused_add h.1 (ihleft h.1) (ihright h.2)
  | cond test yes no ihtest ihyes ihno =>
      exact refused_cond h (ihtest h.1) (ihyes h.2.1) (ihno h.2.2)

end Parser

/-- The parser sees a printed expression as the stream of its symbols. -/
theorem parse_text_eq_program {e : Expr} (h : e.Printable) :
    ∃ (s : Stream) (bound : Nat), s.stop = .endOfInput ∧ s.spelling = e.symbols ∧
      s.tokens.length < bound ∧ parse (.ofString e.text) = program reader bound s := by
  have hend : EndsLiteral (Lookahead.byte.ahead []) := .inr (.inr rfl)
  have hstart : Lexer.start (.ofString e.text) =
      Lexer.onText (e.text.toList.map .char ++ []) Position.start := by
    rw [List.append_nil, ← pieces_toUTF8 (Expr.toNat_lt_of_mem_text h)]
    rfl
  obtain ⟨q, hgives⟩ := Expr.reads_text h hend Position.start
  obtain ⟨us, hus, hyields⟩ := hgives.yields (.stopped rfl)
  rw [List.append_nil us] at hyields
  refine ⟨⟨us, .endOfInput, q⟩, us.length + 1, rfl, hus, Nat.lt_succ_self _, ?_⟩
  rw [parse, hstart]
  exact Lexer.parse_eq_program rfl hyields (Nat.lt_succ_self _)

/-- Printing and reading back is the identity, up to the limit on nesting. -/
theorem parse_text (e : Expr) (h : e.Printable) :
    (1 + e.nesting ≤ maxLevels → parse (.ofString e.text) = .ok e) ∧
    (maxLevels < 1 + e.nesting → ∃ q found,
      parse (.ofString e.text) = .error (.syntactic q (.tooManyLevels found)) ∧
        (SyntaxFault.tooManyLevels found).message = "chunk has too many syntax levels") := by
  obtain ⟨s, bound, hstop, hspelling, hbound, hparse⟩ := parse_text_eq_program h
  constructor
  · intro hle
    have hword := Expr.isExpression_symbols h hle
    rw [← hspelling] at hword
    rw [hparse, program_of_isExpression hstop hbound hword]
  · intro hlt
    have hs : s.Spells e.symbols { s with tokens := [] } :=
      ⟨s.tokens, by simp, hspelling⟩
    have hdeep : TooDeep (program reader bound s) :=
      ((refused h).expression h (by omega) hs hbound).bind _
    obtain ⟨q, found, hprogram⟩ := hdeep
    exact ⟨q, found, hparse.trans hprogram, rfl⟩

/-- Sums nested `n` deep. -/
def Expr.tower : Nat → Expr
  | 0 => .bool true
  | n + 1 => .add (.number ⟨0x444B1AE4D6E2EF50⟩) (tower n)

theorem Expr.tower_spec (n : Nat) : (tower n).Printable ∧ (tower n).nesting = n := by
  induction n with
  | zero => exact ⟨trivial, rfl⟩
  | succ n ih =>
      refine ⟨⟨by decide, ih.1⟩, ?_⟩
      simp only [tower, nesting, ih.2]
      omega

/-- A conditional with the least positive number and one of many digits, and the
sums on either side of the limit. -/
theorem parse_text_limits :
    parse (.ofString (Expr.cond (.bool true) (.number ⟨1⟩)
        (.number ⟨0x3FD5555555555555⟩)).text) =
      .ok (.cond (.bool true) (.number ⟨1⟩) (.number ⟨0x3FD5555555555555⟩)) ∧
    parse (.ofString (Expr.tower 199).text) = .ok (Expr.tower 199) ∧
    ∃ q found, parse (.ofString (Expr.tower 200).text) =
      .error (.syntactic q (.tooManyLevels found)) := by
  obtain ⟨hprintable, hnesting⟩ := Expr.tower_spec 199
  obtain ⟨hprintable', hnesting'⟩ := Expr.tower_spec 200
  obtain ⟨q, found, hparse, _⟩ := (parse_text _ hprintable').2 (by rw [hnesting']; decide)
  exact ⟨(parse_text _ (by decide)).1 (by decide),
    (parse_text _ hprintable).1 (by rw [hnesting]; decide), q, found, hparse⟩

end TwoSorted
