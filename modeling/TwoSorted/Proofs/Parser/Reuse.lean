import TwoSorted.Proofs.Parser.Pushback
import TwoSorted.TextParser

/-!
# Nothing is left over from an earlier text

A parser that is used again gives what a new one does (`TextParser.parse_fst`). Each of
its steps does what the step of the same name does that is given the lexer and hands the
lexer on: `Runs` says so. After success the lexer is all that has changed, so that the
levels count the expressions that are open; after a failure the parser may be in any
state, and nothing depends on it.
-/

namespace TwoSorted

open Parser (maxLevels)

namespace TextParser

variable {α β γ δ : Type} {p : TextParser}

/-- A step from `p` comes to `x`, and the step that hands on the lexer comes to `y`. -/
inductive Runs (out : α → Lexer → β) (p : TextParser) :
    EStateM.Result Failure TextParser α → Except Stop β → Prop
  | ok (a : α) (l : Lexer) : Runs out p (.ok a { p with lexer := l }) (.ok (out a l))
  | error (stop : Stop) (p' : TextParser) :
      Runs out p (.error (.ofStop p.file stop) p') (.error stop)

namespace Runs

variable {out : α → Lexer → β} {out' : γ → Lexer → δ}

theorem bind {m : Step α} {y : Except Stop β} {f : α → Step γ} {g : β → Except Stop δ}
    {p₀ : TextParser} (h : Runs out p (m p₀) y)
    (hf : ∀ a l, Runs out' p (f a { p with lexer := l }) (g (out a l))) :
    Runs out' p ((m >>= f) p₀) (y >>= g) := by
  change Runs out' p (EStateM.bind m f p₀) (y >>= g)
  unfold EStateM.bind
  cases hm : m p₀ with
  | ok a p₁ =>
      rw [hm] at h
      cases h with
      | ok a l => exact hf a l
  | error failure p₁ =>
      rw [hm] at h
      cases h with
      | error stop p₁ => exact error stop p₁

/-- A level that was entered is left again. -/
theorem leaving {m : Step α} {y : Except Stop β} {p₀ : TextParser}
    (h : Runs out { p with levels := p.levels + 1 } (m p₀) y) :
    Runs out p (TextParser.leaving m p₀) y := by
  unfold TextParser.leaving
  cases hm : m p₀ with
  | ok a p₁ =>
      rw [hm] at h
      cases h with
      | ok a l => exact ok a l
  | error failure p₁ =>
      rw [hm] at h
      cases h with
      | error stop p₁ => exact error stop _

end Runs

theorem look_runs [Conversions] (p : TextParser) (l : Lexer) :
    Runs Prod.mk p (look { p with lexer := l }) l.ahead := by
  unfold look Lexer.ahead
  dsimp only
  rcases l.peek with ⟨stop | t, l⟩
  · exact .error stop _
  · exact .ok t l

theorem consume_runs [Conversions] (c : Symbol) (p : TextParser) (l : Lexer) :
    Runs (fun _ l => l) p (consume c { p with lexer := l }) (l.expect c) := by
  unfold consume Lexer.expect
  dsimp only
  rcases l.next with ⟨stop | t, l⟩
  · exact .error stop _
  · dsimp only
    split
    · exact .ok () l
    · exact .error _ _

/-- While there is room, a level is entered. -/
theorem enterLevel_bind {t : Token} (f : Unit → Step α) (h : p.levels < maxLevels) (l : Lexer) :
    (enterLevel t >>= f) { p with lexer := l } =
      f () { p with lexer := l, levels := p.levels + 1 } := by
  have henter : enterLevel t { p with lexer := l } =
      .ok () { p with lexer := l, levels := p.levels + 1 } :=
    if_neg (Nat.not_lt.mpr h)
  change EStateM.bind (enterLevel t) f _ = _
  rw [EStateM.bind, henter]

/-- Without room, the parser stops at the token, with one level too many. -/
theorem enterLevel_bind_of_full {t : Token} (f : Unit → Step α) (h : p.levels = maxLevels)
    (l : Lexer) :
    (enterLevel t >>= f) { p with lexer := l } =
      .error (.ofStop p.file (.syntactic t.position (.tooManyLevels t.symbol)))
        { p with lexer := l, levels := p.levels + 1 } := by
  have henter : enterLevel t { p with lexer := l } =
      .error (.ofStop p.file (.syntactic t.position (.tooManyLevels t.symbol)))
        { p with lexer := l, levels := p.levels + 1 } :=
    if_pos (h ▸ Nat.lt_succ_self _)
  change EStateM.bind (enterLevel t) f _ = _
  rw [EStateM.bind, henter]

end TextParser

variable [Conversions]

namespace Lexer

open TwoSorted.Parser Outcome

/-- To look ahead first changes nothing for what begins by looking ahead. -/
theorem ahead_again {α : Type} (l : Lexer) (f : Token × Lexer → Except Stop α) :
    (l.ahead >>= fun x => x.2.ahead >>= f) = l.ahead >>= f := by
  cases hahead : l.ahead with
  | error stop => rfl
  | ok x =>
      obtain ⟨t, l'⟩ := x
      have hagain : l'.ahead = .ok (t, l') := by
        rw [ahead, peek_of_peek (peek_of_ahead hahead)]
      simp only [ok_bind, hagain]

theorem operand_again (nested : Lexer → Except Stop (Expr × Lexer)) (l : Lexer) :
    (l.ahead >>= fun x => operand reader nested x.2) = operand reader nested l :=
  ahead_again l _

theorem expression_again (bound levels : Nat) (l : Lexer) :
    (l.ahead >>= fun x => expression reader bound (levels + 1) x.2) =
      expression reader bound (levels + 1) l := by
  simp only [expression, sum, bind_assoc]
  rw [← operand_again _ l]
  simp only [bind_assoc]

end Lexer

namespace TextParser

section Steps

variable {nested : Step Expr} {nested' : Lexer → Except Stop (Expr × Lexer)} {p : TextParser}
  (hn : ∀ l, Runs Prod.mk p (nested { p with lexer := l }) (nested' l))

include hn

theorem operand_runs (l : Lexer) : Runs Prod.mk p (operand nested { p with lexer := l })
    (Parser.operand Lexer.reader nested' l) := by
  unfold operand Parser.operand
  refine (look_runs p l).bind fun t l => ?_
  dsimp only
  cases t.symbol with
  | bool b => exact (consume_runs _ p l).bind fun _ l => .ok _ l
  | number v => exact (consume_runs _ p l).bind fun _ l => .ok _ l
  | openParen =>
      refine (consume_runs _ p l).bind fun _ l => (hn l).bind fun e l => ?_
      exact (consume_runs _ p l).bind fun _ l => .ok e l
  | endOfText => exact .error .endOfInput _
  | plus => exact .error _ _
  | question => exact .error _ _
  | colon => exact .error _ _
  | closeParen => exact .error _ _

theorem summands_runs (bound : Nat) (left : Expr) (l : Lexer) :
    Runs Prod.mk p (summands nested bound left { p with lexer := l })
      (Parser.summands Lexer.reader nested' bound left l) := by
  induction bound generalizing left l with
  | zero => exact .ok left l
  | succ bound ih =>
      unfold summands Parser.summands
      refine (look_runs p l).bind fun t l => ?_
      dsimp only
      split
      · refine (consume_runs _ p l).bind fun _ l => (operand_runs hn l).bind fun right l => ?_
        exact ih (.add left right) l
      · exact .ok left l

theorem sum_runs (bound : Nat) (l : Lexer) :
    Runs Prod.mk p (sum nested bound { p with lexer := l })
      (Parser.sum Lexer.reader nested' bound l) :=
  (operand_runs hn l).bind fun left l => summands_runs hn bound left l

end Steps

/-- The parser counts the levels up that the other one counts down. -/
theorem expression_runs (bound levels : Nat) {p : TextParser}
    (h : p.levels + levels = maxLevels) (l : Lexer) :
    Runs Prod.mk p (expression bound levels { p with lexer := l })
      (Parser.expression Lexer.reader bound levels l) := by
  induction levels generalizing p l with
  | zero =>
      unfold expression Parser.expression
      refine (look_runs p l).bind fun t l => ?_
      rw [enterLevel_bind_of_full _ h]
      exact .error _ _
  | succ levels ih =>
      rw [← Lexer.expression_again]
      unfold expression
      refine (look_runs p l).bind fun t l => ?_
      have hroom : p.levels < maxLevels := by omega
      rw [enterLevel_bind _ hroom]
      have hn := @ih { p with levels := p.levels + 1 } (by dsimp only; omega)
      unfold Parser.expression
      refine Runs.leaving ((sum_runs hn bound l).bind fun test l => ?_)
      refine (look_runs _ l).bind fun t l => ?_
      dsimp only
      split
      · refine (consume_runs _ _ l).bind fun _ l => (hn l).bind fun yes l => ?_
        refine (consume_runs _ _ l).bind fun _ l => (hn l).bind fun no l => ?_
        exact .ok _ l
      · exact .ok test l

theorem program_runs (bound : Nat) {p : TextParser} (h : p.levels = 0) (l : Lexer) :
    Runs (fun e _ => e) p (program bound { p with lexer := l })
      (Parser.program Lexer.reader bound l) := by
  unfold program Parser.program
  refine (expression_runs bound maxLevels (by rw [h, Nat.zero_add]) l).bind fun e l => ?_
  refine (look_runs p l).bind fun t l => ?_
  dsimp only
  split
  · exact .ok e l
  · exact .error _ _

/-- A parser in any state reads a text as a new one does. -/
theorem parse_fst (p : TextParser) (file : String) (src : Source) :
    (p.parse file src).1 = parseAs file src := by
  have hruns := program_runs ((Lexer.start src).cursor.rest.length + 1)
    (p := { p with file := file, levels := 0 }) rfl (Lexer.start src)
  rw [parseAs, TwoSorted.parse, Lexer.parse]
  unfold parse
  dsimp only at hruns ⊢
  generalize program _ _ = x at hruns ⊢
  generalize Parser.program _ _ _ = y at hruns ⊢
  cases hruns with
  | ok e l => rfl
  | error stop p' => rfl

end TextParser

end TwoSorted
