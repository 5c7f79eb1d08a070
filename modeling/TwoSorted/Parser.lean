import TwoSorted.Expr
import TwoSorted.Fault

/-!
# The parser

The grammar is

    expression → sum ('?' expression ':' expression)?
    sum        → operand ('+' operand)*
    operand    → 'true' | 'false' | number | '(' expression ')'

Sums group to the left, conditionals to the right, and parentheses leave no
trace in the tree. Expressions may be nested in each other `maxLevels` deep; the
check comes as soon as the first token of an expression is seen, before anything
is made of it.

Every decision is taken on the token ahead. A token that is of no use at its
place stops the parser there; if the text ends where a token is wanted, it stops
for lack of input. The parser takes its tokens from a `Reader` and knows no more
of the text than that.
-/

namespace TwoSorted

/-- The ways to get tokens out of a text, of which `σ` is what is left. -/
structure Reader (σ : Type) where
  /-- The token ahead, which stays there; at the end it is `endOfText`. -/
  ahead : σ → Except Stop (Token × σ)
  /-- Takes the given symbol, which has been seen ahead. -/
  take : Symbol → σ → Except Stop σ
  /-- Takes the given symbol, or stops at what is there instead. -/
  expect : Symbol → σ → Except Stop σ

namespace Parser

/-- How deep expressions may be nested. -/
def maxLevels : Nat := 200

variable {σ : Type} (r : Reader σ)

/-- Reads an operand; `nested` reads the expression in parentheses. -/
def operand (nested : σ → Except Stop (Expr × σ)) (s : σ) :
    Except Stop (Expr × σ) := do
  let (t, s) ← r.ahead s
  match t.symbol with
  | .bool b =>
    let s ← r.take (.bool b) s
    .ok (.bool b, s)
  | .number v =>
    let s ← r.take (.number v) s
    .ok (.number v, s)
  | .openParen =>
    let s ← r.take .openParen s
    let (e, s) ← nested s
    let s ← r.expect .closeParen s
    .ok (e, s)
  | .endOfText => .error .endOfInput
  | found => .error (.syntactic t.position (.unexpected found))

/-- Reads the operands that are still to be added to `left`, of which there are
fewer than `bound`. -/
def summands (nested : σ → Except Stop (Expr × σ)) :
    (bound : Nat) → (left : Expr) → σ → Except Stop (Expr × σ)
  | 0, left, s => .ok (left, s)
  | bound + 1, left, s => do
    let (t, s) ← r.ahead s
    if t.symbol = .plus then
      let s ← r.take .plus s
      let (right, s) ← operand r nested s
      summands nested bound (.add left right) s
    else .ok (left, s)

/-- Reads a sum of at most `bound` operands. -/
def sum (nested : σ → Except Stop (Expr × σ)) (bound : Nat) (s : σ) :
    Except Stop (Expr × σ) := do
  let (left, s) ← operand r nested s
  summands r nested bound left s

/-- Reads an expression that may nest `levels` deep, itself included, in a text
of fewer than `bound` tokens. -/
def expression (bound : Nat) : (levels : Nat) → σ → Except Stop (Expr × σ)
  | 0, s => do
    let (t, _) ← r.ahead s
    .error (.syntactic t.position (.tooManyLevels t.symbol))
  | levels + 1, s => do
    let (test, s) ← sum r (expression bound levels) bound s
    let (t, s) ← r.ahead s
    if t.symbol = .question then
      let s ← r.take .question s
      let (yes, s) ← expression bound levels s
      let s ← r.expect .colon s
      let (no, s) ← expression bound levels s
      .ok (.cond test yes no, s)
    else .ok (test, s)

/-- Reads a whole text of fewer than `bound` tokens as one expression. -/
def program (bound : Nat) (s : σ) : Except Stop Expr := do
  let (e, s) ← expression r bound maxLevels s
  let (t, _) ← r.ahead s
  if t.symbol = .endOfText then .ok e
  else .error (.syntactic t.position (.trailing t.symbol))

end Parser

end TwoSorted
