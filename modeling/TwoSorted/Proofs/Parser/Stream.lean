import TwoSorted.Proofs.Parser.Comparison

/-!
# Streams of tokens

A `Stream` is what a text comes to for the parser: the tokens before it first
stops giving any, why it stops, and the position reached there. `Stream.reader`
makes it a source of tokens. `s.Spells w s'` says that the symbols of `w` lead
from `s` to `s'`, which is how the reader is compared with words of a grammar.
-/

namespace TwoSorted

open Outcome

/-- The tokens of a text up to where it stops, the stop, and the position there. -/
structure Stream where
  tokens : List Token
  stop : Stop
  position : Position

namespace Stream

/-- The token ahead; where the text just ends it is `endOfText`. -/
def ahead (s : Stream) : Except Stop (Token × Stream) :=
  match s.tokens with
  | t :: _ => .ok (t, s)
  | [] => if s.stop.isEnd then .ok (⟨.endOfText, s.position⟩, s) else .error s.stop

/-- Takes the symbol `wanted`, or stops at what is there instead. -/
def expect (wanted : Symbol) (s : Stream) : Except Stop Stream :=
  match s.tokens with
  | t :: rest =>
    if t.symbol = wanted then .ok { s with tokens := rest }
    else .error (.syntactic t.position (.mismatch wanted t.symbol))
  | [] => .error s.stop

/-- A stream as a source of tokens for the parser. -/
def reader : Reader Stream :=
  ⟨ahead, expect, expect⟩

@[simp] theorem reader_ahead : reader.ahead = ahead := rfl

@[simp] theorem reader_take : reader.take = expect := rfl

@[simp] theorem reader_expect : reader.expect = expect := rfl

/-- The symbols of the tokens. -/
def spelling (s : Stream) : List Symbol :=
  s.tokens.map Token.symbol

/-- No token of the stream stands for the end of the text. -/
def Proper (s : Stream) : Prop :=
  ∀ t ∈ s.tokens, t.symbol ≠ .endOfText

/-- The token ahead is there, and it does not continue an expression. -/
def Closes (s : Stream) : Prop :=
  ∃ t, s.ahead = .ok (t, s) ∧ t.symbol ≠ .plus ∧ t.symbol ≠ .question

/-- Taking the symbols of `w` from `s` leaves `s'`. -/
def Spells (s : Stream) (w : List Symbol) (s' : Stream) : Prop :=
  ∃ us, s = { s' with tokens := us ++ s'.tokens } ∧ us.map Token.symbol = w

/-! ### What a stream gives -/

theorem ahead_of_tokens {s : Stream} {t : Token} {rest : List Token}
    (h : s.tokens = t :: rest) : s.ahead = .ok (t, s) := by
  simp only [ahead, h]

theorem ahead_of_end {s : Stream} (htokens : s.tokens = []) (hstop : s.stop.isEnd = true) :
    s.ahead = .ok (⟨.endOfText, s.position⟩, s) := by
  simp only [ahead, htokens, hstop, if_true]

theorem ahead_of_stop {s : Stream} (htokens : s.tokens = []) (hstop : s.stop.isEnd = false) :
    s.ahead = .error s.stop := by
  simp [ahead, htokens, hstop]

/-- There is a token ahead, the text is at its end, or it stops for a fault. -/
theorem ahead_cases (s : Stream) :
    (∃ t rest, s.tokens = t :: rest ∧ s.ahead = .ok (t, s)) ∨
    (s.tokens = [] ∧ s.stop.isEnd = true ∧ s.ahead = .ok (⟨.endOfText, s.position⟩, s)) ∨
    (s.tokens = [] ∧ s.stop.isEnd = false ∧ s.ahead = .error s.stop) := by
  cases htokens : s.tokens with
  | cons t rest => exact .inl ⟨t, rest, rfl, ahead_of_tokens htokens⟩
  | nil =>
      cases hstop : s.stop.isEnd with
      | true => exact .inr (.inl ⟨rfl, rfl, ahead_of_end htokens hstop⟩)
      | false => exact .inr (.inr ⟨rfl, rfl, ahead_of_stop htokens hstop⟩)

theorem ahead_eq_ok {s s' : Stream} {t : Token} (h : s.ahead = .ok (t, s')) :
    s' = s := by
  obtain ⟨t, _, _, hahead⟩ | ⟨_, _, hahead⟩ | ⟨_, _, hahead⟩ := s.ahead_cases <;>
    rw [hahead] at h <;> cases h <;> rfl

/-- Looking ahead leaves the stream as it is. -/
theorem ahead_bind_eq_ok {α : Type} {s : Stream} {f : Token × Stream → Except Stop α}
    {a : α} (h : (s.ahead >>= f) = .ok a) :
    ∃ t, s.ahead = .ok (t, s) ∧ f (t, s) = .ok a := by
  obtain ⟨⟨t, s₁⟩, hahead, hf⟩ := bind_eq_ok_iff.mp h
  obtain rfl := ahead_eq_ok hahead
  exact ⟨t, hahead, hf⟩

/-- Looking ahead never comes to the end of the text. -/
theorem isEnd_of_ahead {s : Stream} {x : Stop} (h : s.ahead = .error x) : x.isEnd = false := by
  obtain ⟨t, _, _, hahead⟩ | ⟨_, _, hahead⟩ | ⟨_, hstop, hahead⟩ := s.ahead_cases <;>
    rw [hahead] at h <;> cases h
  exact hstop

theorem ahead_ne (s : Stream) : s.ahead ≠ .error .endOfInput :=
  fun h => Bool.noConfusion (isEnd_of_ahead h)

theorem ahead_bind_eq_endOfInput {α : Type} {s : Stream}
    {f : Token × Stream → Except Stop α} (h : (s.ahead >>= f) = .error .endOfInput) :
    ∃ t, s.ahead = .ok (t, s) ∧ f (t, s) = .error .endOfInput := by
  obtain hahead | ⟨⟨t, s₁⟩, hahead, hf⟩ := bind_eq_error_iff.mp h
  · exact absurd hahead (ahead_ne s)
  · obtain rfl := ahead_eq_ok hahead
    exact ⟨t, hahead, hf⟩

/-- A proper stream shows the end of the text only at its own end. -/
theorem Proper.tokens_eq_nil {s s' : Stream} {t : Token} (hs : s.Proper)
    (h : s.ahead = .ok (t, s')) (ht : t.symbol = .endOfText) : s.tokens = [] := by
  cases htokens : s.tokens with
  | nil => rfl
  | cons t' rest =>
      rw [ahead_of_tokens htokens] at h
      cases h
      exact absurd ht (hs t (htokens ▸ List.mem_cons_self))

theorem expect_eq_ok_iff {s s' : Stream} {c : Symbol} :
    s.expect c = .ok s' ↔ s.Spells [c] s' := by
  constructor
  · intro h
    unfold expect at h
    split at h
    · rename_i t rest htokens
      split at h
      · rename_i hsymbol
        cases h
        obtain ⟨tokens, stop, position⟩ := s
        cases htokens
        exact ⟨[t], rfl, by simp [hsymbol]⟩
      · cases h
    · cases h
  · rintro ⟨us, rfl, hus⟩
    obtain ⟨t, rfl, rfl⟩ := List.map_eq_singleton_iff.mp hus
    simp [expect]

/-- A symbol seen ahead can be taken. -/
theorem expect_of_ahead {s : Stream} {t : Token} (h : s.ahead = .ok (t, s))
    (ht : t.symbol ≠ .endOfText) : ∃ m, s.expect t.symbol = .ok m := by
  obtain ⟨t', rest, htokens, hahead⟩ | ⟨_, _, hahead⟩ | ⟨_, _, hahead⟩ := s.ahead_cases <;>
    rw [hahead] at h <;> cases h
  · exact ⟨{ s with tokens := rest }, by simp only [expect, htokens, if_true]⟩
  · exact absurd rfl ht

/-- A stream that lacks the symbol wanted for want of input is at its end. -/
theorem tokens_eq_nil_of_expect {s : Stream} {c : Symbol}
    (h : s.expect c = .error .endOfInput) : s.tokens = [] := by
  unfold expect at h
  split at h
  · split at h <;> cases h
  · assumption

/-! ### Words of a stream -/

theorem Spells.refl (s : Stream) : s.Spells [] s :=
  ⟨[], rfl, rfl⟩

theorem Spells.eq_of_nil {s s' : Stream} (h : s.Spells [] s') : s = s' := by
  obtain ⟨us, rfl, hus⟩ := h
  obtain rfl := List.map_eq_nil_iff.mp hus
  rfl

theorem Spells.trans {s₁ s₂ s₃ : Stream} {u v : List Symbol}
    (h : s₁.Spells u s₂) (h' : s₂.Spells v s₃) : s₁.Spells (u ++ v) s₃ := by
  obtain ⟨us, rfl, rfl⟩ := h
  obtain ⟨vs, rfl, rfl⟩ := h'
  exact ⟨us ++ vs, by simp, by simp⟩

theorem Spells.of_append {s s' : Stream} {u v : List Symbol}
    (h : s.Spells (u ++ v) s') : ∃ m, s.Spells u m ∧ m.Spells v s' := by
  obtain ⟨us, rfl, hus⟩ := h
  obtain ⟨us, vs, rfl, rfl, rfl⟩ := List.map_eq_append_iff.mp hus
  exact ⟨{ s' with tokens := vs ++ s'.tokens }, ⟨us, by simp, rfl⟩, ⟨vs, rfl, rfl⟩⟩

/-- A symbol spelled next is seen ahead and can be taken. -/
theorem Spells.of_cons {s s' : Stream} {c : Symbol} {w : List Symbol}
    (h : s.Spells (c :: w) s') :
    ∃ t m, s.ahead = .ok (t, s) ∧ t.symbol = c ∧ s.expect c = .ok m ∧ m.Spells w s' := by
  obtain ⟨us, rfl, hus⟩ := h
  obtain ⟨t, us, rfl, rfl, rfl⟩ := List.map_eq_cons_iff.mp hus
  exact ⟨t, { s' with tokens := us ++ s'.tokens }, rfl, rfl, by simp [expect],
    ⟨us, rfl, rfl⟩⟩

theorem Spells.spelling_eq {s s' : Stream} {w : List Symbol} (h : s.Spells w s') :
    s.spelling = w ++ s'.spelling := by
  obtain ⟨us, rfl, rfl⟩ := h
  simp [spelling]

theorem Spells.length_le {s s' : Stream} {w : List Symbol} (h : s.Spells w s') :
    s'.tokens.length ≤ s.tokens.length := by
  obtain ⟨us, rfl, _⟩ := h
  simp

theorem Spells.proper {s s' : Stream} {w : List Symbol} (h : s.Spells w s')
    (hs : s.Proper) : s'.Proper := by
  obtain ⟨us, rfl, _⟩ := h
  exact fun t ht => hs t (List.mem_append_right us ht)

theorem length_lt_of_expect {s s' : Stream} {c : Symbol} (h : s.expect c = .ok s') :
    s'.tokens.length < s.tokens.length := by
  obtain ⟨us, rfl, hus⟩ := expect_eq_ok_iff.mp h
  have hlength : us.length = 1 := by rw [← List.length_map, hus, List.length_singleton]
  simp [hlength]

theorem reader_sized : reader.Sized fun s => s.tokens.length where
  ahead_le h := Nat.le_of_eq (by rw [ahead_eq_ok h])
  take_lt := length_lt_of_expect
  expect_lt := length_lt_of_expect

end Stream

end TwoSorted
