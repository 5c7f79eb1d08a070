/-!
# Computations that can fail

How a chain of computations that can fail comes to its outcome, and what can be
said of the outcome step by step.
-/

namespace TwoSorted

namespace Outcome

variable {ε α β : Type}

@[simp] theorem ok_bind (a : α) (f : α → Except ε β) :
    ((.ok a : Except ε α) >>= f) = f a := rfl

@[simp] theorem error_bind (x : ε) (f : α → Except ε β) :
    ((.error x : Except ε α) >>= f) = .error x := rfl

theorem bind_eq_ok_iff {x : Except ε α} {f : α → Except ε β} {b : β} :
    (x >>= f) = .ok b ↔ ∃ a, x = .ok a ∧ f a = .ok b := by
  cases x with
  | error e => simp
  | ok a => simp

theorem bind_eq_error_iff {x : Except ε α} {f : α → Except ε β} {e : ε} :
    (x >>= f) = .error e ↔ x = .error e ∨ ∃ a, x = .ok a ∧ f a = .error e := by
  cases x with
  | error e => simp
  | ok a => simp

/-- Two computations that begin alike and go on alike are alike. -/
theorem bind_congr {x : Except ε α} {f g : α → Except ε β}
    (h : ∀ a, x = .ok a → f a = g a) : (x >>= f) = (x >>= g) := by
  cases x with
  | error e => rfl
  | ok a => exact h a rfl

/-- Failures can be renamed step by step. -/
theorem mapError_bind {ε' : Type} (g : ε → ε') (x : Except ε α) (f : α → Except ε β) :
    (x >>= f).mapError g = x.mapError g >>= fun a => (f a).mapError g := by
  cases x with
  | error e => rfl
  | ok a => rfl

/-- A failure of which `P` holds, or a result of which `Q` holds. -/
def Satisfies (P : ε → Prop) (Q : α → Prop) : Except ε α → Prop
  | .error x => P x
  | .ok a => Q a

theorem Satisfies.imp {P P' : ε → Prop} {Q Q' : α → Prop} {x : Except ε α}
    (h : Satisfies P Q x) (hP : ∀ e, P e → P' e) (hQ : ∀ a, Q a → Q' a) :
    Satisfies P' Q' x := by
  cases x with
  | error e => exact hP e h
  | ok a => exact hQ a h

theorem Satisfies.bind {P : ε → Prop} {Q : α → Prop} {Q' : β → Prop}
    {x : Except ε α} {f : α → Except ε β} (h : Satisfies P Q x)
    (hf : ∀ a, Q a → Satisfies P Q' (f a)) : Satisfies P Q' (x >>= f) := by
  cases x with
  | error e => exact h
  | ok a => exact hf a h

end Outcome

end TwoSorted
