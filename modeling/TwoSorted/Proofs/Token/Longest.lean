import Mathlib.Computability.Language

/-!
# Longest prefixes

`IsLongest L w t` says that `w` is the longest word of the language `L` with which `t`
begins, and `NoPrefix L t` that `t` begins with none. A longest prefix cannot be found
part by part in general. It can where the parts do not compete: a letter is followed by
the rest of the word, and a run of letters by something that does not begin with another
one of them (`Avoids`). The lemmas here build up the longest prefix along such a
description of the language.
-/

namespace TwoSorted

open Computability

variable {α : Type}

/-- The words of one letter for which `p` holds. -/
def one (p : α → Bool) : Language α :=
  {w | ∃ a, p a = true ∧ w = [a]}

/-- The word `w` is the longest one of `L` with which `t` begins. -/
structure IsLongest (L : Language α) (w t : List α) : Prop where
  mem : w ∈ L
  start : w <+: t
  length_le : ∀ u ∈ L, u <+: t → u.length ≤ w.length

/-- No word of `L` begins `t`. -/
def NoPrefix (L : Language α) (t : List α) : Prop :=
  ∀ u ∈ L, ¬ u <+: t

/-- No word of `L` begins with a letter for which `p` holds. -/
def Avoids (p : α → Bool) (L : Language α) : Prop :=
  ∀ a u, a :: u ∈ L → p a = false

/-- The letter ahead, if there is one, is none for which `p` holds. -/
def Past (p : α → Bool) (t : List α) : Prop :=
  ∀ a u, t = a :: u → p a = false

variable {p q : α → Bool} {L M : Language α} {a : α} {u w w' t : List α}

theorem IsLongest.unique (h : IsLongest L w t) (h' : IsLongest L w' t) : w = w' := by
  have hlength : w.length = w'.length :=
    Nat.le_antisymm (h'.length_le w h.mem h.start) (h.length_le w' h'.mem h'.start)
  exact (List.prefix_of_prefix_length_le h.start h'.start hlength.le).eq_of_length hlength

/-! ### Words by their first letter -/

theorem mem_one_mul : w ∈ one p * M ↔ ∃ a v, p a = true ∧ v ∈ M ∧ w = a :: v := by
  rw [Language.mem_mul]
  constructor
  · rintro ⟨_, ⟨a, ha, rfl⟩, v, hv, rfl⟩
    exact ⟨a, v, ha, hv, rfl⟩
  · rintro ⟨a, v, ha, hv, rfl⟩
    exact ⟨[a], ⟨a, ha, rfl⟩, v, hv, rfl⟩

theorem kstar_mul : (one p)∗ * M = M + one p * ((one p)∗ * M) :=
  calc (one p)∗ * M = (1 + one p * (one p)∗) * M := by
        rw [Language.one_add_self_mul_kstar_eq_kstar]
    _ = M + one p * ((one p)∗ * M) := by rw [add_mul, one_mul, mul_assoc]

theorem avoids_one_mul (h : ∀ a, q a = true → p a = false) : Avoids p (one q * M) := by
  intro a u hau
  obtain ⟨_, _, ha, _, heq⟩ := mem_one_mul.mp hau
  cases heq
  exact h a ha

theorem avoids_one : Avoids p (1 : Language α) := by
  intro a u h
  cases Language.mem_one _ |>.mp h

theorem Avoids.add (hL : Avoids p L) (hM : Avoids p M) : Avoids p (L + M) := by
  intro a u h
  exact ((Language.mem_add _ _ _).mp h).elim (hL a u) (hM a u)

theorem past_nil : Past p [] := by
  intro a u h
  cases h

theorem past_cons (h : p a = false) : Past p (a :: t) := by
  intro a' u heq
  cases heq
  exact h

theorem past_dropWhile (p : α → Bool) (t : List α) : Past p (t.dropWhile p) := by
  induction t with
  | nil => exact past_nil
  | cons a t ih =>
      rw [List.dropWhile_cons]
      split
      · exact ih
      · rename_i ha
        exact past_cons (Bool.eq_false_iff.mpr ha)

/-! ### One letter and more -/

theorem IsLongest.one_mul (ha : p a = true) (h : IsLongest M w t) :
    IsLongest (one p * M) (a :: w) (a :: t) where
  mem := mem_one_mul.mpr ⟨a, w, ha, h.mem, rfl⟩
  start := List.cons_prefix_cons.mpr ⟨rfl, h.start⟩
  length_le := by
    intro u hu hpre
    obtain ⟨b, v, _, hv, rfl⟩ := mem_one_mul.mp hu
    have hle := h.length_le v hv (List.cons_prefix_cons.mp hpre).2
    simpa using hle

theorem NoPrefix.one_mul (h : NoPrefix M t) : NoPrefix (one p * M) (a :: t) := by
  intro u hu hpre
  obtain ⟨b, v, _, hv, rfl⟩ := mem_one_mul.mp hu
  exact h v hv (List.cons_prefix_cons.mp hpre).2

theorem Past.noPrefix_one_mul (h : Past p t) : NoPrefix (one p * M) t := by
  intro u hu hpre
  obtain ⟨b, v, hb, _, rfl⟩ := mem_one_mul.mp hu
  obtain ⟨rest, rfl⟩ := hpre
  simp [h b _ rfl] at hb

/-! ### One of two languages -/

theorem IsLongest.add_of_le (h : IsLongest L w t)
    (h' : ∀ u ∈ M, u <+: t → u.length ≤ w.length) : IsLongest (L + M) w t where
  mem := .inl h.mem
  start := h.start
  length_le u hu hpre := hu.elim (h.length_le u · hpre) (h' u · hpre)

theorem IsLongest.add (h : IsLongest L w t) (h' : NoPrefix M t) : IsLongest (L + M) w t :=
  h.add_of_le fun u hu hpre => absurd hpre (h' u hu)

theorem NoPrefix.add (h : NoPrefix L t) (h' : NoPrefix M t) : NoPrefix (L + M) t :=
  fun u hu => hu.elim (h u) (h' u)

theorem isLongest_one (t : List α) : IsLongest 1 [] t where
  mem := Language.nil_mem_one
  start := List.nil_prefix
  length_le u hu _ := by
    rw [(Language.mem_one u).mp hu]

/-- A part that may be missing is missing only if it is not there. -/
theorem NoPrefix.isLongest_one_add (h : NoPrefix M t) : IsLongest (1 + M) [] t :=
  (isLongest_one t).add h

theorem IsLongest.one_add (h : IsLongest M w t) : IsLongest (1 + M) w t := by
  rw [add_comm]
  refine h.add_of_le fun u hu _ => ?_
  rw [(Language.mem_one u).mp hu]
  exact Nat.zero_le _

/-! ### A run of letters and more -/

theorem IsLongest.kstar_mul (hM : Avoids p M) (hrun : ∀ a ∈ u, p a = true) (hpast : Past p t)
    (h : IsLongest M w t) : IsLongest ((one p)∗ * M) (u ++ w) (u ++ t) := by
  induction u with
  | nil =>
      rw [TwoSorted.kstar_mul]
      exact h.add hpast.noPrefix_one_mul
  | cons a u ih =>
      obtain ⟨ha, hu⟩ := List.forall_mem_cons.mp hrun
      rw [TwoSorted.kstar_mul, add_comm]
      refine ((ih hu).one_mul ha).add_of_le ?_
      intro v hv hpre
      cases v with
      | nil => simp
      | cons b v =>
          have hb := hM b v hv
          obtain ⟨rfl, _⟩ := List.cons_prefix_cons.mp hpre
          simp [ha] at hb

/-- A run of letters is as long as it can be. -/
theorem isLongest_kstar (hrun : ∀ a ∈ u, p a = true) (hpast : Past p t) :
    IsLongest (one p)∗ u (u ++ t) := by
  simpa using (isLongest_one t).kstar_mul avoids_one hrun hpast

end TwoSorted
