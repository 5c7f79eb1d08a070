import TwoSorted.Proofs.Token.Numeral
import TwoSorted.Proofs.Token.Progress

/-!
# Ways to look ahead

A way to look ahead is fair to a piece if it shows a character below `0x80` as it
is and something from `0x80` on otherwise. Looking at the first byte is fair to
every piece of a text, and so is looking at the whole character.

Two fair ways skip the same white space and the same comments, and they read the
same run of characters as long as all of these, and the one behind them, are below
`0x80`. A text is called settled where what comes next is such a character.
-/

namespace TwoSorted

/-! ### Fair ways to look ahead -/

namespace Lookahead

/-- A character below `0x80` is shown as it is, and something from `0x80` on in
the place of any other piece. -/
structure FairTo (look : Lookahead) (p : Piece) : Prop where
  eq_read : p.read.toNat < 0x80 → look p = p.read
  le_look : 0x80 ≤ p.read.toNat → 0x80 ≤ (look p).toNat

/-- The way to look ahead is fair to every piece. -/
def Fair (look : Lookahead) (ps : List Piece) : Prop :=
  ∀ p ∈ ps, look.FairTo p

theorem Fair.cons {look : Lookahead} {p : Piece} {ps : List Piece} (hp : look.FairTo p)
    (hps : look.Fair ps) : look.Fair (p :: ps) :=
  List.forall_mem_cons.mpr ⟨hp, hps⟩

theorem Fair.of_leads {look : Lookahead} {c c' : Cursor} (h : look.Fair c.rest)
    (hleads : c.Leads c') : look.Fair c'.rest := by
  obtain ⟨ps, hrest, _⟩ := hleads
  intro p hp
  apply h p
  rw [hrest]
  exact List.mem_append_right ps hp

theorem whole_fair (ps : List Piece) : whole.Fair ps :=
  fun _ _ => ⟨fun _ => rfl, id⟩

theorem le_ofNat {n : Nat} (h : 0x80 ≤ n) (hlt : n < 0x100) : 0x80 ≤ UInt8.ofNat n := by
  rw [UInt8.le_iff_toNat_le, UInt8.toNat_ofNat_of_lt' hlt]
  exact h

/-- The form of a character from `0x80` on begins with a byte from `0x80` on. -/
theorem le_lead_char {c : Char} (h : 0x80 ≤ c.toNat) : 0x80 ≤ (Piece.char c).lead := by
  have hlarge : ¬ c.val.toNat ≤ 127 := Nat.not_le.mpr h
  simp only [Piece.lead, Piece.bytes, String.utf8EncodeChar, hlarge, if_false]
  split
  · exact le_ofNat (by omega) (by omega)
  · split
    · exact le_ofNat (by omega) (by omega)
    · exact le_ofNat (by omega) (by omega)

theorem toNat_byte (p : Piece) : (byte p).toNat = p.lead.toNat := by
  have hvalid : p.lead.toNat.isValidChar :=
    .inl (Nat.lt_trans p.lead.toNat_lt (by decide))
  rw [byte, Char.ofNat, dif_pos hvalid]
  rfl

theorem byte_fairTo_char (c : Char) : byte.FairTo (.char c) where
  eq_read := byte_char
  le_look h := by
    rw [toNat_byte]
    exact UInt8.le_iff_toNat_le.mp (le_lead_char h)

theorem byte_fairTo_stray {b : UInt8} (h : ¬ b < 0x80) : byte.FairTo (.stray b) where
  eq_read hlt := absurd hlt (show ¬ Piece.replacement.toNat < 0x80 by decide)
  le_look _ := by
    rw [toNat_byte]
    exact UInt8.le_iff_toNat_le.mp (UInt8.not_lt.mp h)

/-- The first byte is a fair look at every piece of a text. -/
theorem byte_fair (bytes : List UInt8) : byte.Fair (pieces bytes) := by
  fun_induction pieces bytes with
  | case1 => exact fun _ hp => absurd hp List.not_mem_nil
  | case2 a rest ha ih => exact .cons (byte_fairTo_char _) ih
  | case3 a ha => exact .cons (byte_fairTo_stray ha) fun _ hp => absurd hp List.not_mem_nil
  | case4 a ha b rest ch hpair ih => exact .cons (byte_fairTo_char ch) ih
  | case5 a ha b hpair ih => exact .cons (byte_fairTo_stray ha) ih
  | case6 a ha b hpair c rest ch htriple ih => exact .cons (byte_fairTo_char ch) ih
  | case7 a ha b hpair c htriple ih => exact .cons (byte_fairTo_stray ha) ih
  | case8 a ha b hpair c htriple d rest ch hquad ih => exact .cons (byte_fairTo_char ch) ih
  | case9 a ha b hpair c htriple d rest hquad ih => exact .cons (byte_fairTo_stray ha) ih

/-- Only characters below `0x80` are kept. -/
def Narrow (keep : Char → Bool) : Prop :=
  ∀ c, keep c = true → c.toNat < 0x80

theorem Narrow.eq_false {keep : Char → Bool} (h : Narrow keep) {c : Char}
    (hc : 0x80 ≤ c.toNat) : keep c = false :=
  Bool.eq_false_iff.mpr fun hkeep => absurd (h c hkeep) (Nat.not_lt.mpr hc)

/-- What is kept of a piece does not depend on how it is seen. -/
theorem FairTo.keep_eq {look : Lookahead} {p : Piece} (h : look.FairTo p)
    {keep : Char → Bool} (hkeep : Narrow keep) : keep (look p) = keep p.read := by
  rcases Nat.lt_or_ge p.read.toNat 0x80 with hp | hp
  · rw [h.eq_read hp]
  · rw [hkeep.eq_false hp, hkeep.eq_false (h.le_look hp)]

theorem narrow_eq {c : Char} (hc : c.toNat < 0x80) : Narrow (· == c) := by
  intro c' h
  rw [beq_iff_eq.mp h]
  exact hc

theorem Narrow.or {keep keep' : Char → Bool} (h : Narrow keep) (h' : Narrow keep') :
    Narrow fun c => keep c || keep' c := by
  intro c hc
  rcases Bool.or_eq_true_iff.mp hc with hc | hc
  · exact h c hc
  · exact h' c hc

theorem FairTo.eq_iff {look : Lookahead} {p : Piece} (h : look.FairTo p) {c : Char}
    (hc : c.toNat < 0x80) : look p = c ↔ p.read = c := by
  have heq := h.keep_eq (narrow_eq hc)
  rw [← beq_iff_eq, heq, beq_iff_eq]

end Lookahead

/-- What comes next is a character below `0x80`, or nothing does. -/
def Settled (ps : List Piece) : Prop :=
  ∀ p ∈ ps.head?, p.read.toNat < 0x80

theorem settled_nil : Settled [] := by
  simp [Settled]

theorem settled_cons {p : Piece} {ps : List Piece} :
    Settled (p :: ps) ↔ p.read.toNat < 0x80 := by
  simp [Settled]

namespace Cursor

open Lookahead

variable {look look' : Lookahead} {c : Cursor}

theorem narrow_isLayout : Narrow isLayout :=
  (((narrow_eq (by decide)).or (narrow_eq (by decide))).or (narrow_eq (by decide))).or
    (narrow_eq (by decide))

/-- White space and comments are the same for every fair way to look ahead. -/
theorem skipLayout_fair {ps : List Piece} (h : look.Fair ps) (inComment : Bool)
    (q : Position) : skipLayout look inComment q ps = skipLayout whole inComment q ps := by
  induction ps generalizing inComment q with
  | nil => cases inComment <;> rfl
  | cons p rest ih =>
      obtain ⟨hp, hrest⟩ := List.forall_mem_cons.mp h
      have hlayout : isLayout (look p) = isLayout (whole p) := hp.keep_eq narrow_isLayout
      have hslash : look.ahead rest = '/' ↔ whole.ahead rest = '/' := by
        cases rest with
        | nil => rfl
        | cons p' rest => exact (List.forall_mem_cons.mp hrest).1.eq_iff (by decide)
      have hnewline : look p = '\n' ↔ whole p = '\n' := hp.eq_iff (by decide)
      have hnul : look p = '\x00' ↔ whole p = '\x00' := hp.eq_iff (by decide)
      cases inComment with
      | false => simp only [skipLayout, hlayout, hslash, ih hrest]
      | true => simp only [skipLayout, hnewline, hnul, ih hrest]

theorem ahead_look {ps : List Piece} (h : look.Fair ps) (h' : look'.Fair ps)
    (hsettled : Settled ps) : look'.ahead ps = look.ahead ps := by
  cases ps with
  | nil => rfl
  | cons p rest =>
      have hread := settled_cons.mp hsettled
      rw [ahead_cons, ahead_cons, (h p List.mem_cons_self).eq_read hread,
        (h' p List.mem_cons_self).eq_read hread]

/-- A run of characters below `0x80` in front of another one ends at the same place
for every fair way to look ahead. -/
theorem run_look {ps : List Piece} (h : look.Fair ps) (h' : look'.Fair ps)
    {keep : Char → Bool}
    (hrun : ∀ p ∈ ps.takeWhile fun p => keep (look p), p.read.toNat < 0x80)
    (hsettled : Settled (ps.dropWhile fun p => keep (look p))) :
    ps.takeWhile (fun p => keep (look' p)) = ps.takeWhile (fun p => keep (look p)) ∧
      ps.dropWhile (fun p => keep (look' p)) = ps.dropWhile (fun p => keep (look p)) ∧
      Settled ps := by
  induction ps with
  | nil => exact ⟨rfl, rfl, settled_nil⟩
  | cons p rest ih =>
      obtain ⟨hp, hrest⟩ := List.forall_mem_cons.mp h
      obtain ⟨hp', hrest'⟩ := List.forall_mem_cons.mp h'
      -- the piece is in the run, or it is what comes after the run
      have hread : p.read.toNat < 0x80 := by
        by_cases hkeep : keep (look p) = true
        · exact hrun p (by simp [hkeep])
        · simpa [hkeep, settled_cons] using hsettled
      have hlook : look' p = look p := by rw [hp'.eq_read hread, hp.eq_read hread]
      simp only [List.takeWhile_cons, List.dropWhile_cons, hlook] at hrun hsettled ⊢
      by_cases hkeep : keep (look p) = true
      · simp only [hkeep, if_true] at hrun hsettled ⊢
        obtain ⟨htake, hdrop, _⟩ := ih hrest hrest' (List.forall_mem_cons.mp hrun).2 hsettled
        rw [htake, hdrop]
        exact ⟨rfl, rfl, settled_cons.mpr hread⟩
      · simp only [hkeep]
        exact ⟨rfl, rfl, settled_cons.mpr hread⟩

/-- Both ways to look ahead are fair to what is left of the text. -/
structure SeenFairly (look look' : Lookahead) (c : Cursor) : Prop where
  left : look.Fair c.rest
  right : look'.Fair c.rest

theorem SeenFairly.of_leads {c' : Cursor} (h : c.SeenFairly look look')
    (hleads : c.Leads c') : c'.SeenFairly look look' :=
  ⟨h.left.of_leads hleads, h.right.of_leads hleads⟩

/-- A piece that can only be a character below `0x80` is read alike. -/
theorem takeIf_look (h : c.SeenFairly look look') {keep : Char → Bool}
    (hkeep : Narrow keep) {cs : List Char} {c₁ : Cursor}
    (htake : c.takeIf look keep = (cs, c₁)) :
    c.takeIf look' keep = (cs, c₁) ∧ c₁.SeenFairly look look' ∧
      (Settled c₁.rest → Settled c.rest) := by
  have hleads := c.takeIf_leads look keep
  rw [htake] at hleads
  obtain ⟨rest, q⟩ := c
  cases rest with
  | nil => exact ⟨htake, h.of_leads hleads, fun _ => settled_nil⟩
  | cons p rest =>
      have hp := (List.forall_mem_cons.mp h.left).1.keep_eq hkeep
      have hp' := (List.forall_mem_cons.mp h.right).1.keep_eq hkeep
      by_cases hread : keep p.read = true
      · simp only [takeIf, hp, hread, if_true] at htake
        simp only [takeIf, hp', hread, if_true]
        exact ⟨htake, h.of_leads hleads, fun _ => settled_cons.mpr (hkeep _ hread)⟩
      · simp only [takeIf, hp, hread] at htake
        simp only [takeIf, hp', hread]
        cases htake
        exact ⟨rfl, h, id⟩

theorem span_seenFairly (h : c.SeenFairly look look') {keep : Char → Bool}
    {cs : List Char} {c₁ : Cursor} (hspan : c.span look keep = (cs, c₁)) :
    c₁.SeenFairly look look' := by
  have hleads := c.span_leads look keep
  rw [hspan] at hleads
  exact h.of_leads hleads

/-- A run of characters below `0x80` in front of another one is read alike. -/
theorem span_look (h : c.SeenFairly look look') {keep : Char → Bool}
    {cs : List Char} {c₁ : Cursor} (hspan : c.span look keep = (cs, c₁))
    (hcs : ∀ x ∈ cs, x.toNat < 0x80) (hsettled : Settled c₁.rest) :
    c.span look' keep = (cs, c₁) ∧ Settled c.rest := by
  obtain ⟨rfl, rfl⟩ := Prod.mk.inj hspan
  obtain ⟨htake, hdrop, hfirst⟩ :=
    run_look h.left h.right (List.forall_mem_map.mp hcs) hsettled
  refine ⟨?_, hfirst⟩
  rw [span, htake, hdrop]

end Cursor

end TwoSorted
