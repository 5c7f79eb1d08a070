import TwoSorted.Proofs.Token.Positions

/-!
# Reading a text to its end

A lexer that holds no tokens stands between two parts of its source, whatever was asked of it
before (`exists_before`). A call for the next token then reads at least one more byte, be it for
a token or for a fault, or it finds that nothing is left. So a series of such calls comes to the
end of a text before it is longer than the text, and then gives the same answer for ever
(`next_until_end`).
-/

namespace TwoSorted

namespace Lexer

open Lookahead

/-- The answer is a token, or a fault that lies in the text and not in the reading of it. -/
inductive FromText : Except Stop Token → Prop
  | token (t : Token) : FromText (.ok t)
  | fault (q : Position) {fault : LexFault} (h : ∀ why, fault ≠ .unreadable why) :
      FromText (.error (.lexical q fault))

/-! ### One scan -/

/-- What is left after some pieces are read is a last part of what was left before. -/
theorem exists_read_of_pieces {left rest : List UInt8} {ps : List Piece} (hps : ps ≠ [])
    (h : pieces left = ps ++ pieces rest) : ∃ w, w ≠ [] ∧ left = w ++ rest := by
  refine ⟨Piece.join ps, ?_, ?_⟩
  · obtain ⟨p, ps', rfl⟩ := List.exists_cons_of_ne_nil hps
    rw [Piece.join, List.flatMap_cons]
    exact List.append_ne_nil_of_left_ne_nil p.bytes_ne_nil _
  · rw [← join_pieces left, h, Piece.join, List.flatMap_append, ← Piece.join, ← Piece.join,
      join_pieces]

section

variable [Conversions]

/-- A scan finds that nothing is left, or it reads some pieces for a token or a fault. -/
theorem scan_reads (look : Lookahead) (ending : Ending) (c : Cursor) :
    (∃ q, scan look ending c = (.error (ending.stop q), ⟨[], q⟩)) ∨
    FromText (scan look ending c).1 ∧
      ∃ ps, ps ≠ [] ∧ c.rest = ps ++ (scan look ending c).2.rest := by
  obtain ⟨skipped, hskipped, _⟩ := Cursor.skipLayout_leads look false c.position c.rest
  rcases hc : Cursor.skipLayout look false c.position c.rest with ⟨rest, q⟩
  rw [hc] at hskipped
  cases rest with
  | nil => exact .inl ⟨q, by simp only [scan, hc]⟩
  | cons p rest =>
      obtain ⟨read, hread, _⟩ := scanSymbol_leads look p.read ⟨rest, q.after p.read⟩
      have hne := scanSymbol_ne_unreadable look p.read ⟨rest, q.after p.read⟩
      rcases hs : scanSymbol look p.read ⟨rest, q.after p.read⟩ with ⟨fault | s, c'⟩ <;>
        rw [hs] at hread hne <;> dsimp only at hskipped hread <;>
        simp only [scan, hc, hs]
      · exact .inr ⟨.fault _ fun why hwhy => hne why (by rw [hwhy]),
          skipped ++ p :: read, by simp, by simp [hskipped, hread]⟩
      · exact .inr ⟨.token _, skipped ++ p :: read, by simp, by simp [hskipped, hread]⟩

/-- A lexer that holds no tokens finds that nothing is left, or it reads some pieces. -/
theorem next_pieces {l : Lexer} (hheld : l.held = []) :
    (∃ q, l.next = (.error (l.ending.stop q), { l with cursor := ⟨[], q⟩ })) ∨
    FromText l.next.1 ∧ ∃ ps, ps ≠ [] ∧ l.cursor.rest = ps ++ l.next.2.cursor.rest := by
  have hreads := scan_reads l.look l.ending l.cursor
  rcases hscan : scan l.look l.ending l.cursor with ⟨answer, c⟩
  rw [hscan] at hreads
  rw [next_of_scan hheld hscan]
  obtain ⟨q, hend⟩ | hread := hreads
  · obtain ⟨rfl, rfl⟩ := Prod.mk.inj hend
    exact .inl ⟨q, rfl⟩
  · exact .inr hread

/-! ### Where a lexer stands -/

theorem after_append (l : Lexer) (calls more : List Call) :
    l.after (calls ++ more) = (l.after calls).after more :=
  List.foldl_append

theorem ending_next (l : Lexer) : l.next.2.ending = l.ending := by
  unfold next
  split <;> rfl

theorem ending_perform (l : Lexer) (call : Call) : (l.perform call).2.ending = l.ending := by
  cases call with
  | next => exact ending_next l
  | back t => rfl
  | peek =>
      obtain hpeek | ⟨_, hpeek | ⟨t, hpeek⟩⟩ := l.peek_snd_cases
      · exact congrArg Lexer.ending hpeek
      · exact (congrArg Lexer.ending hpeek).trans (ending_next l)
      · exact (congrArg Lexer.ending hpeek).trans (ending_next l)

theorem ending_after (l : Lexer) (calls : List Call) : (l.after calls).ending = l.ending := by
  induction calls generalizing l with
  | nil => rfl
  | cons call calls ih => exact (ih _).trans (ending_perform l call)

/-- Whatever was asked of it, a lexer that holds no tokens stands between two parts of its
source. -/
theorem exists_before (src : Source) (calls : List Call)
    (hheld : ((start src).after calls).held = []) :
    ∃ read left, src.bytes = read ++ left ∧
      (start src).after calls = before left src.ending (.behind read) := by
  obtain ⟨hlook, hleads⟩ := Follows.after (start src) calls
  have hending := ending_after (start src) calls
  generalize (start src).after calls = l at hheld hlook hleads hending
  obtain ⟨read, left, hbytes, hcursor⟩ := hleads.exists_read
  obtain ⟨look, ending, cursor, held⟩ := l
  subst hheld hlook hending hcursor
  exact ⟨read, left, hbytes, rfl⟩

section Next

variable {src : Source} {calls : List Call} {read left : List UInt8}

/-- A call for the next token reads on, or all has been read. -/
theorem next_reads (hbytes : src.bytes = read ++ left)
    (hl : (start src).after calls = before left src.ending (.behind read)) :
    (∃ w rest, w ≠ [] ∧ left = w ++ rest ∧
      FromText (before left src.ending (.behind read)).next.1 ∧
      (before left src.ending (.behind read)).next.2 =
        before rest src.ending (.behind (read ++ w))) ∨
    (before left src.ending (.behind read)).next =
      (.error (src.ending.stop (.behind src.bytes)), before [] src.ending (.behind src.bytes)) := by
  have hafter : (start src).after (calls ++ [.next]) =
      (before left src.ending (.behind read)).next.2 := by
    rw [after_append, hl]
    rfl
  have hheld : ((start src).after (calls ++ [.next])).held = [] := by
    rw [hafter, held_next]
    rfl
  obtain ⟨read', left', hbytes', hl'⟩ := exists_before src _ hheld
  rw [hafter] at hl'
  obtain ⟨q, hnext⟩ | ⟨hanswer, ps, hps, hrest⟩ :=
    next_pieces (l := before left src.ending (.behind read)) rfl
  · rw [hnext] at hl' ⊢
    obtain ⟨hpieces, rfl⟩ := Cursor.mk.inj (congrArg cursor hl')
    obtain rfl : [] = left' := pieces_injective hpieces
    rw [hbytes', List.append_nil]
    exact .inr rfl
  · rw [hl'] at hrest
    obtain ⟨w, hw, rfl⟩ := exists_read_of_pieces hps hrest
    have hread : read' = read ++ w := by
      rw [hbytes, ← List.append_assoc] at hbytes'
      exact (List.append_cancel_right hbytes').symm
    exact .inl ⟨w, left', hw, rfl, hanswer, by rw [hl', hread]⟩

end Next

/-! ### A series of calls -/

theorem after_replicate_succ (l : Lexer) (m : Nat) :
    l.after (List.replicate (m + 1) .next) = l.next.2.after (List.replicate m .next) := rfl

/-- At the end a lexer stays where it is. -/
theorem after_end (ending : Ending) (q : Position) (m : Nat) :
    (before [] ending q).after (List.replicate m .next) = before [] ending q := by
  induction m with
  | zero => rfl
  | succ m ih => exact ih

/-- The calls for the next token read on until all has been read, so there are no more of them
than bytes. All later calls find that nothing is left. -/
theorem exists_end (src : Source) (calls : List Call) (read left : List UInt8)
    (hbytes : src.bytes = read ++ left)
    (hl : (start src).after calls = before left src.ending (.behind read)) :
    ∃ n ≤ left.length,
      (∀ m < n, FromText
        ((before left src.ending (.behind read)).after (List.replicate m .next)).next.1) ∧
      ∀ m, n ≤ m → ((before left src.ending (.behind read)).after (List.replicate m .next)).next =
        (.error (src.ending.stop (.behind src.bytes)),
          before [] src.ending (.behind src.bytes)) := by
  obtain ⟨w, rest, hw, rfl, hanswer, hnext⟩ | hend := next_reads hbytes hl
  · have hpos := List.length_pos_of_ne_nil hw
    have hlength : (w ++ rest).length = w.length + rest.length := List.length_append
    have hl' : (start src).after (calls ++ [.next]) =
        before rest src.ending (.behind (read ++ w)) := by
      rw [after_append, hl, ← hnext]
      rfl
    obtain ⟨n, hn, hbefore, hlast⟩ :=
      exists_end src (calls ++ [.next]) (read ++ w) rest (by rw [hbytes, List.append_assoc]) hl'
    refine ⟨n + 1, by omega, fun m hm => ?_, fun m hm => ?_⟩
    · cases m with
      | zero => exact hanswer
      | succ m =>
          rw [after_replicate_succ, hnext]
          exact hbefore m (by omega)
    · obtain ⟨m, rfl⟩ : ∃ k, m = k + 1 := ⟨m - 1, by omega⟩
      rw [after_replicate_succ, hnext]
      exact hlast m (by omega)
  · refine ⟨0, Nat.zero_le _, fun m hm => absurd hm (Nat.not_lt_zero m), fun m _ => ?_⟩
    cases m with
    | zero => exact hend
    | succ m =>
        rw [after_replicate_succ, hend, after_end]
        rfl
termination_by left.length

/-- Reading makes progress. Let a lexer hold no tokens, whatever was asked of it before, and
let `left` be the bytes that it has not read. A call for the next token reads at least one of
them, for a token or for a fault of the text, or it has read them all and says how the source
ends. If it is called again and again, faults or not, it comes to this last answer within as
many calls as bytes are left and one more, and gives it from then on. -/
theorem next_until_end (src : Source) (calls : List Call)
    (hheld : ((start src).after calls).held = []) :
    ∃ read left, src.bytes = read ++ left ∧
      (start src).after calls = before left src.ending (.behind read) ∧
      ((∃ w rest, w ≠ [] ∧ left = w ++ rest ∧ FromText ((start src).after calls).next.1 ∧
          ((start src).after calls).next.2 = before rest src.ending (.behind (read ++ w))) ∨
        ((start src).after calls).next = (.error (src.ending.stop (.behind src.bytes)),
          before [] src.ending (.behind src.bytes))) ∧
      ∃ n ≤ left.length,
        (∀ m < n, FromText
          (((start src).after calls).after (List.replicate m .next)).next.1) ∧
        ∀ m, n ≤ m → (((start src).after calls).after (List.replicate m .next)).next =
          (.error (src.ending.stop (.behind src.bytes)),
            before [] src.ending (.behind src.bytes)) := by
  obtain ⟨read, left, hbytes, hl⟩ := exists_before src calls hheld
  have hstep := next_reads hbytes hl
  have hrun := exists_end src calls read left hbytes hl
  rw [← hl] at hstep hrun
  exact ⟨read, left, hbytes, hl, hstep, hrun⟩

end

/-- A comment that a `NUL` ends, and then the first byte of a character that is torn off where
the reader fails. The `NUL` and the byte are faults, and all later calls give the failure. -/
theorem next_until_end_failure :
    ((start ⟨[0x2F, 0x2F, 0x00, 0xC3], .failure ⟨"broken", false⟩⟩).after [.next]).held = [] ∧
    ∃ read left, [0x2F, 0x2F, 0x00, 0xC3] = read ++ left ∧
      (start ⟨[0x2F, 0x2F, 0x00, 0xC3], .failure ⟨"broken", false⟩⟩).after [.next] =
        before left (.failure ⟨"broken", false⟩) (.behind read) ∧
      ∃ n ≤ left.length, ∀ m, n ≤ m →
        (((start ⟨[0x2F, 0x2F, 0x00, 0xC3], .failure ⟨"broken", false⟩⟩).after [.next]).after
          (List.replicate m .next)).next.1 =
            .error (.lexical ⟨1, 4⟩ (.unreadable ⟨"broken", false⟩)) := by
  obtain ⟨read, left, hbytes, hl, _, n, hn, _, hlast⟩ :=
    next_until_end ⟨[0x2F, 0x2F, 0x00, 0xC3], .failure ⟨"broken", false⟩⟩ [.next] rfl
  exact ⟨rfl, read, left, hbytes, hl, n, hn, fun m hm => congrArg Prod.fst (hlast m hm)⟩

end Lexer

end TwoSorted
