import TwoSorted.Proofs.Session.Turns

/-!
# The states of a session

Between two calls a session is in one of two states. Either it is idle, with nothing
pending and the prompt for a first line, or it waits for more lines: then it holds a
text that is not blank, ends in a line and is no whole expression, and the prompt says
that there is more to come.

A line of blanks leaves the prompt as it is. This is right because it can be passed
over only while nothing is pending: a text that is not blank does not become so by
the lines behind it. For the same reason an interrupt finds something to drop exactly
if the end of the input would report it. An interrupt leaves the session idle, so the
next one ends it.

A session that is held is made of such calls, one for each line, interrupt or end that
is read (`Dialogue.take_session`). A failure to read is reported, and nothing else
changes.
-/

namespace TwoSorted

namespace Session

/-! ### Interrupts and the end of the input -/

theorem interrupt_eq_true_iff {s : Session} : s.interrupt.2 = true ↔ s.pending ≠ [] := by
  unfold interrupt
  cases s.pending <;> simp

/-- Whatever was pending is so no more. -/
theorem pending_interrupt (s : Session) : s.interrupt.1.pending = [] := by
  unfold interrupt
  split
  next h => exact List.isEmpty_iff.mp h
  next => rfl

theorem paint_droppedMessage_ne_empty (style : Style) (text : List Piece) :
    style.paint (droppedMessage text) ≠ "" := by
  intro hempty
  have hcount : lineFeeds (style.paint (droppedMessage text)) = 1 := by
    rw [lineFeeds_paint, lineFeeds_droppedMessage]
  rw [hempty] at hcount
  cases hcount

/-! ### Idle and waiting -/

/-- Nothing is pending, and the prompt is the one for a first line. -/
structure Idle (s : Session) : Prop where
  pending_eq : s.pending = []
  prompt_eq : s.prompt = s.firstPrompt

theorem idle_holding_nil (s : Session) : (s.holding []).Idle :=
  ⟨rfl, rfl⟩

variable [Conversions]

/-- The beginning of an expression is pending, and the prompt is the one for the
further lines. -/
structure Waiting (s : Session) : Prop where
  begun : isAllBlank (pieces s.pending) = false
  endsLine : s.pending.getLast? = some 0x0A
  incomplete : parse (.ofBytes s.pending) = .error .endOfInput
  prompt_eq : s.prompt = morePrompt

theorem Waiting.pending_ne_nil {s : Session} (h : s.Waiting) : s.pending ≠ [] := by
  intro hnil
  have hlast := h.endsLine
  rw [hnil] at hlast
  cases hlast

section Holding

variable (s : Session) {lines : List (List UInt8)}

theorem waiting_holding (h : Unfinished lines) (hne : lines ≠ []) :
    (s.holding lines).Waiting where
  begun := by
    have hblank := h.not_isAllBlank hne []
    rwa [List.append_nil] at hblank
  endsLine := by
    obtain ⟨earlier, last, rfl⟩ := List.eq_nil_or_concat lines |>.resolve_left hne
    have hjoined := joined_append_singleton earlier last
    rw [← List.concat_eq_append] at hjoined
    simp only [holding, hjoined, List.getLast?_concat]
  incomplete := h.incomplete lines [] (List.append_nil _).symm
  prompt_eq := by simp [holding, hne]

theorem idle_or_waiting_holding (h : Unfinished lines) :
    (s.holding lines).Idle ∨ (s.holding lines).Waiting := by
  by_cases hne : lines = []
  · subst hne
    exact .inl s.idle_holding_nil
  · exact .inr (s.waiting_holding h hne)

/-- After a call there are unfinished lines again, or none. -/
theorem exists_call_eq_holding (h : Unfinished lines) (c : Call) :
    ∃ rest p, Unfinished rest ∧
      ((s.holding lines).call c).1 = (s.withParser p).holding rest := by
  obtain ⟨line, p, _, hunfinished, hcall⟩ | ⟨t, p, _, _, _, hcall⟩ := call_holding s h c
  · exact ⟨_, p, hunfinished, congrArg Prod.fst hcall⟩
  · exact ⟨[], p, .nil, congrArg Prod.fst hcall⟩

/-- The same for any number of calls. -/
theorem exists_calls_eq_holding (h : Unfinished lines) (cs : List Call) :
    ∃ rest p, Unfinished rest ∧
      ((s.holding lines).calls cs).1 = (s.withParser p).holding rest := by
  obtain ⟨_, rest, p, hsplit, hstate, _⟩ := calls_holding s h cs
  exact ⟨rest, p, hsplit.unfinished, hstate⟩

end Holding

section

variable {s : Session}

/-- The prompt that is asked for is the prompt of the session. -/
theorem feed_prompt (s : Session) (line : List UInt8) :
    (s.feed line).prompt = (s.feed line).session.prompt := by
  unfold feed
  dsimp only
  split
  · rfl
  · split
    · split <;> rfl
    · rfl

/-- The prompt tells the two states apart. -/
theorem prompt_of_idle_or_waiting (h : s.Idle ∨ s.Waiting) :
    s.prompt = if s.pending = [] then s.firstPrompt else morePrompt := by
  rcases h with h | h
  · rw [if_pos h.pending_eq, h.prompt_eq]
  · rw [if_neg h.pending_ne_nil, h.prompt_eq]

/-- An interrupt drops something exactly if the end of the input would report it. -/
theorem interrupt_iff_flush (h : s.Idle ∨ s.Waiting) :
    s.interrupt.2 = true ↔
      s.flush.2.err = s.failureStyle.paint (droppedMessage (trim (pieces s.pending))) := by
  rw [interrupt_eq_true_iff]
  rcases h with h | h
  · have hsilent : s.flush.2.err = "" := by
      simp only [flush, h.pending_eq]
      rfl
    rw [hsilent]
    exact iff_of_false (fun hne => hne h.pending_eq)
      (paint_droppedMessage_ne_empty _ _).symm
  · have htext : (trim (pieces s.pending)).isEmpty = false := by
      rw [List.isEmpty_eq_false_iff]
      exact trim_ne_nil h.begun
    refine iff_of_true h.pending_ne_nil ?_
    simp only [flush, htext]
    rfl

end

/-! ### Sessions that are held -/

/-- The calls that an entry comes to. -/
def Entry.calls : Entry → List Call
  | line bytes => [.feed bytes]
  | interrupt => [.interrupt]
  | endOfInput => [.flush]
  | failure _ => []

theorem calls_append (s : Session) (cs cs' : List Call) :
    (s.calls (cs ++ cs')).1 = ((s.calls cs).1.calls cs').1 := by
  induction cs generalizing s with
  | nil => rfl
  | cons c cs ih => exact ih (s.call c).1

namespace Dialogue

variable {d : Dialogue}

theorem take_session (d : Dialogue) (entry : Entry) :
    (d.take entry).session = (d.session.calls entry.calls).1 := by
  cases entry with
  | line bytes => rfl
  | interrupt =>
      simp only [take, Entry.calls, calls, call]
      rcases d.session.interrupt with ⟨s, _ | _⟩ <;> rfl
  | endOfInput => rfl
  | failure message => rfl

/-- As long as the session goes on, its prompt is shown. -/
theorem shown_take (h : d.shown = d.session.prompt) (entry : Entry)
    (hended : (d.take entry).ended = false) :
    (d.take entry).shown = (d.take entry).session.prompt := by
  cases entry with
  | line bytes => exact d.session.feed_prompt bytes
  | interrupt =>
      simp only [take] at hended ⊢
      rcases hinterrupt : d.session.interrupt with ⟨s, _ | _⟩
      · rw [hinterrupt] at hended
        cases hended
      · rfl
  | endOfInput => cases hended
  | failure message => exact h

theorem run_of_ended (h : d.ended = true) (entries : List Entry) : d.run entries = d := by
  cases entries with
  | nil => rfl
  | cons entry rest => exact if_pos h

theorem run_cons (h : d.ended = false) (entry : Entry) (rest : List Entry) :
    d.run (entry :: rest) = (d.take entry).run rest :=
  if_neg (Bool.eq_false_iff.mp h)

theorem run_append (d : Dialogue) (entries rest : List Entry) :
    d.run (entries ++ rest) = (d.run entries).run rest := by
  induction entries generalizing d with
  | nil => rfl
  | cons entry entries ih =>
      cases hended : d.ended with
      | true => rw [run_of_ended hended, run_of_ended hended, run_of_ended hended]
      | false => rw [List.cons_append, run_cons hended, run_cons hended, ih]

/-- A whole session is made of calls. -/
theorem exists_run_session (d : Dialogue) (entries : List Entry) :
    ∃ cs, (d.run entries).session = (d.session.calls cs).1 := by
  induction entries generalizing d with
  | nil => exact ⟨[], rfl⟩
  | cons entry rest ih =>
      cases hended : d.ended with
      | true => exact ⟨[], by rw [run_of_ended hended]; rfl⟩
      | false =>
          obtain ⟨cs, hcs⟩ := ih (d.take entry)
          refine ⟨entry.calls ++ cs, ?_⟩
          rw [run_cons hended, hcs, take_session, calls_append]

theorem shown_run (h : d.shown = d.session.prompt) (entries : List Entry)
    (hended : (d.run entries).ended = false) :
    (d.run entries).shown = (d.run entries).session.prompt := by
  induction entries generalizing d with
  | nil => exact h
  | cons entry rest ih =>
      cases hgoes : d.ended with
      | true =>
          rw [run_of_ended hgoes, hgoes] at hended
          cases hended
      | false =>
          rw [run_cons hgoes] at hended ⊢
          cases htaken : (d.take entry).ended with
          | true =>
              rw [run_of_ended htaken, htaken] at hended
              cases hended
          | false => exact ih (shown_take h entry htaken) hended

/-! ### Two interrupts in a row -/

/-- An interrupt ends the session, or nothing is pending after it. -/
theorem take_interrupt_cases (d : Dialogue) :
    (d.take .interrupt).ended = true ∨ (d.take .interrupt).session.pending = [] := by
  have hpending := d.session.pending_interrupt
  rw [take]
  rcases hinterrupt : d.session.interrupt with ⟨s, _ | _⟩
  · exact .inl rfl
  · rw [hinterrupt] at hpending
    exact .inr hpending

/-- If nothing is pending, an interrupt ends the session, also after some failures. -/
theorem ended_of_interrupt (hpending : d.session.pending = []) {failures : List Entry}
    (hfailures : ∀ entry ∈ failures, ∃ message, entry = .failure message) :
    (d.run (failures ++ [.interrupt])).ended = true := by
  induction failures generalizing d with
  | nil =>
      cases hended : d.ended with
      | true => rw [run_of_ended hended, hended]
      | false =>
          have hdropped : d.session.interrupt = (d.session, false) := by
            rw [interrupt, hpending]
            rfl
          rw [List.nil_append, run_cons hended, take, hdropped]
          rfl
  | cons entry failures ih =>
      obtain ⟨⟨message, rfl⟩, hrest⟩ := List.forall_mem_cons.mp hfailures
      cases hended : d.ended with
      | true => rw [run_of_ended hended, hended]
      | false =>
          rw [List.cons_append, run_cons hended]
          exact ih hpending hrest

/-- Two interrupts with nothing but failures between them end the session, whatever was
entered before them. -/
theorem ended_of_two_interrupts (before : List Entry) {failures : List Entry}
    (hfailures : ∀ entry ∈ failures, ∃ message, entry = .failure message) :
    (d.run (before ++ .interrupt :: (failures ++ [.interrupt]))).ended = true := by
  rw [run_append]
  generalize d.run before = d
  cases hended : d.ended with
  | true => rw [run_of_ended hended, hended]
  | false =>
      rw [run_cons hended]
      obtain htaken | hpending := d.take_interrupt_cases
      · rw [run_of_ended htaken, htaken]
      · exact ended_of_interrupt hpending hfailures

end Dialogue

/-- After any calls the session is idle or waits for more. So the prompt that a line asks
for is the one of the new state, an interrupt drops something exactly if the end of the
input would report it, and an interrupt after one that dropped something finds nothing to
drop.

A session that is held is in such a state whatever is entered, and it shows the prompt of
this state. Two interrupts in a row end it, also if attempts to read a line have failed
between them, and it takes nothing of what follows. -/
theorem calls_idle_or_waiting (firstPrompt : String) (typeStyle failureStyle : Style) :
    let new := start firstPrompt typeStyle failureStyle
    (∀ cs, let s := (new.calls cs).1
      s.firstPrompt = firstPrompt ∧ (s.Idle ∨ s.Waiting) ∧
      (∀ line, (s.feed line).prompt = (s.feed line).session.prompt ∧
        (s.feed line).prompt =
          if (s.feed line).session.pending = [] then firstPrompt else morePrompt) ∧
      (s.interrupt.2 = true ↔
        s.flush.2.err = s.failureStyle.paint (droppedMessage (trim (pieces s.pending)))) ∧
      (s.interrupt.2 = true → s.interrupt.1.interrupt.2 = false)) ∧
    (∀ entries, let d := new.run entries
      (d.session.Idle ∨ d.session.Waiting) ∧ (d.ended = false → d.shown = d.session.prompt)) ∧
    ∀ before failures rest, (∀ entry ∈ failures, ∃ message, entry = .failure message) →
      let d := new.run (before ++ .interrupt :: (failures ++ [.interrupt]))
      d.ended = true ∧ new.run (before ++ .interrupt :: (failures ++ .interrupt :: rest)) = d := by
  intro new
  have hreached (cs : List Call) : ∃ lines p, Unfinished lines ∧
      (new.calls cs).1 = (new.withParser p).holding lines :=
    exists_calls_eq_holding new .nil cs
  refine ⟨fun cs => ?_, fun entries => ?_, fun before failures rest hfailures => ?_⟩
  · obtain ⟨lines, p, hlines, hstate⟩ := hreached cs
    rw [hstate]
    have hcases := idle_or_waiting_holding (new.withParser p) hlines
    refine ⟨rfl, hcases, fun line => ⟨feed_prompt _ line, ?_⟩, interrupt_iff_flush hcases,
      fun _ => ?_⟩
    · obtain ⟨rest, p', hrest, hfeed⟩ :=
        exists_call_eq_holding (new.withParser p) hlines (.feed line)
      have hfed : (((new.withParser p).holding lines).feed line).session =
        ((new.withParser p).withParser p').holding rest := hfeed
      rw [feed_prompt, hfed]
      exact prompt_of_idle_or_waiting (idle_or_waiting_holding _ hrest)
    · rw [← Bool.not_eq_true, interrupt_eq_true_iff, not_not]
      exact pending_interrupt _
  · obtain ⟨cs, hcs⟩ := new.opened.exists_run_session entries
    obtain ⟨lines, p, hlines, hstate⟩ := hreached cs
    refine ⟨?_, Dialogue.shown_run rfl entries⟩
    have hsession : (new.run entries).session = (new.withParser p).holding lines :=
      hcs.trans hstate
    rw [hsession]
    exact idle_or_waiting_holding _ hlines
  · have hended := new.opened.ended_of_two_interrupts before hfailures
    refine ⟨hended, ?_⟩
    have happend : before ++ Entry.interrupt :: (failures ++ .interrupt :: rest) =
        before ++ .interrupt :: (failures ++ [.interrupt]) ++ rest := by simp
    rw [happend, run, Dialogue.run_append]
    exact Dialogue.run_of_ended hended rest

end Session

end TwoSorted
