import DotFraming.Proofs.Reader.Closing
import DotFraming.Proofs.Reader.Truncation

/-!
# What closing a reader discards

A reader that is closed before the end of its message reads past the rest of it, and says in the log
how many characters that was. So the characters that were returned and those that were discarded
make up the message. A reader that has seen the end of the message has nothing to read past: closing
it drops what is still staged, and says nothing.

* `Log.discards` : what was logged about discarded characters.
* `Reading.Silent` : nothing of this kind has been logged, and the reader is not closed. Calls keep
  it so (`Reading.Silent.readOne`).
* `Reading.discards_close` : **what closing logs**, for a reader that comes to the end of its
  message.
* `Operation.remainder_logged` : the same after any operations that read.
* `Operation.staged_remainder_unlogged` : a staged remainder is not logged.
-/

namespace DotFraming

namespace Log

/-- The data of all entries that tell of discarded characters. -/
def discards (log : Log) : List (Option (List (String × Value))) :=
  (log.entries.filter fun e =>
    e.level == .debug && e.message == some "Discarded unread message remainder").map (·.context)

theorem discards_noteTruncated (log : Log) : log.noteTruncated.discards = log.discards := by
  unfold noteTruncated note discards
  rw [entries_send, List.filter_append]
  split <;> simp

theorem discards_noteDiscarded (log : Log) (count : Nat) :
    (log.noteDiscarded count).discards =
      log.discards ++
        if log.level ≤ .debug then [some [("count", .number (.int count))]] else [] := by
  unfold noteDiscarded note discards
  rw [entries_send, List.filter_append]
  split <;> simp

end Log

variable {σ : Type} [CharacterSource σ]

namespace Reading

variable {s m z : Reading σ} {t u v : Text} {log : Log}

/-! ### What calls keep -/

theorem HandsOut.invariant {P : Reading σ → Prop} (h : HandsOut s u m) (h₀ : P s)
    (hcall : ∀ s, P s → P (stateAfter (readOne s))) : P m := by
  induction h with
  | nil => exact h₀
  | @cons s s' _ _ _ call _ ih =>
    have hnext := hcall s h₀
    rw [call] at hnext
    exact ih hnext

theorem Finishes.invariant {P : Reading σ → Prop} (h : Finishes s v z) (h₀ : P s)
    (hcall : ∀ s, P s → P (stateAfter (readOne s))) : P z := by
  obtain ⟨m, hm, hend, -⟩ := h
  have hlast := hcall m (hm.invariant h₀ hcall)
  rwa [hend] at hlast

theorem Reached.invariant {P : Reading σ → Prop} (h : Reached s z t u m) (hz : Finishes s t z)
    (h₀ : P s) (hcall : ∀ s, P s → P (stateAfter (readOne s))) : P m := by
  rcases h with ⟨-, -, hm⟩ | ⟨-, rfl⟩
  · exact hm.invariant h₀ hcall
  · exact hz.invariant h₀ hcall

/-- The reader is not closed, and nothing has been added to `log` about discarded characters. -/
structure Silent (log : Log) (s : Reading σ) : Prop where
  /-- The reader is not closed. -/
  closed : s.reader.closed = false
  /-- The level is that of the log. -/
  level : s.log.level = log.level
  /-- No more was said about discarded characters. -/
  discards : s.log.discards = log.discards

theorem Silent.readOne (h : Silent log s) : Silent log (stateAfter (readOne s)) := by
  have hlevel : Evolves s (stateAfter (Reading.readOne s)) := .of_step (.call s)
  refine ⟨?_, hlevel.level_eq.trans h.level, ?_⟩
  · rcases readOne_cases s with ⟨c, t, -, hrun⟩ | ⟨-, -, hrun⟩ | ⟨-, -, hclosed, cs, hlooks⟩
    · rw [hrun]
      exact h.closed
    · rw [hrun]
      exact h.closed
    · exact hlooks.moves.closed.trans hclosed
  · rcases log_readOne s with hlog | hlog
    · rw [hlog, h.discards]
    · rw [hlog, Log.discards_noteTruncated, h.discards]

/-! ### What closing logs -/

/-- After the end of the message all that is left to be handed out is staged. -/
theorem Finishes.eq_staged (h : Finishes s t z) (heof : s.reader.eof = true) :
    t = s.reader.staged := by
  have hread := read_all h
  rw [read_all (finishes_of_over ⟨heof, rfl⟩)] at hread
  cases hread
  rfl

/-- **What closing logs**: the number of characters it has read past, if there were any. A reader
that has seen the end of the message reads past none. -/
theorem discards_close (h : Finishes s t z) (hs : Silent log s) :
    ∃ y, close s = .ok () y ∧ y.log.discards = log.discards ++
      if s.reader.eof = false ∧ t ≠ [] ∧ log.level ≤ .debug then
        [some [("count", .number (.int t.length))]] else [] := by
  have hz : Silent log z := h.invariant hs fun _ => Silent.readOne
  unfold close
  rw [if_neg (by simp [hs.closed])]
  split
  · next heof => exact ⟨_, rfl, by simp [shut, heof, hs.discards]⟩
  · next heof =>
    rw [collect_all 0 h, Nat.zero_add]
    refine ⟨_, rfl, ?_⟩
    cases t with
    | nil => simp [noteDiscarded, shut, hz.discards]
    | cons c t =>
      have hcount : (c :: t).length ≠ 0 := by simp
      rw [shut, noteDiscarded, if_neg hcount]
      simp only [Log.discards_noteDiscarded, hz.discards, hz.level]
      simp [heof]

end Reading

namespace Operation

open Reading

/-- **Closing accounts for what it reads past.** A new reader over a source that ends is asked for
reading, in whatever way, and then closed. What is left of the message was not returned. If the end
of the message has not been seen yet, this is read past, and logged with the number of its
characters, unless there are none. If the end has been seen, nothing is read past and nothing is
logged: what is left is what was staged. -/
theorem remainder_logged {eol w : Text} {r : Reader} {source : σ} (log : Log)
    (hr : Reader.new? eol = .ok r) (hsource : Exhausts source w) (ops : List Operation)
    (hops : ∀ op ∈ ops, op.isReading = true) :
    let run := performAll ops ⟨r, source, log⟩
    let got := receivedAll ops run.1
    ∃ left y, Wire.decode eol w = got ++ left ∧ Reading.close run.2 = .ok () y ∧
      (run.2.reader.eof = true → left = run.2.reader.staged) ∧
      y.log.discards = log.discards ++
        if run.2.reader.eof = false ∧ left ≠ [] ∧ log.level ≤ .debug then
          [some [("count", .number (.int left.length))]] else [] := by
  intro run got
  obtain ⟨z, hz⟩ := finishes_of_new log hr hsource
  obtain ⟨-, hopen⟩ := open_of_new hr source log
  have hreached := (performAll_of_finishes hops hz).1
  have hsilent : Silent log run.2 :=
    hreached.invariant hz ⟨hopen.closed, rfl, rfl⟩ fun _ => Silent.readOne
  obtain ⟨left, hleft, htail⟩ := hreached.exists_tail hz
  obtain ⟨y, hclose, hdiscards⟩ := discards_close htail hsilent
  exact ⟨left, y, hleft, hclose, htail.eq_staged, hdiscards⟩

/-- A reader that is closed when half a line ending has been handed out: the other half and the next
line are discarded. -/
theorem remainder_logged_half_line_ending :
    let w := "a\r\nb\r\n.\r\n".toList
    let log : Log := { level := .debug }
    ∃ r y, Reader.new? "\r\n".toList = .ok r ∧ Exhausts (Pushback.ofText w) w ∧
      (∀ op ∈ [readOne, readOne], op.isReading = true) ∧
      Reading.close (performAll [.readOne, .readOne] ⟨r, Pushback.ofText w, log⟩).2 = .ok () y ∧
      y.log.discards = [some [("count", .number (.int 4))]] := by
  intro w log
  have hsource := Pushback.exhausts_ofText w
  have hops : ∀ op ∈ [readOne, readOne], op.isReading = true := by decide
  have hdecode : Wire.decode "\r\n".toList w = "a\r".toList ++ "\nb\r\n".toList := by decide
  obtain ⟨left, y, hleft, hclose, -, hdiscards⟩ := remainder_logged log
    (rfl : Reader.new? "\r\n".toList = .ok _) hsource [.readOne, .readOne] hops
  obtain rfl : left = "\nb\r\n".toList := List.append_cancel_left (hleft.symm.trans hdecode)
  exact ⟨_, y, rfl, hsource, hops, hclose, hdiscards⟩

/-- **A staged remainder is not logged.** It is not true that closing logs whatever was not
returned: here the end of the message was seen with the first half of the line ending before it. -/
theorem staged_remainder_unlogged :
    ¬∀ (eol w : Text) (r : Reader) (ops : List Operation), Reader.new? eol = .ok r →
      (∀ op ∈ ops, op.isReading = true) →
      let run := performAll ops ⟨r, Pushback.ofText w, ({ level := .debug } : Log)⟩
      let left := (Wire.decode eol w).drop (receivedAll ops run.1).length
      ∀ y, Reading.close run.2 = .ok () y → y.log.discards =
        if left = [] then [] else [some [("count", .number (.int left.length))]] := by
  intro h
  have hlogged := h "\r\n".toList "a\r\n.\r\n".toList _ [.readOne, .readOne] rfl (by decide) _ rfl
  exact absurd (congrArg List.length hlogged) (by decide)

end Operation

end DotFraming
