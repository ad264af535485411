import DotFraming.Proofs.Reader.Buffer
import DotFraming.Proofs.Reader.Run
import DotFraming.Proofs.Wire.Unfinished
import DotFraming.Source.Script

/-!
# When the source fails

A failure of the source is passed on. What the call had looked at by then is lost, and nothing else:
the reader has not come to the end of the message, and all before this look ahead has been handed
out.

* `Reading.exists_failure` : calls go on to the failure, and hand out the text without its
  unfinished end.
* `Reading.begins_of_readOne_error` : a call that fails leaves the reader as it was.
* `Reading.close_of_failure` : closing reads on to the failure and does not pass it over.
* `Operation.FailsWith` : a request that fails because the source did.
* `Operation.cost_of_failure` : **what a failure of the source may cost**, for new readers over a
  text, and for any request to a reader in any state.
-/

namespace DotFraming

theorem Script.delivers (w : Text) (later : List (Event Piece)) :
    Delivers ({ events := w.map (fun c => .item [c]) ++ later } : Script) w
      { events := later } := by
  induction w with
  | nil => exact .nil _
  | cons c w ih => exact .cons rfl ⟨{ events := .item [c] :: _ }, rfl, rfl⟩ ih

variable {σ : Type} [CharacterSource σ]

namespace Reading

open Wire

variable {s s' : Reading σ} {t t' : σ} {e : Fault} {start : Bool} {w : Text}

/-- Calls go on to a failure of the source. The one that meets it loses what it had looked at, and
the next one begins with what comes then. -/
theorem exists_failure (hs : Open s start []) (hw : ¬Complete start w)
    (hd : Delivers s.source w t) (hfail : CharacterSource.read t = .error e t') :
    ∃ y s' : Reading σ, HandsOut s (decodeFrom s.reader.eol start (settled start w)) y ∧
      readOne y = .error e s' ∧ Open s' (start && w.isEmpty) [] ∧
      s'.reader.eol = s.reader.eol ∧ s'.source = t' := by
  obtain ⟨out, start', left, hruns, hshort⟩ := exists_runs_of_not_complete s.reader.eol hw
  obtain ⟨y, hy, hopen, heol, -, hdy, -⟩ := handsOut_of_runs hs hruns hd
  obtain ⟨s', call, hopen', heol', -, hsource⟩ := readOne_of_short_error hopen hshort hdy hfail
  rw [← hruns.eq_decodeFrom_settled hshort, ← hruns.start_eq]
  exact ⟨y, s', hy, call, hopen', heol'.trans heol, hsource⟩

/-- **A call that fails leaves the reader as it was**, but that it may have begun to read. Only a
reader that has not seen the end of the message can fail. -/
theorem begins_of_readOne_error (h : readOne s = .error e s') :
    (s.reader.Begins s'.reader ∧ s'.log = s.log) ∧
      s'.reader.eof = false ∧ s'.reader.closed = false := by
  rcases readOne_cases s with ⟨c, t, -, hrun⟩ | ⟨-, -, hrun⟩ | ⟨-, heof, hclosed, cs, hlooks⟩
  · cases h.symm.trans hrun
  · cases h.symm.trans hrun
  · have hhalts := hlooks.halts e s' h
    exact ⟨hhalts, hhalts.1.eof_eq.trans heof, hhalts.1.moves.closed.trans hclosed⟩

theorem collect_of_failure {y z : Reading σ} {ps : List Piece} (n : Nat) (h : Gives s ps y)
    (hcall : readOne y = .error e z) :
    collect (fun _ => true) (fun n _ => n + 1) n s = (n + ps.length, .error e z) := by
  induction h generalizing n with
  | nil => exact collect_of_error rfl hcall
  | cons call _ ih =>
    rw [collect_of_some rfl call, ih (n + 1) hcall, List.length_cons, Nat.add_assoc,
      Nat.add_comm 1]

/-- **Closing reads on to the failure**, and does not pass it over. -/
theorem close_of_failure {y z : Reading σ} {ps : List Piece} (hclosed : s.reader.closed = false)
    (heof : s.reader.eof = false) (h : Gives s ps y) (hcall : readOne y = .error e z) :
    close s = .error e z := by
  unfold close
  rw [hclosed, heof, collect_of_failure 0 h hcall]
  rfl

end Reading

/-- What is handed out of a text is handed out of every longer one. -/
theorem Wire.decode_settled_prefix (eol : Text) {w : Text} (hw : ¬Complete true w) (v : Text) :
    decode eol (settled true w) <+: decode eol (w ++ v) := by
  obtain ⟨out, start', left, hruns, hshort⟩ := exists_runs_of_not_complete eol hw
  rw [← decodeFrom_true, ← decodeFrom_true, ← hruns.eq_decodeFrom_settled hshort,
    (hruns.append v).decodeFrom_eq]
  exact List.prefix_append _ _

namespace Operation

open Reading

theorem answers_of_failure {s y s' : Reading σ} {u : Text} {e : Fault} (h : HandsOut s u y)
    (hcall : Reading.readOne y = .error e s') :
    (performAll (List.replicate (u.length + 1) readOne) s).1.map (·.answer) =
      u.map (fun c => .ok (.piece (some [c]))) ++ [.error e] := by
  induction h with
  | nil => simp [performAll, perform, hcall, Outcome.ofResult]
  | cons call _ ih =>
    rw [List.length_cons, List.replicate_succ, performAll, perform, call]
    exact congrArg (_ :: ·) (ih hcall)

/-- The request `op` fails with a failure of the source. The reader has neither seen the end of the
message nor been closed, and a call of `readOne` has changed nothing but that it may have begun to
read. -/
structure FailsWith (op : Operation) (s : Reading σ) (e : Fault) (o : Outcome σ) : Prop where
  /-- The failure is the answer. -/
  answer : o.answer = .error e
  /-- The end of the message has not been seen. -/
  eof : o.after.reader.eof = false
  /-- The reader is not closed. -/
  closed : o.after.reader.closed = false
  /-- A single call leaves the reader as it was. -/
  kept : op = readOne → s.reader.Begins o.after.reader ∧ o.after.log = s.log

theorem failsWith_close {s y z : Reading σ} {ps : List Piece} {e : Fault}
    (hclosed : s.reader.closed = false) (heof : s.reader.eof = false) (h : Gives s ps y)
    (hcall : Reading.readOne y = .error e z) : close.FailsWith s e (close.perform s) := by
  have hclose : close.perform s = { answer := .error e, after := z } := by
    rw [perform, close_of_failure hclosed heof h hcall]
    rfl
  obtain ⟨-, hseen, hshut⟩ := begins_of_readOne_error hcall
  rw [hclose]
  exact ⟨rfl, hseen, hshut, fun hop => by cases hop⟩

/-- **No failure of the source is passed over.** -/
theorem exists_calls_of_failure (op : Operation) (s : Reading (Traced σ)) :
    ∃ cs, (op.perform s).after.source.calls = cs ++ s.source.calls ∧
      ∀ c ∈ cs, ∀ e, c.fault? = some e → op.FailsWith s e (op.perform s) := by
  obtain ⟨-, -, cs, hcs, hraises⟩ := op.performed s
  refine ⟨cs.reverse, hcs.record.2, fun c hc e he => ?_⟩
  obtain ⟨hanswer, m, -, hcall⟩ := hraises c (List.mem_reverse.1 hc) e he
  obtain ⟨-, heof, hclosed⟩ := begins_of_readOne_error hcall
  refine ⟨hanswer, heof, hclosed, ?_⟩
  -- the call that failed is this one
  rintro rfl
  have hown : Reading.readOne s = .error e (readOne.perform s).after := by
    simp only [perform] at hanswer ⊢
    cases h : Reading.readOne s with
    | ok o t =>
      rw [h] at hanswer
      cases hanswer
    | error e' t =>
      rw [h] at hanswer
      cases hanswer
      rfl
  exact (begins_of_readOne_error hown).1

/-- **What a failure of the source may cost.** A source delivers a text without a whole terminator
and then fails. Calls on a new reader hand out the decoding of the text without its unfinished end,
character by character, and then pass the failure on. The unfinished end is the longest one that is
too short for a call. So what is handed out is a part in front of the text of the message, whatever
might have followed.

Closing the reader instead reads past the text and fails as well. So it does in any state in which
the end of the message has not been seen, if calls go on from there to a failure.

In general, a failure of any call on the source, for reading or for handing back, is the answer to
the request that makes this call, closing included, and leaves a reader that has neither seen the
end of the message nor been closed. A call of `readOne` changes nothing of the reader then, but that
it may have begun to read. -/
theorem cost_of_failure :
    (∀ (eol w : Text) (r : Reader) (source t t' : σ) (e : Fault) (log : Log),
      Reader.new? eol = .ok r → ¬Wire.Complete true w → Delivers source w t →
      CharacterSource.read t = .error e t' →
      let u := Wire.decode eol (Wire.settled true w)
      (performAll (List.replicate (u.length + 1) readOne) ⟨r, source, log⟩).1.map (·.answer) =
          u.map (fun c => .ok (.piece (some [c]))) ++ [.error e] ∧
        (close.perform ⟨r, source, log⟩).answer = .error e ∧
        (w = Wire.settled true w ++ Wire.unfinished true w ∧
          Wire.IsTail w (Wire.unfinished true w) ∧
          ∀ v, Wire.IsTail w v → v.length ≤ (Wire.unfinished true w).length) ∧
        ∀ v, u <+: Wire.decode eol (w ++ v)) ∧
      (∀ (s y z : Reading σ) (ps : List Piece) (e : Fault), s.reader.closed = false →
        s.reader.eof = false → Gives s ps y → Reading.readOne y = .error e z →
          close.FailsWith s e (close.perform s)) ∧
      ∀ (op : Operation) (s : Reading (Traced σ)),
        ∃ cs, (op.perform s).after.source.calls = cs ++ s.source.calls ∧
          ∀ c ∈ cs, ∀ e, c.fault? = some e → op.FailsWith s e (op.perform s) := by
  refine ⟨fun eol w r source t t' e log hr hw hd hfail => ?_,
    fun s y z ps e => failsWith_close, exists_calls_of_failure⟩
  intro u
  obtain ⟨rfl, hs⟩ := open_of_new hr source log
  obtain ⟨y, s', hy, hcall, -⟩ := exists_failure hs hw hd hfail
  have hclose := failsWith_close hs.closed hs.eof hy.gives hcall
  rw [Wire.decodeFrom_true] at hy
  refine ⟨answers_of_failure hy hcall, hclose.answer, ⟨?_, Wire.isTail_unfinished w, fun v => ?_⟩,
    Wire.decode_settled_prefix r.eol hw⟩
  · exact (List.take_append_drop _ w).symm
  · exact Wire.IsTail.length_le

/-- A source that fails when only one character of the terminator is missing, one that fails after a
piece of two characters, and one that does not take back the character behind a CR. -/
theorem cost_of_failure_in_terminator :
    let source : Script :=
      { events := "a\r\n.\r".toList.map (fun c => .item [c]) ++ [.failure .noDataYet] }
    let pair : Script := { events := [.item ['b', 'c'], .failure .noDataYet] }
    let stubborn : Script :=
      { events := [.item cr, .item ['a']], unreadFault := some .pushbackOccupied }
    ∃ r, Reader.new? ['|'] = .ok r ∧ ¬Wire.Complete true "a\r\n.\r".toList ∧
      Wire.unfinished true "a\r\n.\r".toList = "\r\n.\r".toList ∧
      (performAll [.readOne, .readOne] ⟨r, source, {}⟩).1.map (·.answer) =
        [.ok (.piece (some ['a'])), .error .noDataYet] ∧
      (close.perform ⟨r, source, {}⟩).answer = .error .noDataYet ∧
      (close.perform ⟨r, pair, {}⟩).answer = .error .noDataYet ∧
      (readOne.perform ⟨r, ({ source := stubborn } : Traced Script), {}⟩).answer =
        .error .pushbackOccupied := by
  intro source pair stubborn
  have hnot : ¬Wire.Complete true "a\r\n.\r".toList := by decide
  have hd : Delivers source "a\r\n.\r".toList { events := [.failure .noDataYet] } :=
    Script.delivers _ _
  obtain ⟨hcalls, hclose, hany⟩ := cost_of_failure (σ := Script)
  obtain ⟨hanswers, hdrain, -⟩ := hcalls ['|'] _ _ _ _ _ _ {} rfl hnot hd rfl
  have hpair := hclose ⟨{ eol := ['|'], eol_ne_nil := by decide }, pair, {}⟩ _ _ [['b', 'c']] _ rfl
    rfl (.cons rfl (.nil _)) rfl
  refine ⟨_, rfl, hnot, by decide, hanswers, hdrain, hpair.answer, ?_⟩
  obtain ⟨cs, hcs, hfails⟩ := hany readOne
    ⟨{ eol := ['|'], eol_ne_nil := by decide }, ({ source := stubborn } : Traced Script), {}⟩
  have hmem : Call.unread ['a'] (.error .pushbackOccupied) ∈ cs := by
    rw [List.append_nil] at hcs
    exact hcs ▸ List.mem_cons_self
  exact (hfails _ hmem _ rfl).answer

end Operation

end DotFraming
