import DotFraming.Proofs.Reader.Invariant
import DotFraming.Proofs.Reader.View
import DotFraming.Proofs.Source.Gauge
import DotFraming.Proofs.Wire.Unfinished
import DotFraming.Stream.Scripted

/-!
# Closing a reader

A reader may be closed at any time: before it has read anything, in the middle of a line, with a
character handed back, with something staged, or behind the terminator. This file says that the
source is then right behind the message.

* `Wire.exists_ends_take` : a message up to its terminator is enough to see its end.
* `Reading.Stops` : the reader comes to the end of the message, and leaves the source in a known
  state.
* `Reading.close_of_stops` : **closing gets there.** Nothing that is asked for before prevents it
  (`Operation.stops_performAll`).
* `Operation.close_leaves_rest` : closing after any operations leaves the source right behind the
  terminator, of which no more was ever asked for, and the reader without anything to give.
-/

namespace DotFraming

namespace Wire

variable {start : Bool} {w : Text} {n p : Nat}

/-- Where a message ends is told by the two characters there and by what comes before. -/
theorem endsAt_take (h : p + 2 ≤ n) : EndsAt start (w.take n) p ↔ EndsAt start w p := by
  have hp : p < n := by omega
  have hp' : p + 1 < n := by omega
  have hmin : min p n = p := by omega
  simp only [EndsAt, List.take_take, List.getElem?_take, hp, hp', hmin, ↓reduceIte]

theorem endFrom?_take (h : endFrom? start w = some p) (hlen : p + 3 ≤ w.length) :
    endFrom? start (w.take (p + 3)) = some p := by
  obtain ⟨hends, -, hbefore⟩ := List.find?_range_eq_some.1 h
  refine List.find?_range_eq_some.2 ⟨?_, ?_, fun q hq => ?_⟩
  · exact decide_eq_true ((endsAt_take (by omega)).2 (of_decide_eq_true hends))
  · rw [List.mem_range, List.length_take]
    omega
  · have hnot := hbefore q hq
    simp only [Bool.not_eq_eq_eq_not, Bool.not_true, decide_eq_false_iff_not] at hnot ⊢
    rwa [endsAt_take (by omega)]

/-- **A message up to its terminator** is enough to see its end, and nothing is left of it then. -/
theorem exists_ends_take (eol : Text) (h : terminator? w = some p) (hlen : p + 3 ≤ w.length) :
    ∃ out start' left out', Runs eol true (w.take (p + 3)) out start' left ∧
      Ends eol start' left out' [] := by
  rw [← endFrom?_true] at h
  have htake := endFrom?_take h hlen
  have hcomplete : Complete true (w.take (p + 3)) :=
    complete_iff_endFrom?.2 ⟨p, htake, by rw [List.length_take]; omega⟩
  obtain ⟨out, start', left, out', rest, hruns, hends⟩ := (complete_iff eol).1 hcomplete
  have hrest : rest = [] := by
    rw [← hends.restFrom_eq, ← hruns.restFrom_eq, restFrom_eq, htake]
    exact List.drop_eq_nil_iff.2 (List.length_take_le ..)
  exact ⟨out, start', left, out', hruns, hrest ▸ hends⟩

end Wire

theorem Pushback.delivers_scripted (w : Text) (later : List (Event Text)) :
    Delivers
      ({ stream := { events := w.map (fun c => .item [c]) ++ later } } : Pushback ScriptedText)
      w { stream := { events := later } } := by
  induction w with
  | nil => exact .nil _
  | cons c w ih => exact .cons rfl ⟨{ stream := _, pushed := some [c] }, rfl, rfl⟩ ih

namespace Reading

open Wire

variable {σ : Type} [CharacterSource σ] {s m y z : Reading σ} {t : σ} {u v : Text}

/-! ### Readers that come to the end of the message -/

/-- The reader comes to the end of the message, and leaves the source in the state `t` then. -/
def Stops (s : Reading σ) (t : σ) : Prop := ∃ v z, Finishes s v z ∧ z.source = t

theorem stops_of_new {eol w : Text} {p : Nat} {r : Reader} {source : σ} (log : Log)
    (hr : Reader.new? eol = .ok r) (hp : terminator? w = some p) (hlen : p + 3 ≤ w.length)
    (hd : Delivers source (w.take (p + 3)) t) : Stops ⟨r, source, log⟩ t := by
  obtain ⟨-, hopen⟩ := open_of_new hr source log
  obtain ⟨out, start', left, out', hruns, hends⟩ := exists_ends_take r.eol hp hlen
  obtain ⟨z, hz, -, -, hleft, -⟩ := finishes_of_ends hopen hruns hends hd
  refine ⟨_, z, hz, ?_⟩
  cases hleft
  rfl

theorem HandsOut.evolves (h : HandsOut s u m) : Evolves s m := by
  induction h with
  | nil => exact .refl _
  | cons call _ ih => exact (evolves_of_ok call).trans ih

theorem Finishes.evolves (h : Finishes s v z) : Evolves s z := by
  obtain ⟨m, hm, hend, -⟩ := h
  exact hm.evolves.trans (evolves_of_ok hend)

/-! ### Closing -/

theorem collect_all (n : Nat) (h : Finishes s v z) :
    collect (fun _ => true) (fun n _ => n + 1) n s = (n + v.length, .ok () z) := by
  induction v generalizing s n with
  | nil => exact collect_of_none rfl h.readOne_nil
  | cons c v ih =>
    obtain ⟨s', call, hs'⟩ := h.readOne_cons
    rw [collect_of_some rfl call, ih (n + 1) hs', List.length_cons]
    congr 1
    omega

/-- A closed reader has nothing to give. -/
structure Shut (y : Reading σ) : Prop where
  /-- It is closed. -/
  closed : y.reader.closed = true
  /-- It has seen the end, and nothing is staged. -/
  ended : Over y []

omit [CharacterSource σ] in
theorem shut_of_closed (hs : s.reader.WellFormed) (hclosed : s.reader.closed = true) : Shut s := by
  obtain ⟨heof, -, hpending⟩ := hs.closed hclosed
  exact ⟨hclosed, heof, by simp [Reader.staged, hpending]⟩

omit [CharacterSource σ] in
theorem shut_shut (s : Reading σ) : Shut s.shut := ⟨rfl, rfl, rfl⟩

theorem Shut.finishes (h : Shut y) : Finishes y [] y :=
  ⟨y, .nil y, readOne_of_over h.ended, readOne_of_over h.ended⟩

omit [CharacterSource σ] in
theorem source_noteDiscarded (count : Nat) (s : Reading σ) :
    (noteDiscarded count s).source = s.source := by
  unfold noteDiscarded
  split <;> rfl

/-- **Closing gets to the end of the message.** -/
theorem close_of_stops (hs : s.reader.WellFormed) (h : Stops s t) :
    ∃ y, close s = .ok () y ∧ y.source = t ∧ Shut y := by
  obtain ⟨v, z, hz, rfl⟩ := h
  unfold close
  split
  · next hclosed =>
    have hshut := shut_of_closed hs hclosed
    exact ⟨s, rfl, (hz.evolves.source_eq hshut.ended.eof).symm, hshut⟩
  · split
    · next heof => exact ⟨_, rfl, (hz.evolves.source_eq heof).symm, shut_shut s⟩
    · rw [collect_all 0 hz]
      exact ⟨_, rfl, source_noteDiscarded _ z, shut_shut _⟩

end Reading

namespace Operation

open Reading

variable {σ : Type} [CharacterSource σ] {s y : Reading σ} {t : σ}

/-! ### Operations before -/

/-- No operation keeps a reader from coming to the end of the message. -/
theorem stops_perform (hs : s.reader.WellFormed) (h : Stops s t) (op : Operation) :
    Stops (op.perform s).after t := by
  by_cases hop : op.isReading = true
  · obtain ⟨v, z, hz, hsource⟩ := h
    obtain ⟨v', -, htail⟩ := (perform_of_finishes hop hz).reached.exists_tail hz
    exact ⟨v', z, htail, hsource⟩
  · cases op with
    | ready => exact h
    | close =>
      obtain ⟨y, hclose, hsource, hshut⟩ := close_of_stops hs h
      rw [perform, hclose]
      exact ⟨[], y, hshut.finishes, hsource⟩
    | _ => exact absurd rfl hop

theorem stops_performAll (ops : List Operation) (hs : s.reader.WellFormed) (h : Stops s t) :
    Stops (performAll ops s).2 t := by
  induction ops generalizing s with
  | nil => exact h
  | cons op ops ih => exact ih ((op.performed s).evolves.wellFormed hs) (stops_perform hs h op)

/-! ### Operations after -/

/-- What an operation answers when there is nothing to be had any more. -/
def endAnswer : Operation → Answer
  | readOne => .piece none
  | read _ => .text []
  | readLine => .text []
  | next => .line none
  | lines => .lines []
  | readInto _ _ _ => .count none
  | ready => .flag false
  | close => .done

/-- **Nothing happens to a closed reader.** -/
theorem after_of_shut (h : Shut y) (op : Operation) : (op.perform y).after = y := by
  by_cases hop : op.isReading = true
  · exact (perform_of_finishes hop h.finishes).reached.eq_of_nil.2
  · cases op with
    | ready => rfl
    | close => simp [perform, Reading.close, h.closed, Outcome.ofResult]
    | _ => exact absurd rfl hop

theorem performAll_of_shut (h : Shut y) (ops : List Operation) : (performAll ops y).2 = y := by
  induction ops with
  | nil => rfl
  | cons op ops ih =>
    simp only [performAll]
    rwa [after_of_shut h op]

/-- **A closed reader has nothing to give.** -/
theorem answer_of_shut (h : Shut y) (op : Operation)
    (hroom : ∀ buffer offset length, op = readInto buffer offset length →
      Fits buffer offset length) : (op.perform y).answer = .ok op.endAnswer := by
  cases op with
  | readOne => rw [perform, h.finishes.readOne_nil]; rfl
  | read size =>
    rcases read_of_finishes size h.finishes with ⟨u, v, m, huv, -, -, hread⟩ | ⟨-, hread⟩
    · obtain ⟨rfl, -⟩ := List.append_eq_nil_iff.1 huv.symm
      rw [perform, hread]
      rfl
    · rw [perform, hread]
      rfl
  | readLine => rw [perform, readLine_nil h.finishes]; rfl
  | next => rw [perform, Reading.next, bind_of_ok (readLine_nil h.finishes)]; rfl
  | lines => rw [perform, Reading.lines, linesFrom_of_end (readLine_nil h.finishes)]; rfl
  | readInto buffer offset length =>
    obtain ⟨u, v, m, huv, -, hread⟩ := readInto_of_finishes (hroom _ _ _ rfl) h.finishes
    obtain ⟨rfl, -⟩ := List.append_eq_nil_iff.1 huv.symm
    simp [perform, hread, Outcome.ofResult, endAnswer]
  | ready => simp [perform, Reading.ready, h.ended.staged, h.closed, Except.map, endAnswer]
  | close => simp [perform, Reading.close, h.closed, Outcome.ofResult, endAnswer]

/-! ### At any time -/

/-- **Closing leaves the source right behind the message.** The source delivers a message up to its
terminator and does then whatever it likes. A new reader is asked for anything and closed. Closing
succeeds, and the source is where it is after the third character of the terminator, beyond which
nothing was ever asked for. From then on nothing happens to the reader or the source, and the
answers say that there is nothing more. Another reader over the source is one over what follows. -/
theorem close_leaves_rest {eol w : Text} {p : Nat} {r : Reader} {source t : σ} (log : Log)
    (hr : Reader.new? eol = .ok r) (hp : Wire.terminator? w = some p) (hlen : p + 3 ≤ w.length)
    (hsource : Delivers source (w.take (p + 3)) t) (ops : List Operation) :
    ∃ y, Reading.close (performAll ops ⟨r, ({ source } : Traced σ), log⟩).2 = .ok () y ∧
      (y.source.source = t ∧ Call.position y.source.calls = p + 3 ∧
        Call.furthest y.source.calls = p + 3) ∧
      (∀ ops' : List Operation, (performAll ops' y).2 = y) ∧
      (∀ op : Operation, (∀ buffer offset length, op = readInto buffer offset length →
        Fits buffer offset length) → (op.perform y).answer = .ok op.endAnswer) ∧
      ∀ (r' : Reader) (log' : Log),
        (∀ ops' : List Operation,
          (performAll ops' ⟨r', y.source, log'⟩).1.map (Outcome.map Traced.source) =
            (performAll ops' ⟨r', t, log'⟩).1) ∧
        ∀ eol' w', Reader.new? eol' = .ok r' → Exhausts t w' →
          ∃ z, Reading.read (-1) ⟨r', y.source, log'⟩ = .ok (Wire.decode eol' w') z := by
  let start : Reading (Traced σ) := ⟨r, { source }, log⟩
  -- what is known of sources that deliver a text is known of the record summed up
  have hlength : (w.take (p + 3)).length = p + 3 := by
    rw [List.length_take]
    omega
  have hgauged := hsource.gauged (Nat.le_refl 0)
  rw [Nat.zero_add, hlength, Nat.zero_max] at hgauged
  have hfields : (start.map Traced.gauge).reader.WellFormed := Reader.wellFormed_of_new hr
  have hstops : Stops (start.map Traced.gauge) ⟨t, p + 3, p + 3⟩ :=
    stops_of_new log hr hp hlen hgauged
  have hall := stops_performAll ops hfields hstops
  have hfields' := (performAll_evolves ops _).wellFormed hfields
  obtain ⟨y', hclose', hsource', hshut'⟩ := close_of_stops hfields' hall
  rw [performAll_map Traced.view_gauge, views_close Traced.view_gauge] at hclose'
  obtain ⟨y, hclose, rfl⟩ := eq_ok_of_mapState hclose'
  have hshut : Shut y := ⟨hshut'.closed, hshut'.ended.eof, hshut'.ended.staged⟩
  obtain ⟨hat, hposition, hfurthest⟩ := Gauged.mk.inj hsource'
  refine ⟨y, hclose, ⟨hat, hposition, hfurthest⟩, performAll_of_shut hshut, answer_of_shut hshut,
    fun r' log' => ⟨fun ops' => ?_, fun eol' w' hr' hrest => ?_⟩⟩
  · have hmap := performAll_map Traced.view_source ops' ⟨r', y.source, log'⟩
    rw [Reading.map, hat] at hmap
    rw [hmap]
  · have hview := views_read Traced.view_source (-1) ⟨r', y.source, log'⟩
    obtain ⟨z, hz⟩ := finishes_of_new log' hr' hrest
    rw [Reading.map, hat, read_all hz] at hview
    obtain ⟨z', hread, -⟩ := eq_ok_of_mapState hview.symm
    exact ⟨z', hread⟩

/-- A message of which half a line ending has been handed out, on a stream that has nothing more at
the moment. -/
theorem close_leaves_rest_blocking :
    let later : List (Event Text) := [.failure .noDataYet, .item ['b']]
    let source : Pushback ScriptedText :=
      { stream := { events := "a\r\n.\r\n".toList.map (fun c => .item [c]) ++ later } }
    ∃ r y, Reader.new? ['\n', '|'] = .ok r ∧
      Reading.close (performAll [.readOne, .readOne]
        ⟨r, ({ source } : Traced (Pushback ScriptedText)), {}⟩).2 = .ok () y ∧
      y.source.source = { stream := { events := later } } ∧ Call.furthest y.source.calls = 6 ∧
        (readInto [[]] 0 none |>.perform y).answer = .ok (.count none) := by
  intro later source
  have hsource : Delivers source ("a\r\n.\r\n".toList.take 6) { stream := { events := later } } :=
    Pushback.delivers_scripted _ later
  obtain ⟨y, hclose, ⟨hat, -, hfurthest⟩, -, hanswer, -⟩ :=
    close_leaves_rest {} (rfl : Reader.new? ['\n', '|'] = .ok _)
      (by decide : Wire.terminator? "a\r\n.\r\n".toList = some 3) (by decide) hsource
      [.readOne, .readOne]
  refine ⟨_, y, rfl, hclose, hat, hfurthest, hanswer _ fun _ _ _ h => ?_⟩
  cases h
  exact ⟨by decide, by decide, by decide⟩

end Operation

end DotFraming
