import DotFraming.Proofs.Reader.Consumption

/-!
# Going through the lines of a message

A message can be read line by line from wherever a reader has come to. What is left of it is cut at
the first place where a line ending is complete, whether its characters come from a line ending of
the wire or not.

* `Reading.next_of_finishes` : **one line**: it is the first of those that are left.
* `Operation.answers_next` : asking for lines again and again gives one after the other, and then
  reports the end.
* `Operation.lines_of_rest` : **the lines of what is left**, after any operations that read.
-/

namespace DotFraming

variable {σ : Type} [CharacterSource σ] {s z : Reading σ} {t : Text}

namespace Reading

theorem Finishes.eol_eq (h : Finishes s t z) : z.reader.eol = s.reader.eol := by
  obtain ⟨m, hm, hend, -⟩ := h
  have hlast := eol_readOne m
  rw [hend] at hlast
  exact hlast.trans hm.eol_eq

/-- **One line**: the first of those that are left, and the others are left. -/
theorem next_of_finishes {ls : List Text} (h : Finishes s t z) (hls : Lines s.reader.eol t ls) :
    ∃ m v, next s = .ok ls.head? m ∧ Finishes m v z ∧ Lines m.reader.eol v ls.tail := by
  have heol := s.reader.eol_ne_nil
  rcases readLine_of_finishes h with ⟨u, v, m, rfl, hline, hm, hread⟩ | ⟨hnone, hread⟩
  · have hrest := h.tail hm
    obtain ⟨ls', hls', -⟩ := lines_of_finishes hrest
    obtain rfl : ls = u :: ls' := hls.unique heol (.cons hline (hm.eol_eq ▸ hls'))
    refine ⟨m, v, ?_, hrest, hls'⟩
    rw [next, bind_of_ok hread, if_neg (hline.ne_nil heol)]
    rfl
  · -- no line ending is left: the text, if there is any, is the last line
    refine ⟨z, [], ?_, h.again, ?_⟩
    · rw [next, bind_of_ok hread]
      cases t with
      | nil =>
        rw [hls.eq_nil_of_nil heol]
        rfl
      | cons c t =>
        rw [hls.unique heol (.last (by simp) hnone)]
        rfl
    · cases t with
      | nil =>
        rw [hls.eq_nil_of_nil heol]
        exact .nil
      | cons c t =>
        rw [hls.unique heol (.last (by simp) hnone)]
        exact .nil

end Reading

namespace Operation

open Reading

/-- **Lines asked for one by one** are the lines that are left, and after them the end. -/
theorem answers_next {ls : List Text} (h : Finishes s t z) (hls : Lines s.reader.eol t ls)
    (k : Nat) :
    (performAll (List.replicate k next) s).1.map (·.answer) =
      (List.range k).map fun i => .ok (.line ls[i]?) := by
  induction k generalizing s t ls with
  | zero => rfl
  | succ k ih =>
    obtain ⟨m, v, hnext, hrest, htail⟩ := next_of_finishes h hls
    have hone : next.perform s = { answer := .ok (.line ls.head?), after := m } := by
      rw [perform, hnext]
      rfl
    rw [List.replicate_succ, List.range_succ_eq_map, performAll, hone]
    simp only [List.map_cons, List.map_map, ih hrest htail]
    cases ls <;> simp [Function.comp_def]

/-- **The lines of what is left.** A new reader over a source that ends is asked for reading, in
whatever way, and then for all lines. None of them is empty, and together they are what was not
returned before. Each but the last ends with the line ending, which stands nowhere else in any of
them; a line is the shortest part of what is left at its beginning that ends with the line ending.
If there is a terminator, a whole line ending is left and this has no border, then the last line
ends with the line ending too. Lines can also be asked for one by one: they come in this order, and
then the end of the message is reported. -/
theorem lines_of_rest {eol w : Text} {r : Reader} {source : σ} (log : Log)
    (hr : Reader.new? eol = .ok r) (hsource : Exhausts source w) (ops : List Operation)
    (hops : ∀ op ∈ ops, op.isReading = true) :
    let run := performAll ops ⟨r, source, log⟩
    let got := receivedAll ops run.1
    ∃ ls z, Reading.lines run.2 = .ok ls z ∧ (∀ l ∈ ls, l ≠ []) ∧
      got ++ ls.flatten = Wire.decode eol w ∧
      (∀ before l after, ls = before ++ l :: after → (after ≠ [] → eol <:+ l) ∧
        OnlyAtEnd eol l ∧ ∀ y, y <+: (l :: after).flatten → eol <:+ y → l <+: y) ∧
      (Wire.terminator? w ≠ none → got.length + eol.length ≤ (Wire.decode eol w).length →
        Borderless eol → ∀ l ∈ ls, eol <:+ l) ∧
      ∀ k, (performAll (List.replicate k next) run.2).1.map (·.answer) =
        (List.range k).map fun i => .ok (.line ls[i]?) := by
  intro run got
  obtain ⟨z, hz⟩ := finishes_of_new log hr hsource
  obtain ⟨rfl, hopen⟩ := open_of_new hr source log
  have hne := r.eol_ne_nil
  obtain ⟨left, (hleft : Wire.decode r.eol w = got ++ left), htail⟩ :=
    (performAll_of_finishes hops hz).1.exists_tail hz
  have heol : run.2.reader.eol = r.eol := htail.eol_eq.symm.trans hz.eol_eq
  obtain ⟨ls, hls, hlines⟩ := lines_of_finishes htail
  have hanswers := answers_next htail hls
  rw [heol] at hls
  refine ⟨ls, z, hlines, hls.ne_nil hne, ?_, ?_, ?_, hanswers⟩
  · rw [hls.flatten_eq, hleft]
  · rintro before l after rfl
    exact hls.of_append.first
  · intro hterminated hwhole hborder
    have hdecode : Wire.decode r.eol w ≠ [] := by
      intro hnil
      have := List.length_pos_iff.2 hne
      rw [hnil, List.length_nil] at hwhole
      omega
    have hend := Wire.suffix_decode hterminated hdecode
    -- a whole line ending is left, so it is what is left that ends with it
    refine hls.suffix_of_borderless hne hborder ?_
    rw [hleft] at hend hwhole
    rw [List.length_append] at hwhole
    exact List.suffix_of_suffix_length_le hend (List.suffix_append _ _) (by omega)

/-- A line ending of two characters that also stands in a line. Reading has come to the middle of
the first line. -/
theorem lines_of_rest_within_line :
    let w := "xab\r\ny\r\n.\r\n".toList
    let ops : List Operation := [.readOne, .readOne]
    ∃ r, Reader.new? "ab".toList = .ok r ∧ Exhausts (Pushback.ofText w) w ∧
      (∀ op ∈ ops, op.isReading = true) ∧ Wire.terminator? w ≠ none ∧ Borderless "ab".toList ∧
      ∃ ls z, Reading.lines (performAll ops ⟨r, Pushback.ofText w, {}⟩).2 = .ok ls z ∧
        receivedAll ops (performAll ops ⟨r, Pushback.ofText w, {}⟩).1 ++ ls.flatten =
          "xababyab".toList ∧
        ∀ l ∈ ls, "ab".toList <:+ l := by
  intro w ops
  have hsource := Pushback.exhausts_ofText w
  have hops : ∀ op ∈ ops, op.isReading = true := by decide
  have hdecode : Wire.decode "ab".toList w = "xababyab".toList := by decide
  have hterminated : Wire.terminator? w ≠ none := by decide
  have hborder : Borderless "ab".toList := by decide
  obtain ⟨ls, z, hlines, -, htext, -, hends, -⟩ :=
    lines_of_rest {} (rfl : Reader.new? "ab".toList = .ok _) hsource ops hops
  rw [hdecode] at htext hends
  refine ⟨_, rfl, hsource, hops, hterminated, hborder, ls, z, hlines, htext, ?_⟩
  exact hends hterminated (by decide) hborder

end Operation

end DotFraming
