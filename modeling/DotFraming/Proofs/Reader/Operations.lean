import DotFraming.Proofs.Lines
import DotFraming.Proofs.Reader.Lookahead
import DotFraming.Proofs.Reader.Run
import DotFraming.Reader.Operation

/-!
# What the operations take from a message

All operations of a reader take their characters from the same calls, in one loop. So it is enough
to know the text that the calls hand out: every operation cuts off a part of it in front, and leaves
the reader as that many calls do.

* `Reading.take_of_finishes` : **the loop** stops as soon as no more is wanted, or at the end of the
  message.
* `Reading.read_of_finishes`, `Reading.readLine_of_finishes`, `Reading.lines_of_finishes`,
  `Reading.readInto_of_finishes` : the operations one by one.
-/

namespace DotFraming

/-! ### Characters that were collected -/

namespace Collected

/-- The characters of a text, collected one by one. -/
def ofText (t : Text) : Collected := ⟨t.reverse.map ([·]), t.length⟩

@[simp] theorem count_ofText (t : Text) : (ofText t).count = t.length := rfl

@[simp] theorem push_ofText (t : Text) (c : Char) : (ofText t).push [c] = ofText (t ++ [c]) := by
  simp [ofText, push]

theorem pieces_ofText (t : Text) : (ofText t).pieces.reverse = t.map ([·]) := by
  simp [ofText]

theorem flatten_map_singleton (t : Text) : (t.map ([·])).flatten = t := by
  induction t with
  | nil => rfl
  | cons c t ih => simp [ih]

@[simp] theorem text_ofText (t : Text) : (ofText t).text = t := by
  rw [text, pieces_ofText, flatten_map_singleton]

theorem endsLine_ofText {eol t : Text} (heol : eol ≠ []) :
    (ofText t).endsLine eol = true ↔ eol <:+ t := by
  have htake : ((ofText t).pieces.take eol.length).reverse.flatten =
      t.drop (t.length - eol.length) := by
    rw [ofText, ← List.map_take, ← List.map_reverse, flatten_map_singleton, List.take_reverse,
      List.reverse_reverse]
  have hhead : (ofText t).pieces.head? = t.getLast?.map ([·]) := by
    simp [ofText, List.head?_reverse]
  rw [endsLine, htake, hhead, count_ofText]
  constructor
  · intro h
    simp only [Bool.and_eq_true, beq_iff_eq, decide_eq_true_eq] at h
    exact h.2 ▸ List.drop_suffix _ _
  · rintro ⟨u, rfl⟩
    have hlast : (u ++ eol).getLast? = eol.getLast? := by
      rw [List.getLast?_append, List.getLast?_eq_some_getLast heol, Option.some_or]
    simp [hlast]

end Collected

namespace Reading

open Wire

variable {σ : Type} [CharacterSource σ] {s m z : Reading σ} {t u v : Text}

/-! ### The loop -/

theorem Finishes.again (h : Finishes s t z) : Finishes z [] z := by
  obtain ⟨-, -, -, hz⟩ := h
  exact ⟨z, .nil z, hz, hz⟩

theorem Finishes.readOne_nil (h : Finishes s [] z) : readOne s = .ok none z := by
  obtain ⟨m, hm, hcall, -⟩ := h
  cases hm
  exact hcall

theorem Finishes.readOne_cons {c : Char} (h : Finishes s (c :: t) z) :
    ∃ s', readOne s = .ok (some [c]) s' ∧ Finishes s' t z := by
  obtain ⟨m, hm, hend⟩ := h
  cases hm with
  | cons call tail => exact ⟨_, call, m, tail, hend⟩

theorem Finishes.tail (h : Finishes s (u ++ v) z) (hm : HandsOut s u m) : Finishes m v z := by
  obtain ⟨y, hy, hend⟩ := h
  obtain ⟨m', hu, hv⟩ := hy.split
  cases hm.unique hu
  exact ⟨y, hv, hend⟩

section Collect

variable {β : Type} {wanted : β → Bool} {step : β → Piece → β} {b : β} {s' : Reading σ}

theorem collect_of_enough (hw : wanted b = false) : collect wanted step b s = (b, .ok () s) := by
  unfold collect
  simp [hw]

theorem collect_of_some {p : Piece} (hw : wanted b = true) (h : readOne s = .ok (some p) s') :
    collect wanted step b s = collect wanted step (step b p) s' := by
  rw [collect, if_pos hw]
  split <;> simp_all

theorem collect_of_none (hw : wanted b = true) (h : readOne s = .ok none s') :
    collect wanted step b s = (b, .ok () s') := by
  rw [collect, if_pos hw]
  split <;> simp_all

theorem collect_of_error {e : Fault} (hw : wanted b = true) (h : readOne s = .error e s') :
    collect wanted step b s = (b, .error e s') := by
  rw [collect, if_pos hw]
  split <;> simp_all

end Collect

/-- A loop that goes on while `wanted` stops after `u`: this is enough, and nothing shorter is. -/
structure StopsAfter (wanted : Text → Bool) (u : Text) : Prop where
  /-- It is enough. -/
  enough : wanted u = false
  /-- Less is not. -/
  before : ∀ y, y <+: u → y ≠ u → wanted y = true

theorem StopsAfter.cons {wanted : Text → Bool} {c : Char} (h : wanted [] = true)
    (hu : StopsAfter (fun y => wanted ([c] ++ y)) u) : StopsAfter wanted (c :: u) := by
  refine ⟨hu.enough, fun y hy hne => ?_⟩
  cases y with
  | nil => exact h
  | cons d y =>
    obtain ⟨rfl, hyu⟩ := List.cons_prefix_cons.1 hy
    exact hu.before y hyu fun h => hne (h ▸ rfl)

/-- The loop over calls that hand out `t`, after `x` has been collected: it stops within `t`, or it
goes on from where they end. -/
theorem collect_of_handsOut {wanted : Collected → Bool} (x : Text) (h : HandsOut s t m) :
    (∃ u v y, t = u ++ v ∧ StopsAfter (fun y => wanted (.ofText (x ++ y))) u ∧ HandsOut s u y ∧
        collect wanted Collected.push (.ofText x) s = (.ofText (x ++ u), .ok () y)) ∨
      (∀ y, y <+: t → wanted (.ofText (x ++ y)) = true) ∧
        collect wanted Collected.push (.ofText x) s =
          collect wanted Collected.push (.ofText (x ++ t)) m := by
  -- one turn of the loop moves a character from `t` to the end of `x`
  induction h generalizing x with
  | nil s =>
    cases hw : wanted (.ofText x) with
    | false =>
      refine .inl ⟨[], [], s, rfl, ⟨by simpa using hw, by simp⟩, .nil s, ?_⟩
      simpa using collect_of_enough hw
    | true => exact .inr ⟨by simpa using hw, by rw [List.append_nil]⟩
  | @cons s s' _ c t call tail ih =>
    cases hw : wanted (.ofText x) with
    | false =>
      refine .inl ⟨[], c :: t, s, rfl, ⟨by simpa using hw, by simp⟩, .nil s, ?_⟩
      simpa using collect_of_enough hw
    | true =>
      have hrun : collect wanted Collected.push (.ofText x) s =
          collect wanted Collected.push (.ofText (x ++ [c])) s' := by
        rw [collect_of_some hw call, Collected.push_ofText]
      have hassoc (u : Text) : x ++ [c] ++ u = x ++ (c :: u) := List.append_assoc ..
      rcases ih (x ++ [c]) with ⟨u, v, y, rfl, hstop, hy, hcollect⟩ | ⟨hall, hcollect⟩
      · refine .inl ⟨c :: u, v, y, rfl, ?_, .cons call hy, ?_⟩
        · exact .cons (by simpa using hw) (by simpa using hstop)
        · rw [hrun, hcollect, hassoc]
      · refine .inr ⟨fun y hy => ?_, by rw [hrun, hcollect, hassoc]⟩
        cases y with
        | nil => simpa using hw
        | cons d y =>
          obtain ⟨rfl, hyt⟩ := List.cons_prefix_cons.1 hy
          simpa using hall y hyt

theorem collect_of_finishes {wanted : Collected → Bool} (x : Text) (h : Finishes s t z) :
    (∃ u v m, t = u ++ v ∧ StopsAfter (fun y => wanted (.ofText (x ++ y))) u ∧ HandsOut s u m ∧
        collect wanted Collected.push (.ofText x) s = (.ofText (x ++ u), .ok () m)) ∨
      (∀ y, y <+: t → wanted (.ofText (x ++ y)) = true) ∧
        collect wanted Collected.push (.ofText x) s = (.ofText (x ++ t), .ok () z) := by
  obtain ⟨m, hm, hend, -⟩ := h
  refine (collect_of_handsOut x hm).imp_right fun ⟨hall, hcollect⟩ => ⟨hall, ?_⟩
  rw [hcollect, collect_of_none (hall t (List.prefix_refl t)) hend]

/-- **The loop stops as soon as no more is wanted**, or at the end of the message. -/
theorem take_of_finishes (wanted : Collected → Bool) (h : Finishes s t z) :
    (∃ u v m, t = u ++ v ∧ StopsAfter (fun y => wanted (.ofText y)) u ∧ HandsOut s u m ∧
        take wanted s = (.ofText u, .ok () m)) ∨
      (∀ y, y <+: t → wanted (.ofText y) = true) ∧ take wanted s = (.ofText t, .ok () z) :=
  collect_of_finishes [] h

theorem take_of_handsOut (wanted : Collected → Bool) (h : HandsOut s t m) :
    (∃ u v y, t = u ++ v ∧ StopsAfter (fun y => wanted (.ofText y)) u ∧ HandsOut s u y ∧
        take wanted s = (.ofText u, .ok () y)) ∨
      (∀ y, y <+: t → wanted (.ofText y) = true) ∧
        take wanted s = collect wanted Collected.push (.ofText t) m :=
  collect_of_handsOut [] h

/-! ### The operations -/

theorem StopsAfter.length_eq {wanted : Text → Bool} {n : Int} (h : StopsAfter wanted u)
    (hn : 0 ≤ n) (hw : ∀ y, wanted y = true ↔ (y.length : Int) < n) : (u.length : Int) = n := by
  have henough : n ≤ u.length := by
    have := mt (hw u).2 (by simp [h.enough])
    omega
  rcases List.eq_nil_or_concat u with rfl | ⟨y, c, rfl⟩
  · simp only [List.length_nil] at henough ⊢
    omega
  · have hlt := (hw y).1 (h.before y (by simp) (by simp))
    simp only [List.concat_eq_append, List.length_append, List.length_singleton] at henough ⊢
    omega

theorem read_of_finishes (size : Int) (h : Finishes s t z) :
    (∃ u v m, t = u ++ v ∧ (u.length : Int) = size ∧ HandsOut s u m ∧ read size s = .ok u m) ∨
      (size < 0 ∨ t.length < size) ∧ read size s = .ok t z := by
  rcases take_of_finishes (fun got => size < 0 || got.count < size) h with
    ⟨u, v, m, rfl, hstop, hm, htake⟩ | ⟨hall, htake⟩
  · have hsize : 0 ≤ size := by
      have := hstop.enough
      simp only [Bool.or_eq_false_iff, decide_eq_false_iff_not] at this
      omega
    refine .inl ⟨u, v, m, rfl, hstop.length_eq hsize fun y => ?_, hm, by simp [read, htake]⟩
    simp only [Bool.or_eq_true, decide_eq_true_eq]
    simp only [Collected.count_ofText]
    omega
  · have hlast := hall t (List.prefix_refl t)
    simp only [Bool.or_eq_true, decide_eq_true_eq] at hlast
    exact .inr ⟨hlast, by simp [read, htake]⟩

theorem length_read {size : Int} (hsize : 0 ≤ size) (h : Finishes s t z) :
    ∃ u s', read size s = .ok u s' ∧ u.length = min size.toNat t.length := by
  rcases read_of_finishes size h with ⟨u, v, m, rfl, hlen, -, hread⟩ | ⟨hlt, hread⟩
  · refine ⟨u, m, hread, ?_⟩
    rw [List.length_append]
    omega
  · exact ⟨t, z, hread, by omega⟩

theorem read_all (h : Finishes s t z) : read (-1) s = .ok t z := by
  rcases read_of_finishes (-1) h with ⟨u, -, -, -, hlen, -⟩ | ⟨-, hread⟩
  · omega
  · exact hread

theorem isLine_of_stopsAfter {eol : Text} (heol : eol ≠ [])
    (h : StopsAfter (fun y => !(Collected.ofText y).endsLine eol) u) : IsLine eol u := by
  refine ⟨(Collected.endsLine_ofText heol).1 (by simpa using h.enough), fun y hy hend => ?_⟩
  refine Decidable.byContradiction fun hne => ?_
  have hmore := h.before y hy hne
  rw [(Collected.endsLine_ofText heol).2 hend] at hmore
  cases hmore

theorem not_suffix_of_wanted {eol y : Text} (heol : eol ≠ [])
    (h : (!(Collected.ofText y).endsLine eol) = true) : ¬eol <:+ y := by
  rw [← Collected.endsLine_ofText heol]
  simpa using h

theorem readLine_of_finishes (h : Finishes s t z) :
    (∃ u v m, t = u ++ v ∧ IsLine s.reader.eol u ∧ HandsOut s u m ∧ readLine s = .ok u m) ∨
      (∀ y, y <+: t → ¬s.reader.eol <:+ y) ∧ readLine s = .ok t z := by
  have heol := s.reader.eol_ne_nil
  rcases take_of_finishes (fun got => !got.endsLine s.reader.eol) h with
    ⟨u, v, m, rfl, hstop, hm, htake⟩ | ⟨hall, htake⟩
  · exact .inl ⟨u, v, m, rfl, isLine_of_stopsAfter heol hstop, hm, by simp [readLine, htake]⟩
  · exact .inr ⟨fun y hy => not_suffix_of_wanted heol (hall y hy), by simp [readLine, htake]⟩

theorem readLine_nil (h : Finishes s [] z) : readLine s = .ok [] z := by
  rcases readLine_of_finishes h with ⟨u, v, m, huv, hline, -, -⟩ | ⟨-, hread⟩
  · obtain ⟨rfl, -⟩ := List.append_eq_nil_iff.1 huv.symm
    exact absurd rfl (hline.ne_nil s.reader.eol_ne_nil)
  · exact hread

/-! ### All lines -/

theorem HandsOut.eol_eq (h : HandsOut s u m) : m.reader.eol = s.reader.eol := by
  induction h with
  | nil => rfl
  | @cons s _ _ _ _ call _ ih =>
    have := eol_readOne s
    rw [call] at this
    exact ih.trans this

theorem linesFrom_of_line {got : List Text} (h : readLine s = .ok t m) (hne : t ≠ []) :
    linesFrom got s = linesFrom (t :: got) m := by
  rw [linesFrom]
  split <;> simp_all

theorem linesFrom_of_end {got : List Text} (h : readLine s = .ok [] m) :
    linesFrom got s = (got, .ok () m) := by
  rw [linesFrom]
  split <;> simp_all

theorem linesFrom_of_error {got : List Text} {e : Fault} (h : readLine s = .error e m) :
    linesFrom got s = (got, .error e m) := by
  rw [linesFrom]
  split <;> simp_all

theorem linesFrom_of_finishes (got : List Text) (h : Finishes s t z) :
    ∃ ls, Lines s.reader.eol t ls ∧ linesFrom got s = (ls.reverse ++ got, .ok () z) := by
  -- a line is never empty: what comes after it is shorter
  induction hn : t.length using Nat.strongRecOn generalizing s t got with
  | _ n ih =>
    rcases readLine_of_finishes h with ⟨u, v, m, rfl, hline, hm, hread⟩ | ⟨hnone, hread⟩
    · have hne := hline.ne_nil s.reader.eol_ne_nil
      have hlt : v.length < n := by
        have := List.length_pos_iff.2 hne
        simp only [List.length_append] at hn
        omega
      obtain ⟨ls, hls, hfrom⟩ := ih v.length hlt (u :: got) (h.tail hm) rfl
      rw [hm.eol_eq] at hls
      exact ⟨u :: ls, .cons hline hls, by simp [linesFrom_of_line hread hne, hfrom]⟩
    · cases t with
      | nil => exact ⟨[], .nil, linesFrom_of_end hread⟩
      | cons c t =>
        refine ⟨[c :: t], .last (by simp) hnone, ?_⟩
        rw [linesFrom_of_line hread (by simp), linesFrom_of_end (readLine_nil h.again)]
        rfl

theorem lines_of_finishes (h : Finishes s t z) :
    ∃ ls, Lines s.reader.eol t ls ∧ lines s = .ok ls z := by
  obtain ⟨ls, hls, hfrom⟩ := linesFrom_of_finishes [] h
  exact ⟨ls, hls, by simp [lines, hfrom]⟩

/-! ### Reading into a buffer -/

/-- The range of a buffer that is to be read into is there, and there is something of it. -/
def Fits (buffer : List Piece) (offset : Int) (length : Option Int) : Prop :=
  0 ≤ offset ∧ 1 ≤ length.getD (buffer.length - offset) ∧
    length.getD (buffer.length - offset) ≤ buffer.length - offset

theorem readInto_of_not_fits {buffer : List Piece} {offset : Int} {length : Option Int}
    (h : ¬Fits buffer offset length) (s : Reading σ) :
    readInto buffer offset length s = (buffer, .ok (some 0) s) ∨
      ∃ e, readInto buffer offset length s = (buffer, .error e s) := by
  unfold Fits at h
  unfold readInto
  simp only
  split
  · exact .inl rfl
  · split
    · exact .inr ⟨_, rfl⟩
    · split
      · exact .inl rfl
      · split
        · exact .inr ⟨_, rfl⟩
        · exact absurd (by omega) h

theorem readInto_of_fits {buffer : List Piece} {offset : Int} {length : Option Int}
    (hfits : Fits buffer offset length) (s : Reading σ) :
    readInto buffer offset length s =
      match take (fun got => got.count < length.getD (buffer.length - offset)) s with
      | (got, .ok () s') =>
        (overwrite buffer offset.toNat got.pieces.reverse,
          .ok (if got.count = 0 then none else some got.count) s')
      | (got, .error e s') =>
        (overwrite buffer offset.toNat got.pieces.reverse, .error e s') := by
  obtain ⟨hoffset, hwanted, hroom⟩ := hfits
  have hsome : ¬(length.isSome ∧ length.getD (buffer.length - offset) < 1) := by omega
  have hinside : ¬(offset < 0 ∨ (buffer.length : Int) < offset) := by omega
  -- none of the checks applies
  exact (if_neg hsome).trans <| (if_neg hinside).trans <|
    (if_neg (Int.not_lt.2 hwanted)).trans (if_neg (Int.not_lt.2 hroom))

theorem readInto_of_take {buffer : List Piece} {offset : Int} {length : Option Int}
    {got : Collected} (hfits : Fits buffer offset length)
    (htake : take (fun got => got.count < length.getD (buffer.length - offset)) s =
      (got, .ok () m)) :
    readInto buffer offset length s = (overwrite buffer offset.toNat got.pieces.reverse,
      .ok (if got.count = 0 then none else some got.count) m) := by
  rw [readInto_of_fits hfits, htake]

theorem readInto_of_finishes {buffer : List Piece} {offset : Int} {length : Option Int}
    (hfits : Fits buffer offset length) (h : Finishes s t z) :
    ∃ u v m, t = u ++ v ∧ (u ≠ [] ∧ HandsOut s u m ∨ v = [] ∧ m = z) ∧
      readInto buffer offset length s =
        (overwrite buffer offset.toNat (u.map ([·])),
          .ok (if u.length = 0 then none else some u.length) m) := by
  have ⟨_, hwanted, _⟩ := hfits
  rcases take_of_finishes
    (fun got => got.count < length.getD (buffer.length - offset)) h with
    ⟨u, v, m, rfl, hstop, hm, htake⟩ | ⟨-, htake⟩
  · have hread := readInto_of_take hfits htake
    rw [Collected.pieces_ofText, Collected.count_ofText] at hread
    refine ⟨u, v, m, rfl, .inl ⟨?_, hm⟩, hread⟩
    have hlength := hstop.length_eq (n := length.getD (buffer.length - offset)) (by omega)
      fun y => decide_eq_true_iff
    rintro rfl
    simp only [List.length_nil] at hlength
    omega
  · have hread := readInto_of_take hfits htake
    rw [Collected.pieces_ofText, Collected.count_ofText] at hread
    exact ⟨t, [], z, (List.append_nil t).symm, .inr ⟨rfl, rfl⟩, hread⟩

theorem window_overwrite {buffer items : List Piece} {offset : Nat} (h : offset ≤ buffer.length) :
    ((overwrite buffer offset items).drop offset).take items.length = items := by
  have hlength : (buffer.take offset).length = offset := by simp [h]
  rw [overwrite, List.append_assoc, List.drop_left' hlength, List.take_left]

end Reading

end DotFraming
