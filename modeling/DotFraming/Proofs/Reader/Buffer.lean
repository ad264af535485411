import DotFraming.Proofs.Reader.Operations
import DotFraming.Proofs.Reader.Steps
import DotFraming.Source.Script

/-!
# Reading into a buffer

What `readInto` does is told for every state of a reader, every buffer and every range, over any
source that holds finitely much. The pieces that calls hand out may be anything then, and a call may
fail.

* `Reading.Gives` : calls hand out pieces one by one.
* `Reading.finishes_of_none` : a call that finds the message over leaves it so.
* `Reading.Counted`, `Reading.take_counted` : **the loop that counts**: it makes as many calls as
  are wanted and no more, unless one of them finds the message over or fails.
* `Reading.Filled` : what may have changed in a buffer.
* `Reading.Fills`, `Reading.readInto_fills` : **what reading into a buffer comes to** if the range
  is there.
* `Reading.readInto_contract` : the same for any range, with the order of the checks.
-/

namespace DotFraming

namespace Collected

/-- Pieces, collected one by one. -/
def ofPieces (ps : List Piece) : Collected := ⟨ps.reverse, ps.length⟩

@[simp] theorem push_ofPieces (ps : List Piece) (p : Piece) :
    (ofPieces ps).push p = ofPieces (ps ++ [p]) := by
  simp [ofPieces, push]

@[simp] theorem text_ofPieces (ps : List Piece) : (ofPieces ps).text = ps.flatten := by
  simp [ofPieces, text]

end Collected

namespace Reading

variable {σ : Type} [CharacterSource σ] {s m y z : Reading σ} {t : Text} {o : Option Piece}

/-! ### The end of a message -/

/-- **A call that finds the message over leaves it so.** -/
theorem finishes_of_none (h : readOne s = .ok none z) : Finishes s [] z := by
  obtain ⟨hstaged, hover⟩ := over_of_readOne_none h
  exact ⟨s, .nil s, h, by simp [readOne, hstaged, hover]⟩

/-! ### Pieces one by one -/

/-- Calls hand out pieces one by one. -/
inductive Gives : Reading σ → List Piece → Reading σ → Prop where
  /-- No call. -/
  | nil (s : Reading σ) : Gives s [] s
  /-- A call that hands out the first piece, and calls for the others. -/
  | cons {s s' z : Reading σ} {p : Piece} {ps : List Piece} (call : readOne s = .ok (some p) s')
      (tail : Gives s' ps z) : Gives s (p :: ps) z

namespace Gives

variable {ps : List Piece} {p : Piece}

theorem snoc (h : Gives s ps y) (call : readOne y = .ok (some p) z) : Gives s (ps ++ [p]) z := by
  induction h with
  | nil s => exact .cons call (.nil z)
  | cons first _ ih => exact .cons first (ih call)

theorem evolves (h : Gives s ps z) : Evolves s z := by
  induction h with
  | nil => exact .refl _
  | cons call _ ih => exact (evolves_of_ok call).trans ih

theorem eq_nil (h : Gives s ps z) (hnone : ∀ p s', readOne s ≠ .ok (some p) s') : ps = [] := by
  cases h with
  | nil => rfl
  | cons call => exact absurd call (hnone _ _)

end Gives

theorem HandsOut.gives (h : HandsOut s t y) : Gives s (t.map ([·])) y := by
  induction h with
  | nil s => exact .nil s
  | cons call _ ih => exact .cons call ih

/-! ### The loop that counts -/

/-- What the loop comes to if `n` pieces are wanted. -/
inductive Counted (s : Reading σ) (n : Nat) :
    Collected × EStateM.Result Fault (Reading σ) Unit → Prop where
  /-- They were handed out, and no further call was made. -/
  | full {ps : List Piece} {y : Reading σ} (gives : Gives s ps y) (enough : ps.length = n) :
      Counted s n (.ofPieces ps, .ok () y)
  /-- The message was over before. -/
  | ended {ps : List Piece} {y z : Reading σ} (gives : Gives s ps y) (fewer : ps.length < n)
      (finished : Finishes y [] z) : Counted s n (.ofPieces ps, .ok () z)
  /-- A call failed before. -/
  | failed {ps : List Piece} {y z : Reading σ} {e : Fault} (gives : Gives s ps y)
      (fewer : ps.length < n) (call : readOne y = .error e z) :
      Counted s n (.ofPieces ps, .error e z)

theorem collect_counted {wanted : Collected → Bool} {n : Nat} {ps : List Piece}
    (hwanted : ∀ ps, wanted (.ofPieces ps) = decide (ps.length < n)) (hps : ps.length ≤ n)
    (h : Gives s ps m) : Counted s n (collect wanted Collected.push (.ofPieces ps) m) := by
  -- one turn of the loop brings the number of pieces nearer to `n`
  induction hk : n - ps.length generalizing ps m with
  | zero =>
    rw [collect_of_enough (by rw [hwanted]; exact decide_eq_false (by omega))]
    exact .full h (by omega)
  | succ k ih =>
    have hfewer : ps.length < n := by omega
    have hmore : wanted (.ofPieces ps) = true := by rw [hwanted]; exact decide_eq_true hfewer
    cases hcall : readOne m with
    | ok o m' =>
      cases o with
      | none =>
        rw [collect_of_none hmore hcall]
        exact .ended h hfewer (finishes_of_none hcall)
      | some p =>
        have hlength : (ps ++ [p]).length = ps.length + 1 := List.length_append
        rw [collect_of_some hmore hcall, Collected.push_ofPieces]
        exact ih (by omega) (h.snoc hcall) (by omega)
    | error e m' =>
      rw [collect_of_error hmore hcall]
      exact .failed h hfewer hcall

/-- **The loop that counts** makes as many calls as are wanted and no more, unless one of them finds
the message over or fails. -/
theorem take_counted (n : Nat) (s : Reading σ) :
    Counted s n (take (fun got => got.count < (n : Int)) s) := by
  have hnothing : Gives s [] s := .nil s
  refine collect_counted (fun ps => ?_) (Nat.zero_le n) hnothing
  simp only [Collected.ofPieces, Int.ofNat_lt]

theorem read_of_take (n : Nat) (s : Reading σ) :
    read n s =
      match take (fun got => got.count < (n : Int)) s with
      | (got, .ok () s') => .ok got.text s'
      | (_, .error e s') => .error e s' := by
  have hwanted : (fun got : Collected => decide (got.count < (n : Int))) =
      fun got => decide ((n : Int) < 0) || decide (got.count < (n : Int)) := by
    funext got
    rw [decide_eq_false (Int.not_lt.2 (Int.natCast_nonneg n)), Bool.false_or]
  rw [hwanted]
  rfl

/-! ### The buffer -/

/-- From `offset` on `items` were put into a buffer, and nothing else has changed. -/
structure Filled (before : List Piece) (offset : Nat) (items after : List Piece) : Prop where
  /-- There is room for them. -/
  room : offset + items.length ≤ before.length
  /-- The buffer keeps its length. -/
  length : after.length = before.length
  /-- They stand there. -/
  window : (after.drop offset).take items.length = items
  /-- All other places are as they were. -/
  others : ∀ i, i < offset ∨ offset + items.length ≤ i → after[i]? = before[i]?

theorem filled_overwrite {buffer items : List Piece} {offset : Nat}
    (h : offset + items.length ≤ buffer.length) :
    Filled buffer offset items (overwrite buffer offset items) := by
  have hlength : (buffer.take offset).length = offset := by rw [List.length_take]; omega
  refine ⟨h, ?_, window_overwrite (by omega), fun i hi => ?_⟩
  · simp only [overwrite, List.length_append, List.length_drop, hlength]
    omega
  · rw [overwrite, List.append_assoc]
    rcases hi with hi | hi
    · rw [List.getElem?_append_left (by omega), List.getElem?_take_of_lt hi]
    · rw [List.getElem?_append_right (by omega), List.getElem?_append_right (by omega),
        List.getElem?_drop]
      congr 1
      omega

theorem overwrite_nil (buffer : List Piece) (offset : Nat) :
    overwrite buffer offset [] = buffer := by
  simp [overwrite]

/-! ### Reading into a buffer -/

/-- What reading `n` pieces into a buffer from `offset` on comes to, compared with reading `n`
characters. -/
inductive Fills (s : Reading σ) (buffer : List Piece) (offset n : Nat) :
    List Piece × EStateM.Result Fault (Reading σ) (Option Nat) → Prop where
  /-- All of them were handed out, and no further call was made. -/
  | full {ps after : List Piece} {y : Reading σ} (gives : Gives s ps y) (enough : ps.length = n)
      (filled : Filled buffer offset ps after) (same : read n s = .ok ps.flatten y) :
      Fills s buffer offset n (after, .ok (some n) y)
  /-- Some of them were handed out before the message was over. -/
  | part {ps after : List Piece} {y z : Reading σ} (gives : Gives s ps y) (any : ps ≠ [])
      (fewer : ps.length < n) (finished : Finishes y [] z) (filled : Filled buffer offset ps after)
      (same : read n s = .ok ps.flatten z) :
      Fills s buffer offset n (after, .ok (some ps.length) z)
  /-- The message was over. -/
  | nothing {z : Reading σ} (finished : Finishes s [] z) (same : read n s = .ok [] z) :
      Fills s buffer offset n (buffer, .ok none z)
  /-- A call failed before all of them were handed out. -/
  | failed {ps after : List Piece} {y z : Reading σ} {e : Fault} (gives : Gives s ps y)
      (fewer : ps.length < n) (call : readOne y = .error e z)
      (filled : Filled buffer offset ps after) (same : read n s = .error e z) :
      Fills s buffer offset n (after, .error e z)

/-- **What reading into a buffer comes to** if the range is there. -/
theorem readInto_fills {buffer : List Piece} {offset : Int} {length : Option Int}
    (hfits : Fits buffer offset length) (s : Reading σ) :
    Fills s buffer offset.toNat (length.getD (buffer.length - offset)).toNat
      (readInto buffer offset length s) := by
  have ⟨hoffset, hpos, hroom⟩ := hfits
  obtain ⟨n, hn⟩ : ∃ n : Nat, length.getD (buffer.length - offset) = n :=
    Int.eq_ofNat_of_zero_le (by omega)
  rw [hn] at hpos hroom
  have hcounted := take_counted n s
  have hread := read_of_take n s
  rw [readInto_of_fits hfits, hn, Int.toNat_natCast]
  generalize take (fun got => decide ((got.count : Int) < n)) s = r at hcounted hread ⊢
  cases hcounted with
  | @full ps y gives enough =>
    have hfilled := @filled_overwrite buffer ps offset.toNat (by omega)
    have hcount : ¬n = 0 := by omega
    simp only [Collected.ofPieces, List.reverse_reverse, enough, if_neg hcount]
    exact .full gives enough hfilled (by simpa using hread)
  | @ended ps y z gives fewer finished =>
    have hfilled := @filled_overwrite buffer ps offset.toNat (by omega)
    simp only [Collected.ofPieces, List.reverse_reverse]
    cases ps with
    | nil =>
      cases gives
      rw [overwrite_nil]
      exact .nothing finished hread
    | cons p ps => exact .part gives (by simp) fewer finished hfilled (by simpa using hread)
  | @failed ps y z e gives fewer call =>
    have hfilled := @filled_overwrite buffer ps offset.toNat (by omega)
    simp only [Collected.ofPieces, List.reverse_reverse]
    exact .failed gives fewer call hfilled hread

/-! ### The checks before -/

/-- There are no `n` places from `offset` on in the buffer. -/
def Outside (buffer : List Piece) (offset n : Int) : Prop :=
  offset < 0 ∨ buffer.length < offset ∨ buffer.length < offset + n

/-- What is wrong with a range that is not there: first of all where it begins. -/
def refusal (buffer : List Piece) (offset n : Int) : Fault :=
  if offset < 0 ∨ buffer.length < offset then .offsetOutside offset buffer.length
  else .rangeOutside n offset buffer.length

/-- The length, if it is given, asks for something. -/
def Sensible (length : Option Int) : Prop := ∀ l, length = some l → 1 ≤ l

variable {buffer : List Piece} {offset : Int} {length : Option Int}

theorem readInto_of_not_sensible (h : ¬Sensible length) (s : Reading σ) :
    readInto buffer offset length s = (buffer, .ok (some 0) s) := by
  obtain ⟨l, rfl, hl⟩ : ∃ l, length = some l ∧ l < 1 := by
    simpa [Sensible] using h
  simp [readInto, hl]

theorem not_early_of_sensible (h : Sensible length) :
    ¬(length.isSome = true ∧ length.getD (buffer.length - offset) < 1) := by
  rintro ⟨hsome, hlt⟩
  obtain ⟨l, rfl⟩ := Option.isSome_iff_exists.1 hsome
  have hl := h l rfl
  simp only [Option.getD_some] at hlt
  omega

theorem readInto_of_outside (hlength : Sensible length)
    (h : Outside buffer offset (length.getD (buffer.length - offset))) (s : Reading σ) :
    readInto buffer offset length s =
      (buffer, .error (refusal buffer offset (length.getD (buffer.length - offset))) s) := by
  unfold readInto refusal
  unfold Outside at h
  simp only
  rw [if_neg (not_early_of_sensible hlength)]
  by_cases hoffset : offset < 0 ∨ (buffer.length : Int) < offset
  · rw [if_pos hoffset, if_pos hoffset]
  · rw [if_neg hoffset, if_neg hoffset]
    have hroom : (buffer.length : Int) < offset + length.getD (buffer.length - offset) :=
      (or_assoc.2 h).resolve_left hoffset
    rw [if_neg (by omega), if_pos (by omega)]

theorem readInto_of_zero (h : ¬Outside buffer offset (length.getD (buffer.length - offset)))
    (hzero : length.getD (buffer.length - offset) = 0) (s : Reading σ) :
    readInto buffer offset length s = (buffer, .ok (some 0) s) := by
  unfold Outside at h
  unfold readInto
  simp only
  split
  · rfl
  · rw [if_neg (by omega), if_pos (by omega)]

theorem fits_of_not_outside (hlength : Sensible length)
    (h : ¬Outside buffer offset (length.getD (buffer.length - offset)))
    (hzero : length.getD (buffer.length - offset) ≠ 0) : Fits buffer offset length := by
  unfold Outside at h
  refine ⟨by omega, ?_, by omega⟩
  cases length with
  | none =>
    simp only [Option.getD_none] at h hzero ⊢
    omega
  | some l => exact hlength l rfl

/-! ### In all -/

section Record

variable {s z : Reading (Traced σ)} {e : Fault}

theorem calls_le_readOne (s : Reading (Traced σ)) :
    s.source.calls.length ≤ (stateAfter (readOne s)).source.calls.length := by
  obtain ⟨cs, hcs, -⟩ := (done_readOne s).raises
  have hrecord := hcs.record.2
  rw [hrecord, List.length_append]
  omega

theorem Evolves.calls_le (h : Evolves s z) : s.source.calls.length ≤ z.source.calls.length :=
  h.source_invariant (P := fun t => s.source.calls.length ≤ t.calls.length) (Nat.le_refl _)
    fun m hm => Nat.le_trans hm (calls_le_readOne m)

/-- A call does not fail without a call on the source. -/
theorem calls_lt_of_error (h : readOne s = .error e z) :
    s.source.calls.length < z.source.calls.length := by
  rcases readOne_cases s with ⟨c, t, -, hrun⟩ | ⟨-, -, hrun⟩ | ⟨-, -, -, cs, hlooks⟩
  · cases hrun.symm.trans h
  · cases hrun.symm.trans h
  · rw [h] at hlooks
    have hrecord : z.source.calls = cs.reverse ++ s.source.calls := hlooks.calls.record.2
    have hpos := List.length_pos_iff.2 hlooks.ahead.ne_nil
    rw [hrecord, List.length_append, List.length_reverse]
    omega

theorem Fills.calls_lt {n offset : Nat}
    {r : List Piece × EStateM.Result Fault (Reading (Traced σ)) (Option Nat)}
    (h : Fills s buffer offset n r) (hr : r.2 = .error e z) :
    s.source.calls.length < z.source.calls.length := by
  cases h with
  | full | part | nothing => cases hr
  | failed gives _ call =>
    cases hr
    exact Nat.lt_of_le_of_lt gives.evolves.calls_le (calls_lt_of_error call)

end Record

theorem Fills.none_iff {n offset : Nat}
    {r : List Piece × EStateM.Result Fault (Reading σ) (Option Nat)}
    (h : Fills s buffer offset n r) (hn : n ≠ 0) :
    (∃ z, r = (buffer, .ok none z)) ↔ ∃ z, Finishes s [] z := by
  constructor
  · rintro ⟨z, hr⟩
    cases h with
    | nothing finished => exact ⟨_, finished⟩
    | full | part | failed => cases hr
  · rintro ⟨z, hz⟩
    have hcall := hz.readOne_nil
    have hnone : ∀ p s', readOne s ≠ .ok (some p) s' := by simp [hcall]
    cases h with
    | full gives enough => exact absurd (gives.eq_nil hnone ▸ enough).symm hn
    | part gives any => exact absurd (gives.eq_nil hnone) any
    | nothing => exact ⟨_, rfl⟩
    | failed gives _ call =>
      obtain rfl := gives.eq_nil hnone
      cases gives
      cases hcall.symm.trans call

/-- **The contract of reading into a buffer.** In any state of a reader, over any source that obeys
the laws of `CharacterSource`, with any buffer and any range:

A length that asks for nothing gives 0, whatever the offset. Otherwise a range that is not there is
refused without a call on the source, and nothing else fails so. If the range is there and empty,
the answer is 0. In all these cases the buffer and the reader are left as they are.

Else as many calls are made as there are places in the range, unless the message is over or a call
fails before. The answer is missing just if the message was over; otherwise what was handed out
stands in the buffer from the offset on, and nothing else has changed there. Reading as many
characters would have given the same text and left the same reader. A failure of the source is
passed on. -/
theorem readInto_contract (buffer : List Piece) (offset : Int) (length : Option Int)
    (s : Reading (Traced σ)) :
    let n := length.getD (buffer.length - offset)
    let run := readInto buffer offset length s
    (¬Sensible length → run = (buffer, .ok (some 0) s)) ∧
      (Sensible length →
        ((∃ e z, run.2 = .error e z ∧ z.source.calls = s.source.calls) ↔ Outside buffer offset n) ∧
        (Outside buffer offset n → run = (buffer, .error (refusal buffer offset n) s)) ∧
        (¬Outside buffer offset n → n = 0 → run = (buffer, .ok (some 0) s)) ∧
        (¬Outside buffer offset n → n ≠ 0 →
          Fills s buffer offset.toNat n.toNat run ∧
          ((∃ z, run = (buffer, .ok none z)) ↔ ∃ z, Finishes s [] z) ∧
          ∃ cs, (stateAfter run.2).source.calls = cs ++ s.source.calls ∧
            ∀ c ∈ cs, ∀ e, c.fault? = some e → ∃ z, run.2 = .error e z)) := by
  intro n run
  refine ⟨fun h => readInto_of_not_sensible h s, fun hlength => ?_⟩
  have hrefused (h : Outside buffer offset n) :
      run = (buffer, .error (refusal buffer offset n) s) :=
    readInto_of_outside hlength h s
  have hzero (h : ¬Outside buffer offset n) (hn : n = 0) : run = (buffer, .ok (some 0) s) :=
    readInto_of_zero h hn s
  have hfills (h : ¬Outside buffer offset n) (hn : n ≠ 0) :
      Fills s buffer offset.toNat n.toNat run :=
    readInto_fills (fits_of_not_outside hlength h hn) s
  refine ⟨⟨?_, fun h => ⟨_, s, by rw [hrefused h], rfl⟩⟩, hrefused, hzero, fun h hn => ?_⟩
  · rintro ⟨e, z, hrun, hcalls⟩
    refine Classical.byContradiction fun h => ?_
    by_cases hn : n = 0
    · rw [hzero h hn] at hrun
      cases hrun
    · have hlt := (hfills h hn).calls_lt hrun
      rw [hcalls] at hlt
      omega
  · have hpos := (fits_of_not_outside hlength h hn).2.1
    refine ⟨hfills h hn, (hfills h hn).none_iff (by omega), ?_⟩
    rcases done_readInto buffer offset length s with ⟨e, -, hread⟩ | hdone
    · exact ⟨[], by simp only [run, hread, stateAfter_error, List.nil_append], by simp⟩
    · obtain ⟨cs, hcs, hraises⟩ := hdone.raises
      exact ⟨cs.reverse, hcs.record.2, fun c hc => hraises c (List.mem_reverse.1 hc)⟩

/-- A length that asks for nothing and an offset that is not there, the same offset without a
length, and a range that is there, over a source that fails when two pieces of three have been
read. -/
theorem readInto_contract_failing_source :
    let buffer : List Piece := [['w'], ['x'], ['y'], ['z']]
    let source : Script := { events := [.item ['a'], .item ['b'], .failure .noDataYet] }
    let s : Reading (Traced Script) :=
      ⟨{ eol := ['\n'], eol_ne_nil := by decide }, { source }, {}⟩
    readInto buffer 5 (some 0) s = (buffer, .ok (some 0) s) ∧
      readInto buffer 5 none s = (buffer, .error (.offsetOutside 5 4) s) ∧
      ∃ z, readInto buffer 1 none s = ([['w'], ['a'], ['b'], ['z']], .error .noDataYet z) ∧
        Fills s buffer 1 3 (readInto buffer 1 none s) := by
  intro buffer source s
  obtain ⟨hnothing, -⟩ := readInto_contract buffer 5 (some 0) s
  obtain ⟨-, hchecked⟩ := readInto_contract buffer 5 none s
  obtain ⟨-, hthere⟩ := readInto_contract buffer 1 none s
  have hlength : Sensible none := by simp [Sensible]
  obtain ⟨-, hrefused, -⟩ := hchecked hlength
  obtain ⟨-, -, -, hreads⟩ := hthere hlength
  obtain ⟨hfills, -⟩ := hreads (by simp [Outside, buffer]) (by simp [buffer])
  have hrun : ∃ z, readInto buffer 1 none s =
      ([['w'], ['a'], ['b'], ['z']], .error .noDataYet z) := by
    rw [readInto_of_fits (by simp [Fits, buffer]), take, collect_of_some rfl rfl,
      collect_of_some rfl rfl, collect_of_error rfl rfl]
    exact ⟨_, rfl⟩
  obtain ⟨z, hrun⟩ := hrun
  exact ⟨hnothing (by simp [Sensible]), hrefused (by simp [Outside, buffer]), z, hrun, hfills⟩

end Reading

end DotFraming
