import DotFraming.Proofs.Wire.Call

/-!
# Texts that stop short

As long as a text has not the whole terminator in it, a reader that has it all is still in the
middle of the message. What the last few characters mean may not be told yet: they may be the
beginning of a line ending, of a doubled dot or of the terminator.

* `Wire.Complete` : the whole terminator is there (`complete_iff`).
* `Wire.unfinished`, `Wire.settled` : the longest end of a text that is too short to tell
  (`isTail_unfinished`, `IsTail.length_le`), and what comes before it.
* `Wire.Runs.eq_unfinished`, `Wire.Runs.eq_decodeFrom_settled` : **calls in the middle of the
  message go on to the unfinished end**, and what they hand out is the decoding of what comes before
  it.
-/

namespace DotFraming

namespace Wire

variable {eol : Text} {start start' : Bool} {w out rest left : Text}

/-! ### The whole terminator -/

/-- The text has the end of the message in it, with both characters that follow the dot. -/
def Complete (start : Bool) (w : Text) : Prop := ∃ p, EndsAt start w p ∧ p + 3 ≤ w.length

theorem complete_iff_endFrom? :
    Complete start w ↔ ∃ p, endFrom? start w = some p ∧ p + 3 ≤ w.length := by
  constructor
  · rintro ⟨p, hp, hlen⟩
    cases hfirst : endFrom? start w with
    | none =>
      have hnone := List.find?_range_eq_none.1 hfirst p (by omega)
      simp [hp] at hnone
    | some q =>
      obtain ⟨-, -, hbefore⟩ := List.find?_range_eq_some.1 hfirst
      have hle : q ≤ p := Nat.le_of_not_lt fun hlt => by simpa [hp] using hbefore p hlt
      exact ⟨q, rfl, by omega⟩
  · rintro ⟨p, hp, hlen⟩
    obtain ⟨hends, -, -⟩ := List.find?_range_eq_some.1 hp
    exact ⟨p, of_decide_eq_true hends, hlen⟩

instance : Decidable (Complete start w) :=
  decidable_of_iff (((endFrom? start w).any fun p => p + 3 ≤ w.length) = true) <| by
    rw [complete_iff_endFrom?]
    cases endFrom? start w <;> simp

theorem endFrom?_of_ne {c : Char} {t : Text} (h : c ≠ '.') :
    endFrom? true (c :: t) = endFrom? false (c :: t) := by
  by_cases hcr : c = '\r' ∧ t.head? = some '\n'
  · obtain ⟨rfl, ht⟩ := hcr
    obtain ⟨u, rfl⟩ := List.head?_eq_some_iff.1 ht
    rw [endFrom?_crlf, endFrom?_crlf]
  · rw [endFrom?_cons (by simp [h]) hcr, endFrom?_cons (by simp) hcr]

theorem Takes.endFrom?_eq (h : Takes eol start w out rest) :
    ∃ k, w.length = rest.length + k ∧ endFrom? start w = (endFrom? false rest).map (· + k) := by
  cases h with
  | plain cr dot => exact ⟨1, rfl, endFrom?_cons dot (by simp [cr])⟩
  | firstDots => exact ⟨2, rfl, endFrom?_dot_dot _⟩
  | loneCR lf => exact ⟨1, rfl, endFrom?_cons (by simp) (by simp [lf])⟩
  | newline dot => exact ⟨2, rfl, by rw [endFrom?_crlf, endFrom?_of_ne dot]⟩
  | stuffed =>
    refine ⟨4, rfl, ?_⟩
    rw [endFrom?_crlf, endFrom?_dot_dot, Option.map_map]
    rfl

theorem Takes.complete_iff (h : Takes eol start w out rest) :
    Complete start w ↔ Complete false rest := by
  obtain ⟨k, hlen, hend⟩ := h.endFrom?_eq
  rw [complete_iff_endFrom?, complete_iff_endFrom?, hend, hlen]
  cases endFrom? false rest with
  | none => simp
  | some p => simp only [Option.map_some, Option.some.injEq, exists_eq_left']; omega

theorem Runs.complete_iff (h : Runs eol start w out start' left) :
    Complete start w ↔ Complete start' left := by
  induction h with
  | refl => rfl
  | step head _ ih => rw [head.complete_iff, ih]

theorem Ends.complete (h : Ends eol start w out rest) : Complete start w := by
  rw [complete_iff_endFrom?]
  cases h with
  | atOnce dot => exact ⟨0, by rw [endFrom?_dot (by simp [dot])]; rfl, by simp⟩
  | afterLine dot =>
    refine ⟨2, ?_, by simp⟩
    rw [endFrom?_crlf, endFrom?_dot (by simp [dot])]
    rfl

theorem Short.not_complete (h : Short start w) : ¬Complete start w := by
  rw [complete_iff_endFrom?]
  rintro ⟨p, hp, hlen⟩
  cases h with
  | crlfDotChar dot =>
    rw [endFrom?_crlf, endFrom?_dot (by simp [dot])] at hp
    cases hp
    simp at hlen
  | crlfDot =>
    rw [endFrom?_crlf, endFrom?_dot (by simp)] at hp
    cases hp
  | _ =>
    simp only [List.length_cons, List.length_nil] at hlen
    omega

/-- **The whole terminator is there** just when calls in the middle of the message lead up to it. -/
theorem complete_iff (eol : Text) : Complete start w ↔
    ∃ out start' left out' rest, Runs eol start w out start' left ∧
      Ends eol start' left out' rest := by
  constructor
  · intro h
    obtain ⟨out, start', left, hruns, ⟨out', rest, hends⟩ | hshort⟩ := exists_runs eol start w
    · exact ⟨out, start', left, out', rest, hruns, hends⟩
    · exact absurd (hruns.complete_iff.1 h) hshort.not_complete
  · rintro ⟨out, start', left, out', rest, hruns, hends⟩
    exact hruns.complete_iff.2 hends.complete

/-- If the terminator is not there, they lead up to a point where the text is too short. -/
theorem exists_runs_of_not_complete (eol : Text) (h : ¬Complete start w) :
    ∃ out start' left, Runs eol start w out start' left ∧ Short start' left := by
  obtain ⟨out, start', left, hruns, ⟨out', rest, hends⟩ | hshort⟩ := exists_runs eol start w
  · exact absurd ((complete_iff eol).2 ⟨_, _, _, _, _, hruns, hends⟩) h
  · exact ⟨out, start', left, hruns, hshort⟩

/-! ### The unfinished end -/

theorem exists_last {n : Nat} {u : Text} (hlen : w.length = n + 1) (htake : w.take n = u)
    (hdrop : w.drop n ≠ ['.']) : ∃ c, c ≠ '.' ∧ w = u ++ [c] := by
  have hlast : (w.drop n).length = 1 := by rw [List.length_drop]; omega
  obtain ⟨c, hc⟩ := List.length_eq_one_iff.1 hlast
  rw [hc] at hdrop
  refine ⟨c, fun h => hdrop (by rw [h]), ?_⟩
  rw [← htake, ← hc, List.take_append_drop]

theorem short_iff : Short start w ↔
    w = [] ∨
      start = true ∧ (w = ['.'] ∨ w.length = 2 ∧ w.take 1 = ['.'] ∧ w.drop 1 ≠ ['.']) ∨
        w = ['\r'] ∨ w = ['\r', '\n'] ∨ w = ['\r', '\n', '.'] ∨
          w.length = 4 ∧ w.take 3 = ['\r', '\n', '.'] ∧ w.drop 3 ≠ ['.'] := by
  constructor
  · intro h
    cases h with
    | nil => exact .inl rfl
    | dot => exact .inr (.inl ⟨rfl, .inl rfl⟩)
    | dotChar dot => exact .inr (.inl ⟨rfl, .inr ⟨rfl, rfl, by simpa using dot⟩⟩)
    | cr => exact .inr (.inr (.inl rfl))
    | crlf => exact .inr (.inr (.inr (.inl rfl)))
    | crlfDot => exact .inr (.inr (.inr (.inr (.inl rfl))))
    | crlfDotChar dot =>
      exact .inr (.inr (.inr (.inr (.inr ⟨rfl, rfl, by simpa using dot⟩))))
  · rintro (rfl | ⟨rfl, rfl | ⟨hlen, htake, hdrop⟩⟩ | rfl | rfl | rfl | ⟨hlen, htake, hdrop⟩)
    · exact .nil
    · exact .dot
    · obtain ⟨c, hc, rfl⟩ := exists_last hlen htake hdrop
      exact .dotChar hc
    · exact .cr
    · exact .crlf
    · exact .crlfDot
    · obtain ⟨c, hc, rfl⟩ := exists_last hlen htake hdrop
      exact .crlfDotChar hc

instance : Decidable (Short start w) := decidable_of_iff _ short_iff.symm

/-- Where the longest end begins that is too short for a call. Only the whole text can begin where
`start` tells of. -/
def unfinishedAt (start : Bool) (w : Text) : Nat :=
  ((List.range w.length).find? fun p => Short (start && p == 0) (w.drop p)).getD w.length

/-- The longest end of a text that is too short for a call. -/
def unfinished (start : Bool) (w : Text) : Text := w.drop (unfinishedAt start w)

/-- What comes before the unfinished end. -/
def settled (start : Bool) (w : Text) : Text := w.take (unfinishedAt start w)

/-- An end of a text that is too short for a call. Only all of the text may begin with the dot of a
first line. -/
def IsTail (w v : Text) : Prop := v <:+ w ∧ Short (v == w) v

theorem drop_beq_self {p : Nat} (hp : p < w.length) : (w.drop p == w) = (p == 0) := by
  rw [Bool.eq_iff_iff, beq_iff_eq, beq_iff_eq]
  constructor
  · intro h
    have hlen := congrArg List.length h
    rw [List.length_drop] at hlen
    omega
  · rintro rfl
    exact List.drop_zero

theorem isTail_unfinished (w : Text) : IsTail w (unfinished true w) := by
  refine ⟨List.drop_suffix _ _, ?_⟩
  unfold unfinished unfinishedAt
  cases h : (List.range w.length).find? fun p => Short (true && p == 0) (w.drop p) with
  | none =>
    rw [Option.getD_none, List.drop_length]
    exact .nil
  | some p =>
    obtain ⟨hshort, hp, -⟩ := List.find?_range_eq_some.1 h
    rw [Option.getD_some, drop_beq_self (List.mem_range.1 hp)]
    exact of_decide_eq_true hshort

theorem IsTail.length_le {v : Text} (h : IsTail w v) :
    v.length ≤ (unfinished true w).length := by
  obtain ⟨⟨u, rfl⟩, hshort⟩ := h
  rcases List.eq_nil_or_concat v with rfl | ⟨y, c, hv⟩
  · exact Nat.zero_le _
  · have hlt : u.length < (u ++ v).length := by simp [hv]
    have hdrop : (u ++ v).drop u.length = v := List.drop_left
    have hat : decide (Short (true && u.length == 0) ((u ++ v).drop u.length)) = true := by
      rw [Bool.true_and, ← drop_beq_self hlt, hdrop]
      exact decide_eq_true hshort
    have hle : unfinishedAt true (u ++ v) ≤ u.length := by
      unfold unfinishedAt
      cases hfirst : (List.range (u ++ v).length).find? fun p =>
          Short (true && p == 0) ((u ++ v).drop p) with
      | none => exact absurd hat (List.find?_eq_none.1 hfirst _ (List.mem_range.2 hlt))
      | some q =>
        obtain ⟨-, -, hbefore⟩ := List.find?_range_eq_some.1 hfirst
        refine Nat.le_of_not_lt fun hlt' => ?_
        have hnot := hbefore _ hlt'
        rw [hat] at hnot
        cases hnot
    rw [unfinished, List.length_drop, List.length_append]
    omega

theorem Short.unfinishedAt_eq (h : Short start w) : unfinishedAt start w = 0 := by
  cases w with
  | nil => rfl
  | cons c t => simp [unfinishedAt, find?_range_succ, h]

/-- If a text is more than enough for a call, its unfinished end is that of what comes after its
first character. -/
theorem unfinishedAt_cons {c : Char} {t : Text} (h : ¬Short start (c :: t)) :
    unfinishedAt start (c :: t) = unfinishedAt false t + 1 := by
  simp only [unfinishedAt, List.length_cons, find?_range_succ, List.drop_zero, beq_self_eq_true,
    Bool.and_true, h, decide_false, Bool.false_eq_true, if_false, List.drop_succ_cons,
    Bool.false_and]
  -- no end but the whole text begins where `start` tells of
  have hzero : ∀ p, (start && (p + 1 == 0)) = false := by simp
  simp only [hzero]
  cases (List.range t.length).find? fun p => decide (Short false (t.drop p)) <;> rfl

theorem not_short_of_ne {c : Char} {t : Text} (h : c ≠ '\r') : ¬Short false (c :: t) := by
  intro hs
  cases hs <;> exact absurd rfl h

theorem Takes.not_short (h : Takes eol start w out rest) : ¬Short start w := by
  intro hs
  cases h with
  | plain cr dot => cases hs <;> simp_all
  | firstDots =>
    cases hs with
    | dotChar dot => exact absurd rfl dot
  | loneCR lf => cases hs <;> simp_all
  | newline dot => cases hs <;> simp_all
  | stuffed =>
    cases hs with
    | crlfDotChar dot => exact absurd rfl dot

/-- A call in the middle of the message takes something in front of the unfinished end. Any part of
what it leaves is decoded after what it hands out. -/
theorem Takes.exists_front (h : Takes eol start w out rest) :
    ∃ u, w = u ++ rest ∧ unfinishedAt start w = unfinishedAt false rest + u.length ∧
      ∀ m, m <+: rest → decodeFrom eol start (u ++ m) = out ++ decodeFrom eol false m := by
  have hshort := h.not_short
  cases h with
  | plain cr dot =>
    exact ⟨[_], rfl, unfinishedAt_cons hshort, fun m _ => (plain cr dot).decodeFrom_eq⟩
  | firstDots =>
    refine ⟨['.', '.'], rfl, ?_, fun m _ => firstDots.decodeFrom_eq⟩
    rw [unfinishedAt_cons hshort, unfinishedAt_cons (not_short_of_ne (by decide))]
    rfl
  | loneCR lf =>
    refine ⟨['\r'], rfl, unfinishedAt_cons hshort, fun m hm => ?_⟩
    -- the CR stands alone, also at the end of the text
    cases m with
    | nil => simp [decodeFrom]
    | cons d m =>
      obtain ⟨rfl, -⟩ := List.cons_prefix_cons.1 hm
      exact (loneCR lf).decodeFrom_eq
  | newline dot =>
    refine ⟨['\r', '\n'], rfl, ?_, fun m hm => ?_⟩
    · rw [unfinishedAt_cons hshort, unfinishedAt_cons (not_short_of_ne (by decide))]
      rfl
    · cases m with
      | nil => simp [decodeFrom]
      | cons d m =>
        obtain ⟨rfl, -⟩ := List.cons_prefix_cons.1 hm
        exact (newline dot).decodeFrom_eq
  | stuffed =>
    refine ⟨['\r', '\n', '.', '.'], rfl, ?_, fun m _ => stuffed.decodeFrom_eq⟩
    rw [unfinishedAt_cons hshort, unfinishedAt_cons (not_short_of_ne (by decide)),
      unfinishedAt_cons (not_short_of_ne (by decide)),
      unfinishedAt_cons (not_short_of_ne (by decide))]
    rfl

theorem Takes.unfinished_eq (h : Takes eol start w out rest) :
    unfinished start w = unfinished false rest := by
  obtain ⟨u, rfl, hat, -⟩ := h.exists_front
  rw [unfinished, hat, Nat.add_comm, List.drop_append]
  simp [unfinished]

/-- **Calls in the middle of the message go on to the unfinished end.** -/
theorem Runs.eq_unfinished (h : Runs eol start w out start' left) (hshort : Short start' left) :
    left = unfinished start w := by
  induction h with
  | refl => simp [unfinished, hshort.unfinishedAt_eq]
  | step head _ ih => rw [head.unfinished_eq, ih hshort]

/-- **What they hand out is the decoding of what comes before it.** -/
theorem Runs.eq_decodeFrom_settled (h : Runs eol start w out start' left)
    (hshort : Short start' left) : out = decodeFrom eol start (settled start w) := by
  induction h with
  | refl => simp [settled, hshort.unfinishedAt_eq, decodeFrom]
  | @step start _ w _ rest _ _ head _ ih =>
    obtain ⟨u, rfl, hat, hfront⟩ := head.exists_front
    have hsettled : settled start (u ++ rest) = u ++ settled false rest := by
      rw [settled, hat, Nat.add_comm, List.take_length_add_append]
      rfl
    rw [hsettled, hfront (settled false rest) (List.take_prefix _ _), ih hshort]

theorem Runs.eq_false (h : Runs eol start w out start' left) (hstart : start = false) :
    start' = false := by
  induction h with
  | refl => exact hstart
  | step _ _ ih => exact ih rfl

theorem Runs.start_eq (h : Runs eol start w out start' left) :
    (start' && left.isEmpty) = (start && w.isEmpty) := by
  cases h with
  | refl => rfl
  | step head tail =>
    have hne : w ≠ [] := by
      rintro rfl
      exact Nat.not_lt_zero _ head.length_lt
    rw [tail.eq_false rfl, List.isEmpty_eq_false_iff.2 hne, Bool.and_false, Bool.false_and]

/-! ### A text that comes in stretches -/

/-- What is handed out of a text that comes in stretches. Wherever the text stops short, the
unfinished end is lost. -/
def decodeStalled (eol : Text) : Bool → List Text → Text
  | _, [] => []
  | start, [w] => decodeFrom eol start w
  | start, w :: w' :: ws =>
    if Complete start w then decodeFrom eol start w
    else decodeFrom eol start (settled start w) ++ decodeStalled eol (start && w.isEmpty) (w' :: ws)

/-- What then comes after the message. -/
def restStalled : Bool → List Text → List Text
  | _, [] => []
  | start, [w] => [restFrom start w]
  | start, w :: w' :: ws =>
    if Complete start w then restFrom start w :: w' :: ws
    else restStalled (start && w.isEmpty) (w' :: ws)

/-- No stretch of the message leaves an unfinished end, but for the last. -/
def CleanStalls : Bool → List Text → Prop
  | _, [] => True
  | _, [_] => True
  | start, w :: w' :: ws =>
    Complete start w ∨ unfinished start w = [] ∧ CleanStalls (start && w.isEmpty) (w' :: ws)

theorem Ends.append (h : Ends eol start w out rest) (x : Text) :
    Ends eol start (w ++ x) out (rest ++ x) := by
  cases h with
  | atOnce dot => exact .atOnce dot
  | afterLine dot => exact .afterLine dot

/-- **Where no stretch leaves an unfinished end, it does not matter that the text came in
stretches.** -/
theorem decodeStalled_of_clean (eol : Text) {ws : List Text} (h : CleanStalls start ws) :
    decodeStalled eol start ws = decodeFrom eol start ws.flatten ∧
      (restStalled start ws).flatten = restFrom start ws.flatten := by
  induction ws generalizing start with
  | nil => simp [decodeStalled, restStalled, decodeFrom, restFrom]
  | cons w ws ih =>
    cases ws with
    | nil => simp [decodeStalled, restStalled]
    | cons w' ws =>
      have hflatten : (w :: w' :: ws).flatten = w ++ (w' :: ws).flatten := List.flatten_cons
      by_cases hw : Complete start w
      · obtain ⟨out, start', left, out', rest, hruns, hends⟩ := (complete_iff eol).1 hw
        have hall := hruns.append (w' :: ws).flatten
        have hlast := hends.append (w' :: ws).flatten
        simp only [decodeStalled, restStalled, hw, if_true, hflatten]
        rw [hall.decodeFrom_eq, hlast.decodeFrom_eq, hall.restFrom_eq, hlast.restFrom_eq,
          hruns.decodeFrom_eq, hends.decodeFrom_eq, hruns.restFrom_eq, hends.restFrom_eq]
        exact ⟨rfl, List.flatten_cons⟩
      · obtain ⟨hnil, hclean⟩ := h.resolve_left hw
        obtain ⟨out, start', left, hruns, hshort⟩ := exists_runs_of_not_complete eol hw
        -- nothing is left: calls on the whole text come to the beginning of the next stretch
        obtain rfl : left = [] := (hruns.eq_unfinished hshort).trans hnil
        have hall := hruns.append (w' :: ws).flatten
        have hstart := hruns.start_eq
        simp only [List.isEmpty_nil, Bool.and_true] at hstart
        simp only [decodeStalled, restStalled, hw, if_false, hflatten]
        rw [hall.decodeFrom_eq, hall.restFrom_eq, List.nil_append, hstart,
          ← hruns.eq_decodeFrom_settled hshort]
        obtain ⟨hdecode, hrest⟩ := ih hclean
        exact ⟨by rw [hdecode], hrest⟩

end Wire

end DotFraming
