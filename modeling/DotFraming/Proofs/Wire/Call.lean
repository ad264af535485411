import DotFraming.Proofs.Wire.Scan

/-!
# What one call takes from the wire

A reader looks ahead: the next piece of the decoded text may take up to five characters of the wire.
What it takes depends on the text alone, and on whether a line begins. Any text is of one of three
kinds (`Wire.call_cases`):

* `Wire.Takes` : it has the next piece of the decoded text in front, and the message goes on;
* `Wire.Ends` : it has what ends the message in front;
* `Wire.Short` : it is too short to tell.

Each kind is related to `decodeFrom` and `restFrom`, so that what a run of calls hands out can be
read off the text.
-/

namespace DotFraming

namespace Wire

/-- The text `w` is enough for a call in the middle of the message: `out` is handed out for what
stands in front, and `rest` is left. -/
inductive Takes (eol : Text) : (start : Bool) → (w out rest : Text) → Prop where
  /-- A character that means nothing but itself. -/
  | plain {start : Bool} {c : Char} {t : Text} (cr : c ≠ '\r') (dot : ¬(start = true ∧ c = '.')) :
      Takes eol start (c :: t) [c] t
  /-- A line that begins with a dot. -/
  | firstDots {t : Text} : Takes eol true ('.' :: '.' :: t) ['.'] t
  /-- A CR that belongs to the line. -/
  | loneCR {start : Bool} {c : Char} {t : Text} (lf : c ≠ '\n') :
      Takes eol start ('\r' :: c :: t) ['\r'] (c :: t)
  /-- A line ending. -/
  | newline {start : Bool} {c : Char} {t : Text} (dot : c ≠ '.') :
      Takes eol start ('\r' :: '\n' :: c :: t) eol (c :: t)
  /-- A line ending before a line that begins with a dot. -/
  | stuffed {start : Bool} {t : Text} :
      Takes eol start ('\r' :: '\n' :: '.' :: '.' :: t) (eol ++ ['.']) t

/-- The text `w` has the end of the message in front: `out` is handed out for what comes before the
terminator, and `rest` is left after it. -/
inductive Ends (eol : Text) : (start : Bool) → (w out rest : Text) → Prop where
  /-- The terminator is the first line. -/
  | atOnce {c d : Char} {t : Text} (dot : c ≠ '.') : Ends eol true ('.' :: c :: d :: t) [] t
  /-- The terminator follows a line ending. -/
  | afterLine {start : Bool} {c d : Char} {t : Text} (dot : c ≠ '.') :
      Ends eol start ('\r' :: '\n' :: '.' :: c :: d :: t) eol t

/-- A call needs more text than `w` to tell what it means. -/
inductive Short : (start : Bool) → (w : Text) → Prop where
  /-- Nothing is there. -/
  | nil {start : Bool} : Short start []
  /-- A dot that may be the first of two, or that of the terminator. -/
  | dot : Short true ['.']
  /-- A terminator of which one character is missing. -/
  | dotChar {c : Char} (dot : c ≠ '.') : Short true ['.', c]
  /-- A CR that may begin a line ending. -/
  | cr {start : Bool} : Short start ['\r']
  /-- A line ending that a terminator may follow. -/
  | crlf {start : Bool} : Short start ['\r', '\n']
  /-- The same, and a dot that may be the first of two, or that of the terminator. -/
  | crlfDot {start : Bool} : Short start ['\r', '\n', '.']
  /-- The same, with a terminator of which one character is missing. -/
  | crlfDotChar {start : Bool} {c : Char} (dot : c ≠ '.') : Short start ['\r', '\n', '.', c]

/-- **A text is enough for one call, or it is too short.** -/
theorem call_cases (eol : Text) (start : Bool) (w : Text) :
    (∃ out rest, Takes eol start w out rest) ∨ (∃ out rest, Ends eol start w out rest) ∨
      Short start w := by
  match w with
  | [] => exact .inr (.inr .nil)
  | c :: t =>
    by_cases hdot : start = true ∧ c = '.'
    · obtain ⟨rfl, rfl⟩ := hdot
      match t with
      | [] => exact .inr (.inr .dot)
      | d :: u =>
        by_cases hd : d = '.'
        · subst hd
          exact .inl ⟨_, _, .firstDots⟩
        · match u with
          | [] => exact .inr (.inr (.dotChar hd))
          | _ :: _ => exact .inr (.inl ⟨_, _, .atOnce hd⟩)
    · by_cases hcr : c = '\r'
      · subst hcr
        match t with
        | [] => exact .inr (.inr .cr)
        | d :: u =>
          by_cases hlf : d = '\n'
          · subst hlf
            match u with
            | [] => exact .inr (.inr .crlf)
            | e :: v =>
              by_cases he : e = '.'
              · subst he
                match v with
                | [] => exact .inr (.inr .crlfDot)
                | f :: v =>
                  by_cases hf : f = '.'
                  · subst hf
                    exact .inl ⟨_, _, .stuffed⟩
                  · match v with
                    | [] => exact .inr (.inr (.crlfDotChar hf))
                    | _ :: _ => exact .inr (.inl ⟨_, _, .afterLine hf⟩)
              · exact .inl ⟨_, _, .newline he⟩
          · exact .inl ⟨_, _, .loneCR hlf⟩
      · exact .inl ⟨_, _, .plain hcr hdot⟩

/-! ### The steps of the pass over the text -/

variable {eol : Text} {start : Bool} {w out rest : Text}

/-- Only a dot tells the start of a line from its middle. -/
theorem decodeFrom_of_ne {c : Char} {t : Text} (h : c ≠ '.') :
    decodeFrom eol true (c :: t) = decodeFrom eol false (c :: t) := by
  by_cases hcr : c = '\r' ∧ t.head? = some '\n'
  · obtain ⟨rfl, ht⟩ := hcr
    obtain ⟨u, rfl⟩ := List.head?_eq_some_iff.1 ht
    rw [decodeFrom.eq_3, decodeFrom.eq_3]
  · rw [decodeFrom_cons (by simp [h]) hcr, decodeFrom_cons (by simp) hcr]

theorem restFrom_of_ne {c : Char} {t : Text} (h : c ≠ '.') :
    restFrom true (c :: t) = restFrom false (c :: t) := by
  by_cases hcr : c = '\r' ∧ t.head? = some '\n'
  · obtain ⟨rfl, ht⟩ := hcr
    obtain ⟨u, rfl⟩ := List.head?_eq_some_iff.1 ht
    rw [restFrom.eq_3, restFrom.eq_3]
  · rw [restFrom_cons (by simp [h]) hcr, restFrom_cons (by simp) hcr]

theorem decodeFrom_dot {c : Char} {t : Text} (h : c ≠ '.') :
    decodeFrom eol true ('.' :: c :: t) = [] := by
  simp [decodeFrom, h]

theorem decodeFrom_cr : decodeFrom eol start ['\r'] = ['\r'] := by
  simp [decodeFrom]

theorem Takes.decodeFrom_eq (h : Takes eol start w out rest) :
    decodeFrom eol start w = out ++ decodeFrom eol false rest := by
  cases h with
  | plain cr dot => exact decodeFrom_cons dot (by simp [cr])
  | firstDots => simp [decodeFrom]
  | loneCR lf => exact decodeFrom_cons (by simp) (by simp [lf])
  | newline dot => rw [decodeFrom.eq_3, decodeFrom_of_ne dot]
  | stuffed => simp [decodeFrom]

theorem Takes.restFrom_eq (h : Takes eol start w out rest) :
    restFrom start w = restFrom false rest := by
  cases h with
  | plain cr dot => exact restFrom_cons dot (by simp [cr])
  | firstDots => simp [restFrom]
  | loneCR lf => exact restFrom_cons (by simp) (by simp [lf])
  | newline dot => rw [restFrom.eq_3, restFrom_of_ne dot]
  | stuffed => simp [restFrom]

theorem Takes.length_lt (h : Takes eol start w out rest) : rest.length < w.length := by
  cases h <;> simp only [List.length_cons] <;> omega

theorem Takes.out_ne_nil (h : Takes eol start w out rest) (heol : eol ≠ []) : out ≠ [] := by
  cases h <;> simp [heol]

theorem Ends.decodeFrom_eq (h : Ends eol start w out rest) : decodeFrom eol start w = out := by
  cases h with
  | atOnce dot => simp [decodeFrom, dot]
  | afterLine dot => simp [decodeFrom, dot]

theorem Ends.restFrom_eq (h : Ends eol start w out rest) : restFrom start w = rest := by
  cases h with
  | atOnce dot => simp [restFrom, dot]
  | afterLine dot => simp [restFrom, dot]

theorem Short.restFrom_eq (h : Short start w) : restFrom start w = [] := by
  cases h <;> simp_all [restFrom]

theorem Takes.append (h : Takes eol start w out rest) (x : Text) :
    Takes eol start (w ++ x) out (rest ++ x) := by
  cases h with
  | plain cr dot => exact .plain cr dot
  | firstDots => exact .firstDots
  | loneCR lf => exact .loneCR lf
  | newline dot => exact .newline dot
  | stuffed => exact .stuffed

/-- One character more is not enough to get past the end of the message. -/
theorem Short.restFrom_append (h : Short start w) (c : Char) : restFrom start (w ++ [c]) = [] := by
  cases h with
  | nil => by_cases hc : start = true ∧ c = '.' <;> cases start <;> simp_all [restFrom]
  | dot => by_cases hc : c = '.' <;> simp [restFrom, hc]
  | dotChar dot => simp [restFrom, dot]
  | cr => by_cases hc : c = '\n' <;> simp [restFrom, hc]
  | crlf => by_cases hc : c = '.' <;> simp [restFrom, hc]
  | crlfDot => by_cases hc : c = '.' <;> simp [restFrom, hc]
  | crlfDotChar dot => simp [restFrom, dot]

/-! ### One call after another -/

/-- Calls in the middle of the message, one after another: `out` is handed out for what stands in
front of `w`, and `left` is left. -/
inductive Runs (eol : Text) : (start : Bool) → (w out : Text) → (start' : Bool) → (left : Text) →
    Prop where
  /-- No call. -/
  | refl {start : Bool} {w : Text} : Runs eol start w [] start w
  /-- A call, and others after it. -/
  | step {start start' : Bool} {w out rest out' left : Text} (head : Takes eol start w out rest)
      (tail : Runs eol false rest out' start' left) : Runs eol start w (out ++ out') start' left

/-- **Calls go on to the end of the message or of the text.** -/
theorem exists_runs (eol : Text) (start : Bool) (w : Text) :
    ∃ out start' left, Runs eol start w out start' left ∧
      ((∃ out' rest, Ends eol start' left out' rest) ∨ Short start' left) := by
  -- a call takes up to four characters: induction on the length of the text
  induction hn : w.length using Nat.strongRecOn generalizing start w with
  | _ n ih =>
    rcases call_cases eol start w with ⟨out, rest, htakes⟩ | hends | hshort
    · obtain ⟨out', start', left, hruns, hlast⟩ :=
        ih rest.length (hn ▸ htakes.length_lt) false rest rfl
      exact ⟨_, start', left, .step htakes hruns, hlast⟩
    · exact ⟨[], start, w, .refl, .inl hends⟩
    · exact ⟨[], start, w, .refl, .inr hshort⟩

namespace Runs

variable {start' : Bool} {left : Text}

theorem decodeFrom_eq (h : Runs eol start w out start' left) :
    decodeFrom eol start w = out ++ decodeFrom eol start' left := by
  induction h with
  | refl => rfl
  | step head _ ih => rw [head.decodeFrom_eq, ih, List.append_assoc]

theorem restFrom_eq (h : Runs eol start w out start' left) :
    restFrom start w = restFrom start' left := by
  induction h with
  | refl => rfl
  | step head _ ih => rw [head.restFrom_eq, ih]

theorem append (h : Runs eol start w out start' left) (x : Text) :
    Runs eol start (w ++ x) out start' (left ++ x) := by
  induction h with
  | refl => exact .refl
  | step head _ ih => exact .step (head.append x) ih

end Runs

/-- **A text has the whole terminator in it** if what is put behind it is left over. -/
theorem exists_ends {c : Char} (h : restFrom start (w ++ [c]) ≠ []) :
    ∃ out start' left out' rest, Runs eol start w out start' left ∧
      Ends eol start' left out' rest := by
  obtain ⟨out, start', left, hruns, ⟨out', rest, hends⟩ | hshort⟩ := exists_runs eol start w
  · exact ⟨out, start', left, out', rest, hruns, hends⟩
  · rw [(hruns.append [c]).restFrom_eq, hshort.restFrom_append] at h
    exact absurd rfl h

end Wire

end DotFraming
