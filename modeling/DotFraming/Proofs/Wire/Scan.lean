import DotFraming.Wire

/-!
# Reading the wire from left to right

`Wire.decode` and `Wire.rest` look for the terminator first and cut the body into lines afterwards.
This file says the same in one pass over the text, with a flag that tells whether a line begins.

* `Wire.decodeFrom`, `Wire.restFrom` : the text of what is left of a message, and what comes after
  it.
* `Wire.decodeFrom_true`, `Wire.restFrom_true` : **at the start of a message they are `decode` and
  `rest`.**
* `Wire.suffix_decode` : **the text of a message with a terminator ends with a line ending.**

The proof follows the position of the terminator (`Wire.endFrom?`) through each of the steps of the
pass: two dots that begin a line, another dot there, a line ending, any other character.
-/

namespace DotFraming

namespace Wire

/-- The text that stands for what is left of a message; `start` tells whether a line begins. -/
def decodeFrom (eol : Text) : Bool → Text → Text
  | true, '.' :: '.' :: t => '.' :: decodeFrom eol false t
  | true, '.' :: _ => []
  | _, '\r' :: '\n' :: t => eol ++ decodeFrom eol true t
  | _, c :: t => c :: decodeFrom eol false t
  | _, [] => []

/-- What comes after what is left of a message; `start` tells whether a line begins. -/
def restFrom : Bool → Text → Text
  | true, '.' :: '.' :: t => restFrom false t
  | true, '.' :: t => t.drop 2
  | _, '\r' :: '\n' :: t => restFrom true t
  | _, _ :: t => restFrom false t
  | _, [] => []

theorem not_crlf_of_ne {c : Char} {t : Text} (h : ∀ u, c = '\r' → t = '\n' :: u → False) :
    ¬(c = '\r' ∧ t.head? = some '\n') := by
  rintro ⟨hc, ht⟩
  obtain ⟨u, hu⟩ := List.head?_eq_some_iff.1 ht
  exact h u hc hu

/-- A character that neither begins a line ending nor stands as a dot at the start of a line means
itself. -/
theorem decodeFrom_cons {eol : Text} {start : Bool} {c : Char} {t : Text}
    (hdot : ¬(start = true ∧ c = '.')) (hcr : ¬(c = '\r' ∧ t.head? = some '\n')) :
    decodeFrom eol start (c :: t) = c :: decodeFrom eol false t :=
  decodeFrom.eq_4 eol start c t (fun _ hc ht => hcr ⟨hc, by rw [ht]; rfl⟩)
    (fun _ hs hc _ => hdot ⟨hs, hc⟩) fun hs hc => hdot ⟨hs, hc⟩

theorem restFrom_cons {start : Bool} {c : Char} {t : Text}
    (hdot : ¬(start = true ∧ c = '.')) (hcr : ¬(c = '\r' ∧ t.head? = some '\n')) :
    restFrom start (c :: t) = restFrom false t :=
  restFrom.eq_4 start c t (fun _ hc ht => hcr ⟨hc, by rw [ht]; rfl⟩)
    (fun _ hs hc _ => hdot ⟨hs, hc⟩) fun hs hc => hdot ⟨hs, hc⟩

/-! ### Where a message ends -/

/-- What is left of a message ends with the line that begins at position `p`. Position `0` begins a
line if `start` is set. -/
def EndsAt (start : Bool) (w : Text) (p : Nat) : Prop :=
  (p = 0 ∧ start = true ∨ crlf <:+ w.take p) ∧
    w[p]? = some '.' ∧ w[p + 1]? ≠ none ∧ w[p + 1]? ≠ some '.'

instance (start : Bool) (w : Text) (p : Nat) : Decidable (EndsAt start w p) := by
  unfold EndsAt
  infer_instance

/-- The first position at which what is left of a message ends. -/
def endFrom? (start : Bool) (w : Text) : Option Nat :=
  (List.range w.length).find? fun p => EndsAt start w p

theorem endFrom?_true (w : Text) : endFrom? true w = terminator? w := by
  simp [endFrom?, terminator?, EndsAt, IsTerminator]

/-- A position is the first of its kind, or it is found one place further on. -/
theorem find?_range_succ (P : Nat → Bool) (n : Nat) :
    (List.range (n + 1)).find? P =
      if P 0 then some 0 else ((List.range n).find? fun p => P (p + 1)).map (· + 1) := by
  rw [List.range_succ_eq_map, List.find?_cons, List.find?_map]
  cases P 0 <;> rfl

theorem crlf_suffix_cons {c : Char} {t : Text} :
    crlf <:+ c :: t ↔ (c = '\r' ∧ t = ['\n']) ∨ crlf <:+ t := by
  rw [List.suffix_cons_iff, crlf, List.cons.injEq, eq_comm, eq_comm (a := ['\n'])]

/-- A character that neither begins a line ending nor stands as a dot at the start of a line moves
the end of the message by one. -/
theorem endFrom?_cons {start : Bool} {c : Char} {t : Text}
    (hdot : ¬(start = true ∧ c = '.')) (hcr : ¬(c = '\r' ∧ t.head? = some '\n')) :
    endFrom? start (c :: t) = (endFrom? false t).map (· + 1) := by
  have hzero : ¬EndsAt start (c :: t) 0 := by
    rintro ⟨h | h, hc, -⟩
    · exact hdot ⟨h.2, by simpa using hc⟩
    · simp [crlf] at h
  have hsucc : ∀ p, EndsAt start (c :: t) (p + 1) ↔ EndsAt false t p := by
    intro p
    have hline : ¬(c = '\r' ∧ t.take p = ['\n']) := by
      rintro ⟨hc, ht⟩
      exact hcr ⟨hc, by
        rw [← List.take_append_drop p t, ht]
        rfl⟩
    simp [EndsAt, crlf_suffix_cons, hline]
  simp [endFrom?, find?_range_succ, hzero, hsucc]

theorem endFrom?_crlf (start : Bool) (t : Text) :
    endFrom? start ('\r' :: '\n' :: t) = (endFrom? true t).map (· + 2) := by
  have hzero : ¬EndsAt start ('\r' :: '\n' :: t) 0 := by simp [EndsAt]
  have hone : ¬EndsAt start ('\r' :: '\n' :: t) 1 := by simp [EndsAt]
  -- a line begins at position `0` of `t`, and the line ending in front says so
  have hsucc : ∀ p, EndsAt start ('\r' :: '\n' :: t) (p + 2) ↔ EndsAt true t p := by
    intro p
    cases t with
    | nil => simp [EndsAt]
    | cons c t => simp [EndsAt, crlf_suffix_cons]
  simp only [endFrom?, List.length_cons, find?_range_succ, hzero, hone, hsucc, decide_false,
    Bool.false_eq_true, ↓reduceIte, Nat.zero_add, Option.map_map]
  rfl

theorem endFrom?_dot_dot (t : Text) :
    endFrom? true ('.' :: '.' :: t) = (endFrom? false t).map (· + 2) := by
  have hzero : ¬EndsAt true ('.' :: '.' :: t) 0 := by simp [EndsAt]
  have hsucc : ∀ p, EndsAt true ('.' :: '.' :: t) (p + 1) ↔ EndsAt false ('.' :: t) p := by
    intro p
    simp [EndsAt, crlf_suffix_cons]
  have hlift : endFrom? true ('.' :: '.' :: t) = (endFrom? false ('.' :: t)).map (· + 1) := by
    simp [endFrom?, find?_range_succ, hzero, hsucc]
  rw [hlift, endFrom?_cons (by simp) (by simp), Option.map_map]
  rfl

theorem endFrom?_dot {t : Text} (h : ∀ u, t ≠ '.' :: u) :
    endFrom? true ('.' :: t) = if t = [] then none else some 0 := by
  cases t with
  | nil => rfl
  | cons c u =>
    have hc : c ≠ '.' := fun he => h u (by rw [he])
    have hzero : EndsAt true ('.' :: c :: u) 0 := by simp [EndsAt, hc]
    simp [endFrom?, find?_range_succ, hzero]

theorem endFrom?_dotChar {c : Char} (h : c ≠ '.') : endFrom? true ['.', c] = some 0 := by
  rw [endFrom?_dot (by simp [h]), if_neg (by simp)]

theorem endFrom?_cr (start : Bool) : endFrom? start ['\r'] = none := by
  rw [endFrom?_cons (by simp) (by simp)]
  rfl

/-! ### What comes after the message -/

theorem restFrom_eq (start : Bool) (w : Text) :
    restFrom start w =
      match endFrom? start w with
      | some p => w.drop (p + 3)
      | none => [] := by
  fun_induction restFrom start w with
  | case1 t ih =>
    rw [ih, endFrom?_dot_dot]
    cases endFrom? false t <;> simp
  | case2 t h =>
    rw [endFrom?_dot h]
    cases t <;> simp
  | case3 start t ih =>
    rw [ih, endFrom?_crlf]
    cases endFrom? true t <;> simp
  | case4 start c t h₁ h₂ h₃ ih =>
    have hdot : ¬(start = true ∧ c = '.') := fun ⟨hs, hc⟩ => h₂ hs hc
    have hcr : ¬(c = '\r' ∧ t.head? = some '\n') := not_crlf_of_ne h₃
    rw [ih, endFrom?_cons hdot hcr]
    cases endFrom? false t <;> simp
  | case5 => rfl

/-- **At the start of a message, what comes after it is `rest`.** -/
theorem restFrom_true (w : Text) : restFrom true w = rest w := by
  rw [restFrom_eq, endFrom?_true]
  rfl

/-! ### The text of the message -/

/-- What belongs to what is left of a message, without the terminator. -/
def bodyFrom (start : Bool) (w : Text) : Text :=
  match endFrom? start w with
  | some p => w.take p
  | none => w

/-- Lines with `eol` between them; dots are taken away from all lines but the first, and from the
first if `start` is set. -/
def joinFrom (eol : Text) (start : Bool) : List Text → Text
  | [] => []
  | l :: ls => eol.intercalate ((if start then unstuff l else l) :: ls.map unstuff)

theorem joinFrom_true (eol : Text) (ls : List Text) :
    joinFrom eol true ls = eol.intercalate (ls.map unstuff) := by
  cases ls <;> simp [joinFrom]

theorem splitLines_cons {c : Char} {t l : Text} {ls : List Text} (h : splitLines t = l :: ls)
    (hcr : ¬(c = '\r' ∧ t.head? = some '\n')) : splitLines (c :: t) = (c :: l) :: ls := by
  rw [splitLines.eq_3]
  · rw [h]
  · rintro u rfl rfl
    exact hcr ⟨rfl, rfl⟩

theorem joinFrom_cons (eol : Text) {start : Bool} {c : Char} {t : Text}
    (hdot : ¬(start = true ∧ c = '.')) (hcr : ¬(c = '\r' ∧ t.head? = some '\n')) :
    joinFrom eol start (splitLines (c :: t)) = c :: joinFrom eol false (splitLines t) := by
  obtain ⟨l, ls, h⟩ := List.exists_cons_of_ne_nil (splitLines_ne_nil t)
  have hfirst : (if start = true then unstuff (c :: l) else c :: l) = c :: l := by
    split
    · next hs => exact unstuff.eq_2 _ fun u he => hdot ⟨hs, (List.cons.inj he).1⟩
    · rfl
  rw [splitLines_cons h hcr, h]
  cases ls <;> simp [joinFrom, hfirst]

theorem joinFrom_crlf (eol : Text) (start : Bool) (t : Text) :
    joinFrom eol start (splitLines ('\r' :: '\n' :: t)) =
      eol ++ joinFrom eol true (splitLines t) := by
  obtain ⟨l, ls, h⟩ := List.exists_cons_of_ne_nil (splitLines_ne_nil t)
  have hfirst : (if start = true then unstuff [] else []) = [] := by cases start <;> rfl
  rw [splitLines.eq_2, h]
  simp [joinFrom, hfirst, List.intercalate_cons_cons]

theorem joinFrom_dot (eol t : Text) :
    joinFrom eol true (splitLines ('.' :: t)) = joinFrom eol false (splitLines t) := by
  obtain ⟨l, ls, h⟩ := List.exists_cons_of_ne_nil (splitLines_ne_nil t)
  rw [splitLines_cons h (by simp), h]
  rfl

theorem decodeFrom_eq (eol : Text) (start : Bool) (w : Text) :
    decodeFrom eol start w = joinFrom eol start (splitLines (bodyFrom start w)) := by
  fun_induction decodeFrom eol start w with
  | case1 t ih =>
    have hbody : bodyFrom true ('.' :: '.' :: t) = '.' :: '.' :: bodyFrom false t := by
      unfold bodyFrom
      rw [endFrom?_dot_dot]
      cases endFrom? false t <;> simp
    rw [hbody, joinFrom_dot, joinFrom_cons eol (by simp) (by simp), ih]
  | case2 t h =>
    cases t <;> simp [bodyFrom, endFrom?_dot h, splitLines, joinFrom, unstuff]
  | case3 start t ih =>
    have hbody : bodyFrom start ('\r' :: '\n' :: t) = '\r' :: '\n' :: bodyFrom true t := by
      unfold bodyFrom
      rw [endFrom?_crlf]
      cases endFrom? true t <;> simp
    rw [hbody, joinFrom_crlf, ih]
  | case4 start c t h₁ h₂ h₃ ih =>
    have hdot : ¬(start = true ∧ c = '.') := fun ⟨hs, hc⟩ => h₂ hs hc
    have hcr : ¬(c = '\r' ∧ t.head? = some '\n') := not_crlf_of_ne h₃
    have hbody : bodyFrom start (c :: t) = c :: bodyFrom false t := by
      unfold bodyFrom
      rw [endFrom?_cons hdot hcr]
      cases endFrom? false t <;> simp
    -- a cut behind `c` takes line endings away and makes none
    have hcr' : ¬(c = '\r' ∧ (bodyFrom false t).head? = some '\n') := by
      rintro ⟨hc, hn⟩
      refine hcr ⟨hc, ?_⟩
      unfold bodyFrom at hn
      split at hn
      · rw [List.head?_take] at hn
        split at hn
        · cases hn
        · exact hn
      · exact hn
    rw [hbody, joinFrom_cons eol hdot hcr', ih]
  | case5 start =>
    cases start <;> simp [bodyFrom, endFrom?, splitLines, joinFrom, unstuff]

/-- **At the start of a message, its text is `decode`.** -/
theorem decodeFrom_true (eol w : Text) : decodeFrom eol true w = decode eol w := by
  have hbody : bodyFrom true w = body w := by
    unfold bodyFrom
    rw [endFrom?_true]
    rfl
  rw [decodeFrom_eq, joinFrom_true, hbody, decode]

/-! ### How the text of a message ends -/

variable {eol w : Text} {start : Bool} {p : Nat}

/-- If there is a terminator, the text in front of it ends with a line ending, unless the line of
the terminator is the only one. -/
theorem suffix_decodeFrom (h : endFrom? start w = some p) :
    start = true ∧ decodeFrom eol start w = [] ∨ eol <:+ decodeFrom eol start w := by
  have hcons (c : Char) (t : Text) (ht : eol <:+ t) : eol <:+ c :: t :=
    ht.trans (List.suffix_cons c t)
  fun_induction decodeFrom eol start w generalizing p with
  | case1 t ih =>
    rw [endFrom?_dot_dot] at h
    obtain ⟨q, hq, -⟩ := Option.map_eq_some_iff.1 h
    exact .inr (hcons _ _ ((ih hq).resolve_left nofun))
  | case2 => exact .inl ⟨rfl, rfl⟩
  | case3 start t ih =>
    rw [endFrom?_crlf] at h
    obtain ⟨q, hq, -⟩ := Option.map_eq_some_iff.1 h
    rcases ih hq with ⟨-, hnil⟩ | hend
    · rw [hnil, List.append_nil]
      exact .inr (List.suffix_refl eol)
    · exact .inr (hend.trans (List.suffix_append eol _))
  | case4 start c t h₁ h₂ h₃ ih =>
    rw [endFrom?_cons (fun ⟨hs, hc⟩ => h₂ hs hc) (not_crlf_of_ne h₃)] at h
    obtain ⟨q, hq, -⟩ := Option.map_eq_some_iff.1 h
    exact .inr (hcons _ _ ((ih hq).resolve_left nofun))
  | case5 => cases h

/-- **The text of a message with a terminator ends with a line ending**, unless it is empty. -/
theorem suffix_decode (h : terminator? w ≠ none) (hne : decode eol w ≠ []) :
    eol <:+ decode eol w := by
  obtain ⟨p, hp⟩ := Option.ne_none_iff_exists'.1 h
  rw [← endFrom?_true] at hp
  rw [← decodeFrom_true] at hne ⊢
  exact (suffix_decodeFrom hp).resolve_left fun hnil => hne hnil.2

end Wire

end DotFraming
