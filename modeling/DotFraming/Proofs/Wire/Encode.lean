import DotFraming.Proofs.Wire.Call

/-!
# The wire format read back

* `Wire.decodeFrom_encode`, `Wire.restFrom_encode` : **what a sender writes means the lines that
  were sent**, and what comes behind it is left over. The lines may be any texts without a CR LF in
  them: a CR or an LF alone and dots anywhere are kept.
* `Wire.exists_ends_encode` : a message as it is sent has the whole terminator in it.
-/

namespace DotFraming

namespace Wire

variable {eol l v : Text} {c : Char}

/-- No line ending begins within a line, also where the line ends with a CR. -/
theorem not_crlf_head (h : ¬crlf <:+: c :: l) :
    ¬(c = '\r' ∧ (l ++ (crlf ++ v)).head? = some '\n') := by
  rintro ⟨rfl, hl⟩
  cases l with
  | nil => simp [crlf] at hl
  | cons d l =>
    obtain rfl : d = '\n' := by simpa using hl
    exact h ⟨[], l, rfl⟩

theorem decodeFrom_line (h : ¬crlf <:+: l) :
    decodeFrom eol false (l ++ (crlf ++ v)) = l ++ (eol ++ decodeFrom eol true v) := by
  induction l with
  | nil => simp [crlf, decodeFrom]
  | cons c l ih =>
    rw [List.cons_append, decodeFrom_cons (by simp) (not_crlf_head h),
      ih fun hl => h (hl.trans (List.suffix_cons c l).isInfix)]
    rfl

theorem restFrom_line (h : ¬crlf <:+: l) :
    restFrom false (l ++ (crlf ++ v)) = restFrom true v := by
  induction l with
  | nil => simp [crlf, restFrom]
  | cons c l ih =>
    rw [List.cons_append, restFrom_cons (by simp) (not_crlf_head h),
      ih fun hl => h (hl.trans (List.suffix_cons c l).isInfix)]

theorem decodeFrom_stuff (h : ¬crlf <:+: l) :
    decodeFrom eol true (stuff l ++ (crlf ++ v)) = l ++ (eol ++ decodeFrom eol true v) := by
  cases l with
  | nil => simp [stuff, crlf, decodeFrom]
  | cons c l =>
    by_cases hc : c = '.'
    · subst hc
      have hl : ¬crlf <:+: l := fun hl => h (hl.trans (List.suffix_cons _ l).isInfix)
      simp [stuff, decodeFrom, decodeFrom_line hl]
    · have hstuff : stuff (c :: l) = c :: l := by simp [stuff, hc]
      rw [hstuff, List.cons_append, decodeFrom_of_ne hc, ← List.cons_append, decodeFrom_line h]

theorem restFrom_stuff (h : ¬crlf <:+: l) :
    restFrom true (stuff l ++ (crlf ++ v)) = restFrom true v := by
  cases l with
  | nil => simp [stuff, crlf, restFrom]
  | cons c l =>
    by_cases hc : c = '.'
    · subst hc
      have hl : ¬crlf <:+: l := fun hl => h (hl.trans (List.suffix_cons _ l).isInfix)
      simp [stuff, restFrom, restFrom_line hl]
    · have hstuff : stuff (c :: l) = c :: l := by simp [stuff, hc]
      rw [hstuff, List.cons_append, restFrom_of_ne hc, ← List.cons_append, restFrom_line h]

theorem encode_nil_append (v : Text) : encode [] ++ v = '.' :: (crlf ++ v) := rfl

theorem encode_cons_append (l : Text) (ls : List Text) (v : Text) :
    encode (l :: ls) ++ v = stuff l ++ (crlf ++ (encode ls ++ v)) := by
  simp [encode]

/-- **What a sender writes means the lines that were sent.** -/
theorem decodeFrom_encode {ls : List Text} (h : ∀ l ∈ ls, ¬crlf <:+: l) (v : Text) :
    decodeFrom eol true (encode ls ++ v) = ls.flatMap (· ++ eol) := by
  induction ls with
  | nil =>
    rw [encode_nil_append]
    exact decodeFrom_dot (by decide)
  | cons l ls ih =>
    rw [encode_cons_append, decodeFrom_stuff (h l (by simp)), ih fun x hx => h x (by simp [hx]),
      List.flatMap_cons, List.append_assoc]

/-- **What comes behind a message is left over.** -/
theorem restFrom_encode {ls : List Text} (h : ∀ l ∈ ls, ¬crlf <:+: l) (v : Text) :
    restFrom true (encode ls ++ v) = v := by
  induction ls with
  | nil => simp [encode_nil_append, restFrom, crlf]
  | cons l ls ih =>
    rw [encode_cons_append, restFrom_stuff (h l (by simp)), ih fun x hx => h x (by simp [hx])]

theorem exists_ends_encode {ls : List Text} (h : ∀ l ∈ ls, ¬crlf <:+: l) (eol v : Text) :
    ∃ out start left out' rest, Runs eol true (encode ls ++ v) out start left ∧
      Ends eol start left out' rest := by
  refine exists_ends (c := '.') ?_
  rw [List.append_assoc, restFrom_encode h]
  simp

end Wire

end DotFraming
