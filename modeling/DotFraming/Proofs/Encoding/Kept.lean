import DotFraming.Proofs.Encoding.Portions

/-!
# What a decoder keeps

A portion of bytes gives characters, and if it ends within one more, the beginning of that one is
kept. What was found is not changed by what comes behind it, so portions that can be decoded one
after the other can also be decoded at once.

* `Encoding.scan_append_of_char` : a character stays the same whatever comes behind it.
* `Encoding.decode_append_of_ok` : **portions one after the other are like one portion**, in the
  characters and in what is kept.
* `Encoding.exists_error_of_kept` : **what is kept is no character**: at the end it is an error.
* `Decoder.Gives.of_feed`, `Decoder.gives_of_final` : portions that can be decoded make up bytes
  that can be decoded.
-/

namespace DotFraming

/-! ### One character -/

namespace Utf8

theorem scanRest_append_of_char {point seen n : Nat} {c : Char} {ranges : List (Nat × Nat)}
    {rest : List UInt8} (h : scanRest point seen ranges rest = .char c n) :
    n ≤ seen + rest.length ∧ ∀ v, scanRest point seen ranges (rest ++ v) = .char c n := by
  induction ranges generalizing point seen rest with
  | nil =>
    cases h
    exact ⟨Nat.le_add_right .., fun _ => rfl⟩
  | cons range ranges ih =>
    cases rest with
    | nil => cases h
    | cons b rest =>
      simp only [scanRest] at h
      split at h
      · next hin =>
        obtain ⟨hle, hv⟩ := ih h
        refine ⟨by simp only [List.length_cons]; omega, fun v => ?_⟩
        simp only [List.cons_append, scanRest, if_pos hin, hv v]
      · cases h

/-- The beginning of a surrogate is no character, and no part of it in front is one. -/
theorem scan_ne_char_of_surrogate {b : UInt8} {rest v : List UInt8} {c : Char} {n : Nat}
    (h : isOpenSurrogate b (rest ++ v) = true) : scan b rest ≠ .char c n := by
  rcases rest with _ | ⟨b₁, rest⟩
  · -- the first byte alone
    obtain rfl : b = 0xED := by
      unfold isOpenSurrogate at h
      split at h
      · simp only [Bool.and_eq_true, beq_iff_eq] at h
        exact h.1.1
      · cases h
    exact nofun
  · obtain ⟨rfl, rfl⟩ : rest = [] ∧ v = [] := by
      unfold isOpenSurrogate at h
      split at h
      · next heq => exact List.append_eq_nil_iff.1 (List.cons.inj heq).2
      · cases h
    intro hscan
    unfold scan at hscan
    split at hscan
    · cases hscan
    · rw [List.append_nil] at h
      rw [if_pos h] at hscan
      cases hscan

theorem scan_append_of_char {b : UInt8} {rest : List UInt8} {c : Char} {n : Nat}
    (h : scan b rest = .char c n) : n ≤ rest.length ∧ ∀ v, scan b (rest ++ v) = .char c n := by
  have hopen (v : List UInt8) : isOpenSurrogate b (rest ++ v) = false :=
    Bool.eq_false_iff.2 fun hv => scan_ne_char_of_surrogate hv h
  have hrest := hopen []
  rw [List.append_nil] at hrest
  unfold scan at h ⊢
  cases hfollow : follow b.toNat with
  | none => simp [hfollow] at h
  | some ranges =>
    simp only [hfollow, hrest, Bool.false_eq_true, ↓reduceIte] at h
    obtain ⟨hle, hv⟩ := scanRest_append_of_char h
    exact ⟨by omega, fun v => by simp only [hopen v, Bool.false_eq_true, ↓reduceIte, hv v]⟩

end Utf8

namespace Utf16

theorem scan_append_of_char {bigEndian : Bool} {b : UInt8} {rest : List UInt8} {c : Char} {n : Nat}
    (h : scan bigEndian b rest = .char c n) :
    n ≤ rest.length ∧ ∀ v, scan bigEndian b (rest ++ v) = .char c n := by
  rcases rest with _ | ⟨b₁, rest⟩
  · cases h
  · simp only [List.cons_append, scan] at h ⊢
    split at h
    · next hhigh =>
      -- a pair takes two more bytes
      rcases rest with _ | ⟨b₂, _ | ⟨b₃, rest⟩⟩
      · cases h
      · cases h
      · simp only at h
        split at h
        · next hlow =>
          obtain ⟨-, rfl⟩ := Scan.char.inj h
          refine ⟨by simp only [List.length_cons]; omega, fun v => ?_⟩
          simp only [List.cons_append, if_pos hhigh, if_pos hlow, h]
        · cases h
    · next hhigh =>
      split at h
      · cases h
      · next hlow =>
        obtain ⟨-, rfl⟩ := Scan.char.inj h
        refine ⟨by simp only [List.length_cons]; omega, fun v => ?_⟩
        simp only [if_neg hhigh, if_neg hlow, h]

end Utf16

namespace Encoding

variable {e : Encoding} {b : UInt8} {rest u v kept left : List UInt8} {T T' : Text} {pos : Nat}
  {final : Bool}

/-- **A character stays the same whatever comes behind it.** -/
theorem scan_append_of_char {c : Char} {extra : Nat} (h : e.scan b rest = .char c extra) :
    extra ≤ rest.length ∧ ∀ v, e.scan b (rest ++ v) = .char c extra := by
  cases e with
  | latin1 =>
    obtain ⟨-, rfl⟩ := Scan.char.inj h
    exact ⟨Nat.zero_le _, fun _ => h⟩
  | ascii =>
    unfold scan at h
    simp only at h
    split at h
    · next hlt =>
      obtain ⟨-, rfl⟩ := Scan.char.inj h
      exact ⟨Nat.zero_le _, fun _ => (if_pos hlt).trans h⟩
    · cases h
  | utf8 => exact Utf8.scan_append_of_char h
  | utf16le => exact Utf16.scan_append_of_char h
  | utf16be => exact Utf16.scan_append_of_char h

/-! ### Portions -/

/-- **Portions one after the other are like one portion.** -/
theorem decode_append_of_ok (h : e.decode false pos u = .ok (T, left))
    (h' : e.decode final 0 (left ++ v) = .ok (T', kept)) :
    e.decode final pos (u ++ v) = .ok (T ++ T', kept) := by
  fun_induction decode e false pos u generalizing T left with
  | case1 pos =>
    cases h
    exact decode_pos h' pos
  | case2 pos b rest c extra hscan cs left' hd ih =>
    cases h
    obtain ⟨hle, hv⟩ := scan_append_of_char hscan
    have hrest := ih hd h'
    rw [← List.drop_append_of_le_length hle] at hrest
    exact decode_of_char (hv v) hrest
  | case3 => cases h
  | case4 => cases h
  | case5 => contradiction
  | case6 pos b rest extra reason hscan =>
    -- all of the portion is kept
    cases h
    exact decode_pos h' pos

/-- **What is kept is no character**: at the end it is an error. -/
theorem exists_error_of_kept (h : e.decode false pos u = .ok (T, kept)) (hne : kept ≠ []) :
    ∃ err, e.decode true 0 kept = .error err := by
  fun_induction decode e false pos u generalizing T kept with
  | case1 =>
    cases h
    exact absurd rfl hne
  | case2 pos b rest c extra hscan cs left' hd ih =>
    cases h
    exact ih hd hne
  | case3 => cases h
  | case4 => cases h
  | case5 => contradiction
  | case6 pos b rest extra reason hscan =>
    cases h
    exact ⟨_, by rw [decode, hscan]; rfl⟩

/-- What is kept gives no character before more comes. -/
theorem decode_kept (h : e.decode false pos u = .ok (T, kept)) :
    e.decode false 0 kept = .ok ([], kept) := by
  fun_induction decode e false pos u generalizing T kept with
  | case1 =>
    cases h
    rw [decode]
  | case2 pos b rest c extra hscan cs left' hd ih =>
    cases h
    exact ih hd
  | case3 => cases h
  | case4 => cases h
  | case5 => contradiction
  | case6 pos b rest extra reason hscan =>
    cases h
    rw [decode, hscan]
    rfl

theorem kept_of_decode_nil (h : e.decode false pos u = .ok ([], kept)) : kept = u := by
  cases u with
  | nil =>
    rw [decode] at h
    cases h
    rfl
  | cons b rest =>
    rw [decode] at h
    split at h
    · split at h <;> cases h
    · cases h
    · cases h
      rfl

end Encoding

/-! ### Decoders -/

namespace Decoder

variable {d d' : Decoder} {data bytes : List UInt8} {cs T : Text}

/-- **What the bytes behind a portion give, they give behind its characters.** -/
theorem Gives.of_feed (h : d.feed data false = .ok (cs, d')) (h' : d'.Gives bytes T) :
    d.Gives (data ++ bytes) (cs ++ T) := by
  unfold Decoder.feed at h
  split at h
  · next hdecode =>
    cases h
    unfold Gives
    rw [← List.append_assoc]
    exact Encoding.decode_append_of_ok hdecode h'
  · cases h

theorem gives_of_final (h : d.feed [] true = .ok (cs, d')) : d.Gives [] cs ∧ d'.Gives [] [] := by
  unfold feed at h
  split at h
  · next hdecode =>
    cases h
    obtain rfl := Encoding.kept_of_decode hdecode
    refine ⟨hdecode, ?_⟩
    rw [Gives, List.append_nil, Encoding.decode]
  · cases h

end Decoder

end DotFraming
