import DotFraming.Encoding.Decoder

/-!
# Bytes that come in portions

A portion of bytes may end in the middle of a character. What its bytes in front are called then is
either what they would be called with the next portion behind them, or they are only said to be the
beginning of a character. So it does not matter where bytes are cut into portions.

* `Encoding.scan_append` : **what is found in front of bytes** is found in a portion that has enough
  of them; a portion that has too little is the beginning of a character.
* `Encoding.decode_append` : a portion decodes to the text in front, and the bytes that are kept go
  with the next one.
* `Decoder.Gives` : the text that bytes will give in any portions.
* `Decoder.Gives.feed`, `Decoder.Gives.final` : **one portion** gives the text in front, and the end
  gives the rest.
-/

namespace DotFraming

/-- What `whole` says, `part` says with no more than `size` bytes, or it says that there are too
few. -/
def Scan.Agrees (whole part : Scan) (size : Nat) : Prop :=
  ∀ c extra, whole = .char c extra →
    (part = .char c extra ∧ extra ≤ size) ∨ ∃ n reason, part = .incomplete n reason

/-! ### One character -/

namespace Utf8

variable {b : UInt8} {rest : List UInt8}

theorem scanRest_append (point seen : Nat) (ranges : List (Nat × Nat)) (rest v : List UInt8) :
    (scanRest point seen ranges (rest ++ v)).Agrees (scanRest point seen ranges rest)
      (seen + rest.length) := by
  induction ranges generalizing point seen rest with
  | nil =>
    intro c extra h
    cases h
    exact .inl ⟨rfl, Nat.le_add_right ..⟩
  | cons range ranges ih =>
    cases rest with
    | nil => exact fun _ _ _ => .inr ⟨_, _, rfl⟩
    | cons b rest =>
      simp only [List.cons_append, scanRest]
      split
      · have hrest := ih (point * 64 + (b.toNat - 0x80)) (seen + 1) rest
        rwa [Nat.add_right_comm, Nat.add_assoc] at hrest
      · exact fun _ _ h => by cases h

theorem scan_append (b : UInt8) (rest v : List UInt8) :
    (scan b (rest ++ v)).Agrees (scan b rest) rest.length := by
  intro c extra h
  unfold scan at h ⊢
  cases hfollow : follow b.toNat with
  | none => simp [hfollow] at h
  | some ranges =>
    simp only [hfollow] at h ⊢
    split at h
    · cases h
    · split
      · exact .inr ⟨_, _, rfl⟩
      · simpa using scanRest_append (leadBits b.toNat) 0 ranges rest v c extra h

end Utf8

namespace Utf16

theorem scan_append (bigEndian : Bool) (b : UInt8) (rest v : List UInt8) :
    (scan bigEndian b (rest ++ v)).Agrees (scan bigEndian b rest) rest.length := by
  intro c extra h
  cases rest with
  | nil => exact .inr ⟨_, _, rfl⟩
  | cons b₁ rest =>
    simp only [List.cons_append, scan] at h ⊢
    split
    · next hhigh =>
      rw [if_pos hhigh] at h
      -- the second half of a pair takes two bytes
      rcases rest with _ | ⟨b₂, _ | ⟨b₃, rest⟩⟩
      · exact .inr ⟨_, _, rfl⟩
      · exact .inr ⟨_, _, rfl⟩
      · simp only [List.cons_append] at h ⊢
        split at h
        · next hlow =>
          obtain ⟨-, rfl⟩ := Scan.char.inj h
          exact .inl ⟨(if_pos hlow).trans h, by simp only [List.length_cons]; omega⟩
        · cases h
    · next hhigh =>
      rw [if_neg hhigh] at h
      split at h <;> cases h
      next hlow => exact .inl ⟨if_neg hlow, by simp only [List.length_cons]; omega⟩

end Utf16

namespace Encoding

variable {e : Encoding} {b : UInt8} {rest u v kept : List UInt8} {T : Text} {pos : Nat}

/-- **What is found in front of bytes** is found in a portion that has enough of them. -/
theorem scan_append (e : Encoding) (b : UInt8) (rest v : List UInt8) :
    (e.scan b (rest ++ v)).Agrees (e.scan b rest) rest.length := by
  cases e with
  | latin1 =>
    intro c extra h
    cases h
    exact .inl ⟨rfl, Nat.zero_le _⟩
  | ascii =>
    intro c extra h
    refine .inl ⟨h, ?_⟩
    unfold scan at h
    simp only at h
    split at h <;> cases h
    exact Nat.zero_le _
  | utf8 => exact Utf8.scan_append b rest v
  | utf16le => exact Utf16.scan_append false b rest v
  | utf16be => exact Utf16.scan_append true b rest v

/-! ### Texts -/

theorem decode_of_char {final : Bool} {c : Char} {extra : Nat} (h : e.scan b rest = .char c extra)
    (hrest : e.decode final (pos + 1 + extra) (rest.drop extra) = .ok (T, kept)) :
    e.decode final pos (b :: rest) = .ok (c :: T, kept) := by
  rw [decode, h]
  simp only [hrest]

theorem exists_char_of_decode (h : e.decode true pos (b :: rest) = .ok (T, kept)) :
    ∃ c extra T', e.scan b rest = .char c extra ∧ T = c :: T' ∧
      e.decode true (pos + 1 + extra) (rest.drop extra) = .ok (T', kept) := by
  rw [decode] at h
  split at h
  · next c extra hscan =>
    split at h <;> cases h
    next T' hrest => exact ⟨c, extra, T', hscan, rfl, hrest⟩
  · cases h
  · cases h

theorem decode_pos {final : Bool} (h : e.decode final pos u = .ok (T, kept)) (q : Nat) :
    e.decode final q u = .ok (T, kept) := by
  fun_induction decode e final pos u generalizing T kept q with
  | case1 =>
    rw [decode]
    exact h
  | case2 pos b rest c extra hscan cs kept' hd ih =>
    cases h
    exact decode_of_char hscan (ih hd (q + 1 + extra))
  | case3 => cases h
  | case4 => cases h
  | case5 => cases h
  | case6 pos b rest extra reason hscan hfinal =>
    rw [decode, hscan]
    simp only [hfinal]
    exact h

theorem kept_of_decode (h : e.decode true pos u = .ok (T, kept)) : kept = [] := by
  induction hn : u.length using Nat.strongRecOn generalizing u pos T with
  | _ n ih =>
    cases u with
    | nil =>
      rw [decode] at h
      cases h
      rfl
    | cons b rest =>
      obtain ⟨c, extra, T', -, -, hrest⟩ := exists_char_of_decode h
      have hlt : (rest.drop extra).length < n := by
        rw [← hn, List.length_drop, List.length_cons]
        omega
      exact ih _ hlt hrest rfl

/-- **A portion decodes to the text in front.** The bytes that are kept go with what comes next. -/
theorem decode_append (h : e.decode true pos (u ++ v) = .ok (T, kept)) :
    ∃ cs left T', e.decode false pos u = .ok (cs, left) ∧ T = cs ++ T' ∧
      e.decode true 0 (left ++ v) = .ok (T', kept) := by
  induction hn : u.length using Nat.strongRecOn generalizing u pos T with
  | _ n ih =>
    cases u with
    | nil => exact ⟨[], [], T, by rw [decode], rfl, decode_pos h 0⟩
    | cons b rest =>
      rw [List.cons_append] at h
      obtain ⟨c, extra, T', hscan, rfl, hrest⟩ := exists_char_of_decode h
      rcases scan_append e b rest v c extra hscan with ⟨hpart, hle⟩ | ⟨m, reason, hpart⟩
      · have hlt : (rest.drop extra).length < n := by
          rw [← hn, List.length_drop, List.length_cons]
          omega
        rw [List.drop_append_of_le_length hle] at hrest
        obtain ⟨cs, left, T'', hcs, rfl, hleft⟩ := ih _ hlt hrest rfl
        exact ⟨c :: cs, left, T'', decode_of_char hpart hcs, rfl, hleft⟩
      -- the whole portion is the beginning of a character
      · refine ⟨[], b :: rest, c :: T', ?_, rfl, decode_pos h 0⟩
        rw [decode, hpart]
        rfl

end Encoding

/-! ### Decoders -/

namespace Decoder

variable {d : Decoder} {data bytes : List UInt8} {T : Text}

/-- The text that bytes will give in any portions, together with what is kept. -/
def Gives (d : Decoder) (bytes : List UInt8) (T : Text) : Prop :=
  d.encoding.decode true 0 (d.kept ++ bytes) = .ok (T, [])

theorem gives_of_decodeAll {e : Encoding} (h : e.decodeAll bytes = .ok T) :
    (⟨e, []⟩ : Decoder).Gives bytes T := by
  unfold Encoding.decodeAll at h
  split at h <;> cases h
  next kept hdecode =>
  have hkept := Encoding.kept_of_decode hdecode
  rwa [hkept] at hdecode

/-- **One portion** gives the text in front. -/
theorem Gives.feed (h : d.Gives (data ++ bytes) T) :
    ∃ cs d' T', d.feed data false = .ok (cs, d') ∧ T = cs ++ T' ∧ d'.Gives bytes T' := by
  unfold Gives at h
  rw [← List.append_assoc] at h
  obtain ⟨cs, left, T', hcs, rfl, hleft⟩ := Encoding.decode_append h
  exact ⟨cs, { d with kept := left }, T', by simp [Decoder.feed, hcs], rfl, hleft⟩

theorem Gives.final (h : d.Gives [] T) : d.feed [] true = .ok (T, { d with kept := [] }) := by
  unfold Gives at h
  rw [List.append_nil] at h
  simp [Decoder.feed, h]

end Decoder

end DotFraming
