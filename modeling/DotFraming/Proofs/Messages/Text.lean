import Mathlib.Logic.Function.Iterate
import DotFraming.Proofs.Messages
import DotFraming.Proofs.Reader.Consumption

/-!
# Decoding any text

Decoding a text in memory cannot fail, whatever the text is: what it comes to is told by
`Wire.decode` and `Wire.rest` for one message, and by `Wire.messages` for all of them.

* `Decoding.message_of_holds` : one message, and what is left after it.
* `Decoding.rounds_of_holds` : those that follow it.
* `Decoding.messages_all_of_holds`, `Decoding.decodedText`, `Decoding.messages_of_holds` : **the
  texts of the messages are written**, one after the other.
* `Wire.Counts`, `Decoding.decoding_ends` : **decoding any text ends**, with the first message after
  which nothing is left.
* `Decoding.mem_decodedText` : they have no characters but those of the text and of the line ending.
-/

namespace DotFraming

namespace Decoding

open Wire

variable {eol w : Text} {s : Decoding (Pushback InMemory)}

theorem message_of_holds (heol : eol ≠ []) (hs : s.source.Holds w) :
    ∃ s', message eol s = .ok () s' ∧ s'.output = s.output ++ decode eol w ∧
      s'.source = Pushback.ofText (rest w) := by
  have hr : Reader.new? eol = .ok { eol, eol_ne_nil := heol } := dif_neg heol
  obtain ⟨z, hz, hsource⟩ := Operation.finishes_of_holds s.log hr hs
  obtain ⟨s', hmessage, hout, -, hsource'⟩ := message_of_finishes hr hz
  exact ⟨s', hmessage, hout, hsource'.trans hsource⟩

theorem messages_of_rest_nil (h : rest w = []) : Wire.messages eol w = [decode eol w] := by
  rw [Wire.messages, dif_pos h]

theorem messages_of_rest_ne_nil (h : rest w ≠ []) :
    Wire.messages eol w = decode eol w :: Wire.messages eol (rest w) := by
  rw [Wire.messages, dif_neg h]

theorem rounds_of_holds (heol : eol ≠ []) {count : Nat}
    {r : EStateM.Result Fault (Decoding (Pushback InMemory)) Nat} (h : Rounds eol count s r)
    (hs : s.source.Holds w) :
    ∃ s', r = .ok (count + (Wire.messages eol w).length) s' ∧
      s'.output = s.output ++ (Wire.messages eol w).flatten ∧
      s'.source = Pushback.ofText [] := by
  -- every message takes something from the text: induction on its length
  induction hn : w.length using Nat.strongRecOn generalizing s w count r with
  | _ n ih =>
    obtain ⟨s', hmessage, hout, hsource⟩ := message_of_holds heol hs
    cases hrest : rest w with
    | nil =>
      rw [hrest] at hsource
      rw [messages_of_rest_nil hrest]
      refine ⟨s', h.last hmessage (more_of_nil hsource), ?_, hsource⟩
      rw [hout, List.flatten_cons, List.flatten_nil, List.append_nil]
    | cons c v =>
      have hne : rest w ≠ [] := by simp [hrest]
      rw [hrest] at hsource
      obtain ⟨s'', hnext, hholds, -, hout'⟩ := more_of_cons hsource
      rw [← hrest] at hholds
      obtain ⟨z, hz, hout'', hleft⟩ := ih _ (hn ▸ length_rest_lt hne)
        (rounds_following eol (count + 1) s'' (more_true hnext).2) hholds rfl
      refine ⟨z, ?_, ?_, hleft⟩
      · rw [h.next hmessage hnext, hz, messages_of_rest_ne_nil hne, List.length_cons]
        congr 1
        omega
      · rw [hout'', hout', hout, messages_of_rest_ne_nil hne, List.flatten_cons,
          List.append_assoc]

theorem messages_all_of_holds (heol : eol ≠ []) (hs : s.source.Holds w) :
    ∃ s', messages eol true s = .ok (Wire.messages eol w).length s' ∧
      s'.output = s.output ++ (Wire.messages eol w).flatten ∧
      s'.source = Pushback.ofText [] := by
  obtain ⟨s', hrun, h⟩ := rounds_of_holds heol (rounds_messages eol s) hs
  rw [Nat.zero_add] at hrun
  exact ⟨s', hrun, h⟩

/-- What decoding a text writes: the text of the first message, or those of all messages. -/
def decodedText (eol : Text) (all : Bool) (w : Text) : Text :=
  if all then (Wire.messages eol w).flatten else decode eol w

/-- **The texts of the messages are written**, one after the other, or that of the first one. -/
theorem messages_of_holds (heol : eol ≠ []) (all : Bool) (hs : s.source.Holds w) :
    ∃ count s', messages eol all s = .ok count s' ∧
      s'.output = s.output ++ decodedText eol all w := by
  cases all with
  | false =>
    obtain ⟨s', hmessage, hout, -⟩ := message_of_holds heol hs
    exact ⟨1, s', by simp [messages, hmessage], hout⟩
  | true =>
    obtain ⟨s', hmessages, hout, -⟩ := messages_all_of_holds heol hs
    exact ⟨_, s', hmessages, hout⟩

/-! ### Where the characters come from -/

theorem mem_decodeFrom {start : Bool} {c : Char} (h : c ∈ decodeFrom eol start w) :
    c ∈ w ∨ c ∈ eol := by
  fun_induction decodeFrom eol start w with
  | case1 t ih => grind
  | case2 => cases h
  | case3 start t ih => grind
  | case4 start d t ih => grind
  | case5 => cases h

theorem mem_rest {c : Char} (h : c ∈ rest w) : c ∈ w := by
  unfold rest at h
  split at h
  · exact List.mem_of_mem_drop h
  · cases h

theorem mem_messages {c : Char} (h : c ∈ (Wire.messages eol w).flatten) : c ∈ w ∨ c ∈ eol := by
  induction hn : w.length using Nat.strongRecOn generalizing w with
  | _ n ih =>
    by_cases hrest : rest w = []
    · rw [messages_of_rest_nil hrest, List.flatten_cons, List.flatten_nil, List.append_nil,
        ← decodeFrom_true] at h
      exact mem_decodeFrom h
    · rw [messages_of_rest_ne_nil hrest, List.flatten_cons, List.mem_append, ← decodeFrom_true] at h
      rcases h with h | h
      · exact mem_decodeFrom h
      · exact (ih _ (hn ▸ length_rest_lt hrest) h rfl).imp_left mem_rest

/-- **Every character that is written** was in the text or is one of the line ending. -/
theorem mem_decodedText {all : Bool} {c : Char} (h : c ∈ decodedText eol all w) :
    c ∈ w ∨ c ∈ eol := by
  cases all with
  | false =>
    rw [decodedText, ← decodeFrom_true] at h
    exact mem_decodeFrom h
  | true => exact mem_messages h

end Decoding

/-! ### How many messages there are -/

namespace Wire

variable {w : Text}

/-- A text is read as `k` messages. There is always a first one, and after the last one, and only
then, nothing is left. -/
structure Counts (w : Text) (k : Nat) : Prop where
  /-- There is a first message. -/
  pos : 1 ≤ k
  /-- After all of them nothing is left. -/
  last : rest^[k] w = []
  /-- After the others something is left. -/
  before : ∀ i, 1 ≤ i → i < k → rest^[i] w ≠ []

theorem counts_one (h : rest w = []) : Counts w 1 :=
  ⟨Nat.le_refl 1, h, fun _ hi hlt => absurd hi (Nat.not_le_of_gt hlt)⟩

theorem Counts.succ {k : Nat} (h : Counts (rest w) k) (hne : rest w ≠ []) : Counts w (k + 1) := by
  refine ⟨Nat.le_add_left 1 k, h.last, fun i hi hlt => ?_⟩
  obtain _ | _ | i := i
  · omega
  · exact hne
  · rw [Function.iterate_succ_apply]
    exact h.before (i + 1) (by omega) (by omega)

theorem Counts.unique {k k' : Nat} (h : Counts w k) (h' : Counts w k') : k = k' := by
  rcases Nat.lt_trichotomy k k' with hlt | heq | hlt
  · exact absurd h.last (h'.before k h.pos hlt)
  · exact heq
  · exact absurd h'.last (h.before k' h'.pos hlt)

/-- **The messages of a text** are what is in front of it, then of what is left, and so on. There
are no more of them than characters, but for the one in the empty text. -/
theorem exists_counts (eol w : Text) : ∃ k, Counts w k ∧ k ≤ max 1 w.length ∧
    messages eol w = (List.range k).map fun i => decode eol (rest^[i] w) := by
  -- what is left after a message is shorter than the text
  induction hn : w.length using Nat.strongRecOn generalizing w with
  | _ n ih =>
    by_cases hrest : rest w = []
    · exact ⟨1, counts_one hrest, Nat.le_max_left .., Decoding.messages_of_rest_nil hrest⟩
    · have hlt := length_rest_lt hrest
      have hpos := List.length_pos_iff.2 hrest
      obtain ⟨k, hk, hle, hmessages⟩ := ih _ (hn ▸ hlt) (rest w) rfl
      refine ⟨k + 1, hk.succ hrest, by omega, ?_⟩
      rw [Decoding.messages_of_rest_ne_nil hrest, hmessages, List.range_succ_eq_map, List.map_cons,
        List.map_map]
      rfl

end Wire

namespace Decoding

open Wire

/-- **Decoding any text ends.** However malformed the text is, decoding all of its messages gives
their number, leaves nothing in the source, and writes the text of the message in front, then that
of the message in front of what is left, and so on. So looking whether there is more between two
messages loses, repeats and misreads nothing. Each of these texts is what a reader of its own reads
all at once, and what is left is what this reader leaves. -/
theorem decoding_ends {eol : Text} (heol : eol ≠ []) (w : Text) (log : Log) :
    ∃ k s', messages eol true ⟨Pushback.ofText w, log, []⟩ = .ok k s' ∧
      Counts w k ∧ k ≤ max 1 w.length ∧
      s'.output = (List.range k).flatMap (fun i => decode eol (rest^[i] w)) ∧
      s'.source = Pushback.ofText [] ∧
      ∀ (i : Nat) (r : Reader) (log' : Log), Reader.new? eol = .ok r →
        ∃ z, Reading.read (-1) ⟨r, Pushback.ofText (rest^[i] w), log'⟩ =
            .ok (decode eol (rest^[i] w)) z ∧
          z.source = Pushback.ofText (rest^[i + 1] w) := by
  obtain ⟨s', hmessages, hout, hsource⟩ :=
    messages_all_of_holds (s := ⟨Pushback.ofText w, log, []⟩) heol (.inl rfl)
  obtain ⟨k, hk, hle, htexts⟩ := exists_counts eol w
  rw [htexts, List.length_map, List.length_range] at hmessages
  refine ⟨k, s', hmessages, hk, hle, ?_, hsource, fun i r log' hr => ?_⟩
  · rw [hout, htexts, List.flatMap_def]
    rfl
  · obtain ⟨z, hz, hleft⟩ := Operation.finishes_of_holds log' hr (.inl rfl)
    rw [Function.iterate_succ_apply']
    exact ⟨z, Reading.read_all hz, hleft⟩

/-- A message with a malformed terminator, one that is nothing but a malformed terminator, and one
that begins with a line feed, has a dot that begins no line, and is not terminated. -/
theorem decoding_ends_malformed :
    let w := "a\r\n.x..b\r\n.\r\n\r".toList
    ['|'] ≠ [] ∧ ∃ s', messages ['|'] true ⟨Pushback.ofText w, {}, []⟩ = .ok 3 s' ∧
      s'.output = "a|\n.|\r".toList ∧ s'.source = Pushback.ofText [] := by
  intro w
  have heol : ['|'] ≠ [] := by decide
  have hcount : Counts w 3 := by
    refine ⟨by decide, by decide, fun i hi hlt => ?_⟩
    obtain rfl | rfl : i = 1 ∨ i = 2 := by omega
    · decide
    · decide
  obtain ⟨k, s', hmessages, hk, -, hout, hsource, -⟩ := decoding_ends heol w {}
  obtain rfl := hk.unique hcount
  have htext : (List.range 3).flatMap (fun i => decode ['|'] (rest^[i] w)) = "a|\n.|\r".toList := by
    decide
  exact ⟨heol, s', hmessages, hout.trans htext, hsource⟩

end Decoding

end DotFraming
