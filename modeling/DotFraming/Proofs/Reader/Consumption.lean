import DotFraming.Proofs.Reader.Operations
import DotFraming.Proofs.Wire.Scan

/-!
# The way a message is consumed does not matter

Reading can be done piece by piece, by number of characters, line by line or into a buffer, in any
order. This file says that all of this comes to the same.

* `Operation.received`, `Operation.Ended` : the characters an operation returned, and whether it
  reported the end of the message.
* `Reading.Reached` : where a reader is when it has handed out a part of a message.
* `Operation.perform_of_finishes` : **one operation** returns the characters that come next.
* `Operation.performAll_of_finishes` : **any operations** one after another return a part of the
  message in front.
* `Operation.consumption_irrelevant` : over a source that ends, what is returned and what is left
  depend on nothing but the number of characters returned.
* `Operation.reads_first_message` : over a text in memory, this is the text of the first message,
  and the source is left right behind it.
-/

namespace DotFraming

/-- Whether an answer says that there is nothing more. -/
def Answer.isEnd : Answer → Bool
  | piece none => true
  | text [] => true
  | line none => true
  | lines _ => true
  | count none => true
  | _ => false

namespace Operation

variable {σ : Type}

/-- The operations that read. -/
def isReading : Operation → Bool
  | ready => false
  | close => false
  | _ => true

/-- The operation asks for at least one character. -/
def Asks : Operation → Prop
  | read size => size ≠ 0
  | readInto buffer offset length => Reading.Fits buffer offset length
  | ready => False
  | close => False
  | _ => True

/-- The characters that an operation returned. Those that were put into a buffer stand there from
the offset on. -/
def received (op : Operation) (o : Outcome σ) : Text :=
  match op, o.answer with
  | _, .ok (.piece p) => p.getD []
  | _, .ok (.text t) => t
  | _, .ok (.line t) => t.getD []
  | _, .ok (.lines ts) => ts.flatten
  | readInto _ offset _, .ok (.count n) =>
    (((o.buffer.getD []).drop offset.toNat).take (n.getD 0)).flatten
  | _, _ => []

/-- The characters that operations returned, in order. -/
def receivedAll (ops : List Operation) (os : List (Outcome σ)) : Text :=
  (List.zipWith received ops os).flatten

/-- An operation that asked for at least one character reported the end of the message. -/
def Ended (op : Operation) (o : Outcome σ) : Prop :=
  op.Asks ∧ ∃ a, o.answer = .ok a ∧ a.isEnd = true

end Operation

variable {σ : Type} [CharacterSource σ] {s m z : Reading σ} {t u v : Text}

namespace Reading

/-! ### Where a reader is -/

/-- The reader has handed out `u` of the message `t`: it is in the middle of the message, or it has
reported the end. -/
def Reached (s z : Reading σ) (t u : Text) (m : Reading σ) : Prop :=
  (∃ v, t = u ++ v ∧ HandsOut s u m) ∨ u = t ∧ m = z

theorem Reached.exists_tail (h : Finishes s t z) (hm : Reached s z t u m) :
    ∃ v, t = u ++ v ∧ Finishes m v z := by
  rcases hm with ⟨v, rfl, hm⟩ | ⟨rfl, rfl⟩
  · exact ⟨v, rfl, h.tail hm⟩
  · exact ⟨[], by simp, h.again⟩

theorem HandsOut.eq_of_nil (h : HandsOut s [] m) : m = s := by
  cases h
  rfl

theorem Reached.eq_of_nil (h : Reached z z [] u m) : u = [] ∧ m = z := by
  rcases h with ⟨v, huv, hm⟩ | h
  · obtain ⟨rfl, -⟩ := List.append_eq_nil_iff.1 huv.symm
    exact ⟨rfl, hm.eq_of_nil⟩
  · exact h

theorem Reached.append {w : Text} {m' : Reading σ} (h : Reached s z (u ++ v) u m)
    (h' : Reached m z v w m') : Reached s z (u ++ v) (u ++ w) m' := by
  rcases h' with ⟨x, rfl, hm'⟩ | ⟨rfl, rfl⟩
  · rcases h with ⟨-, -, hm⟩ | ⟨hu, rfl⟩
    · exact .inl ⟨x, by simp, hm.append hm'⟩
    -- the end has been reported: nothing was left to go on with
    · obtain ⟨rfl, rfl⟩ := List.append_eq_nil_iff.1 (List.self_eq_append_right.1 hu)
      exact .inr ⟨by simp, hm'.eq_of_nil⟩
  · exact .inr ⟨rfl, rfl⟩

/-- **Where a reader is depends on the number of characters** that it has handed out, unless these
are all. -/
theorem Reached.unique {u' : Text} {m' : Reading σ} (h : Reached s z t u m)
    (h' : Reached s z t u' m') (hlen : u'.length = u.length) (hlt : u.length < t.length) :
    m' = m := by
  rcases h with ⟨v, rfl, hm⟩ | ⟨rfl, -⟩
  · rcases h' with ⟨v', hv', hm'⟩ | ⟨rfl, -⟩
    · obtain ⟨rfl, -⟩ := List.append_inj hv' hlen.symm
      exact hm'.unique hm
    · omega
  · omega

end Reading

namespace Operation

open Reading

/-! ### One operation -/

/-- What an operation does to a reader that hands out `t` and is then `z`: it returns the characters
that come next and leaves the reader where this many calls leave it. If it asks for something, it
gives an answer; and this has at least one character while any is left, and reports the end if
nothing is left, and only then. -/
structure Returns (op : Operation) (s z : Reading σ) (t : Text) (o : Outcome σ) : Prop where
  /-- What it returned is the part of the message in front. -/
  reached : Reached s z t (op.received o) o.after
  /-- It does not fail. -/
  answered : op.Asks → ∃ a, o.answer = .ok a
  /-- It returns something while anything is left. -/
  nonempty : op.Asks → t ≠ [] → op.received o ≠ []
  /-- Nothing is left when it reports the end. -/
  complete : op.Ended o → op.received o = t ∧ o.after = z
  /-- It reports the end when nothing is left. -/
  ended : op.Asks → t = [] → op.Ended o

variable {op : Operation} {o : Outcome σ} {a : Answer}

theorem returns_part (hans : o.answer = .ok a) (hrec : op.received o = u)
    (hm : HandsOut s u o.after) (hasks : op.Asks → u ≠ []) (hend : u ≠ [] → a.isEnd = false) :
    op.Returns s z (u ++ v) o := by
  refine ⟨.inl ⟨v, by rw [hrec], hrec ▸ hm⟩, fun _ => ⟨a, hans⟩, fun h _ => hrec ▸ hasks h, ?_,
    fun h hnil => ?_⟩
  · rintro ⟨h, b, hb, hisEnd⟩
    rw [hans] at hb
    cases hb
    rw [hend (hasks h)] at hisEnd
    cases hisEnd
  · exact absurd (List.append_eq_nil_iff.1 hnil).1 (hasks h)

theorem returns_all (hans : o.answer = .ok a) (hrec : op.received o = t) (hafter : o.after = z)
    (hend : t = [] → a.isEnd = true) : op.Returns s z t o :=
  ⟨.inr ⟨hrec, hafter⟩, fun _ => ⟨a, hans⟩, fun _ hne => hrec ▸ hne, fun _ => ⟨hrec, hafter⟩,
    fun h hnil => ⟨h, a, hans, hend hnil⟩⟩

theorem returns_nothing (hasks : ¬op.Asks) (hrec : op.received o = []) (hafter : o.after = s) :
    op.Returns s z t o := by
  refine ⟨.inl ⟨t, by rw [hrec]; rfl, ?_⟩, fun h => absurd h hasks, fun h => absurd h hasks,
    fun h => absurd h.1 hasks, fun h => absurd h hasks⟩
  rw [hrec, hafter]
  exact .nil s

theorem returns_readOne (h : Finishes s t z) : readOne.Returns s z t (readOne.perform s) := by
  cases t with
  | nil =>
    rw [perform, h.readOne_nil]
    exact returns_all rfl rfl rfl fun _ => rfl
  | cons c t =>
    obtain ⟨s', call, -⟩ := h.readOne_cons
    rw [perform, call]
    exact returns_part (u := [c]) rfl rfl (.cons call (.nil s')) (by simp) fun _ => rfl

theorem isEnd_text (hne : t ≠ []) : (Answer.text t).isEnd = false := by
  obtain ⟨c, t, rfl⟩ := List.exists_cons_of_ne_nil hne
  rfl

theorem returns_read (size : Int) (h : Finishes s t z) :
    (read size).Returns s z t ((read size).perform s) := by
  rcases read_of_finishes size h with ⟨u, v, m, rfl, hlen, hm, hread⟩ | ⟨-, hread⟩
  · rw [perform, hread]
    refine returns_part rfl rfl hm ?_ isEnd_text
    rintro hasks rfl
    exact hasks hlen.symm
  · rw [perform, hread]
    exact returns_all rfl rfl rfl fun hnil => hnil ▸ rfl

theorem returns_readLine (h : Finishes s t z) : readLine.Returns s z t (readLine.perform s) := by
  rcases readLine_of_finishes h with ⟨u, v, m, rfl, hline, hm, hread⟩ | ⟨-, hread⟩
  · rw [perform, hread]
    exact returns_part rfl rfl hm (fun _ => hline.ne_nil s.reader.eol_ne_nil) isEnd_text
  · rw [perform, hread]
    exact returns_all rfl rfl rfl fun hnil => hnil ▸ rfl

theorem returns_next (h : Finishes s t z) : next.Returns s z t (next.perform s) := by
  rcases readLine_of_finishes h with ⟨u, v, m, rfl, hline, hm, hread⟩ | ⟨-, hread⟩
  · have hne := hline.ne_nil s.reader.eol_ne_nil
    have hnext : Reading.next s = .ok (some u) m := by
      rw [Reading.next, bind_of_ok hread, if_neg hne]
      rfl
    rw [perform, hnext]
    exact returns_part rfl rfl hm (fun _ => hne) fun _ => rfl
  · have hnext : Reading.next s = .ok (if t = [] then none else some t) z := by
      rw [Reading.next, bind_of_ok hread]
      rfl
    rw [perform, hnext]
    refine returns_all rfl ?_ rfl fun hnil => by simp [hnil, Answer.isEnd]
    cases t <;> rfl

theorem returns_lines (h : Finishes s t z) : lines.Returns s z t (lines.perform s) := by
  obtain ⟨ls, hls, hlines⟩ := lines_of_finishes h
  rw [perform, hlines]
  exact returns_all rfl hls.flatten_eq rfl fun _ => rfl

theorem returns_readInto (buffer : List Piece) (offset : Int) (length : Option Int)
    (h : Finishes s t z) :
    (readInto buffer offset length).Returns s z t ((readInto buffer offset length).perform s) := by
  by_cases hfits : Fits buffer offset length
  · obtain ⟨u, v, m, rfl, hm, hread⟩ := readInto_of_finishes hfits h
    have hwindow : ((overwrite buffer offset.toNat (u.map ([·]))).drop offset.toNat).take u.length =
        u.map ([·]) := by
      obtain ⟨_, _, _⟩ := hfits
      have := @window_overwrite buffer (u.map ([·])) offset.toNat (by omega)
      rwa [List.length_map] at this
    have hcount : (if u.length = 0 then none else some u.length).getD 0 = u.length := by
      split <;> simp_all
    have hrec : (readInto buffer offset length).received
        ((readInto buffer offset length).perform s) = u := by
      simp only [perform, hread, Outcome.ofResult, received, hcount, Option.getD_some, hwindow,
        Collected.flatten_map_singleton]
    have hans : ((readInto buffer offset length).perform s).answer =
        .ok (.count (if u.length = 0 then none else some u.length)) := by
      simp only [perform, hread, Outcome.ofResult]
    have hafter : ((readInto buffer offset length).perform s).after = m := by
      simp only [perform, hread, Outcome.ofResult]
    rcases hm with ⟨hne, hm⟩ | ⟨rfl, rfl⟩
    · exact returns_part hans hrec (hafter ▸ hm) (fun _ => hne) fun hne => by
        simp [hne, Answer.isEnd]
    · rw [List.append_nil]
      exact returns_all hans hrec hafter fun hnil => by simp [hnil, Answer.isEnd]
  -- a range that is not there is refused before the reader is asked
  · rcases readInto_of_not_fits hfits s with hread | ⟨e, hread⟩
    · exact returns_nothing hfits (by simp [perform, hread, Outcome.ofResult, received])
        (by simp [perform, hread, Outcome.ofResult])
    · exact returns_nothing hfits (by simp [perform, hread, Outcome.ofResult, received])
        (by simp [perform, hread, Outcome.ofResult])

/-- **Every operation that reads** returns the characters that come next. -/
theorem perform_of_finishes (hop : op.isReading = true) (h : Finishes s t z) :
    op.Returns s z t (op.perform s) := by
  cases op with
  | readOne => exact returns_readOne h
  | read size => exact returns_read size h
  | readLine => exact returns_readLine h
  | next => exact returns_next h
  | lines => exact returns_lines h
  | readInto buffer offset length => exact returns_readInto buffer offset length h
  | ready => cases hop
  | close => cases hop

/-! ### One operation after another -/

omit [CharacterSource σ] in
theorem receivedAll_cons (ops : List Operation) (os : List (Outcome σ)) :
    receivedAll (op :: ops) (o :: os) = op.received o ++ receivedAll ops os := rfl

/-- **Operations one after another** return a part of the message in front, and leave the reader
where this many calls leave it. None of them fails that asks for something. If one of them reports
the end, they have returned everything. -/
theorem performAll_of_finishes {ops : List Operation} (hops : ∀ op ∈ ops, op.isReading = true)
    (h : Finishes s t z) :
    Reached s z t (receivedAll ops (performAll ops s).1) (performAll ops s).2 ∧
      (∀ x ∈ ops.zip (performAll ops s).1, x.1.Asks → ∃ a, x.2.answer = .ok a) ∧
      ((∃ x ∈ ops.zip (performAll ops s).1, x.1.Ended x.2) →
        receivedAll ops (performAll ops s).1 = t ∧ (performAll ops s).2 = z) := by
  induction ops generalizing s t with
  | nil => exact ⟨.inl ⟨t, rfl, .nil s⟩, by simp, by simp⟩
  | cons op ops ih =>
    have hone := perform_of_finishes (hops op (by simp)) h
    obtain ⟨v, hv, htail⟩ := hone.reached.exists_tail h
    obtain ⟨hreached, hanswered, hends⟩ := ih (fun x hx => hops x (by simp [hx])) htail
    simp only [performAll, receivedAll_cons, List.zip_cons_cons, List.mem_cons]
    have hall := (hv ▸ hone.reached).append hreached
    refine ⟨by rw [hv]; exact hall, ?_, ?_⟩
    · rintro x (rfl | hx)
      · exact hone.answered
      · exact hanswered x hx
    · rintro ⟨x, rfl | hx, hend⟩
      · obtain ⟨hrec, hz⟩ := hone.complete hend
        -- nothing is left: the other operations return nothing and leave the reader as it is
        obtain rfl : v = [] := List.self_eq_append_right.1 (hrec.trans hv)
        rw [hz] at hreached ⊢
        obtain ⟨hnil, hz'⟩ := hreached.eq_of_nil
        exact ⟨by rw [hnil, List.append_nil, hrec], hz'⟩
      · obtain ⟨hrec, hz⟩ := hends ⟨x, hx, hend⟩
        exact ⟨by rw [hrec, ← hv], hz⟩

/-! ### Any operations on a new reader -/

/-- **The way a message is consumed does not matter.** Over a source that ends, all reading at once
gives the text of the first message. Any operations return a part of it in front; reading a number
of characters then returns as many as there are left, up to this number; an operation that asks for
something gives an answer, and reports the end only with everything returned; and unless everything
has been returned, the reader and its source depend on the number of characters alone. -/
theorem consumption_irrelevant {eol w : Text} {r : Reader} {source : σ} (log : Log)
    (hr : Reader.new? eol = .ok r) (hsource : Exhausts source w) :
    (∃ z, Reading.read (-1) ⟨r, source, log⟩ = .ok (Wire.decode eol w) z) ∧
      ∀ ops : List Operation, (∀ op ∈ ops, op.isReading = true) →
        let run := performAll ops ⟨r, source, log⟩
        let got := receivedAll ops run.1
        got <+: Wire.decode eol w ∧
          (∀ size : Int, 0 ≤ size → ∃ u s', Reading.read size run.2 = .ok u s' ∧
            u.length = min size.toNat ((Wire.decode eol w).length - got.length)) ∧
          (∀ op : Operation, op.isReading = true → op.Asks →
            ∃ a, (op.perform run.2).answer = .ok a) ∧
          (∀ op : Operation, op.isReading = true → op.Ended (op.perform run.2) →
            got ++ op.received (op.perform run.2) = Wire.decode eol w) ∧
          ∀ ops' : List Operation, (∀ op ∈ ops', op.isReading = true) →
            let run' := performAll ops' ⟨r, source, log⟩
            (receivedAll ops' run'.1).length = got.length →
            got.length < (Wire.decode eol w).length → run'.2 = run.2 := by
  obtain ⟨z, hz⟩ := finishes_of_new log hr hsource
  refine ⟨⟨z, read_all hz⟩, fun ops hops => ?_⟩
  have hreached := (performAll_of_finishes hops hz).1
  obtain ⟨v, hv, hleft⟩ := hreached.exists_tail hz
  intro run got
  refine ⟨⟨v, hv.symm⟩, fun size hsize => ?_, fun op hop => ?_, fun op hop hend => ?_,
    fun ops' hops' => ?_⟩
  · rw [hv, List.length_append, Nat.add_sub_cancel_left]
    exact length_read hsize hleft
  · exact (perform_of_finishes hop hleft).answered
  · rw [((perform_of_finishes hop hleft).complete hend).1, ← hv]
  · intro run' hlen hlt
    exact hreached.unique (performAll_of_finishes hops' hz).1 hlen hlt

/-- A reader over two messages: what it reads, in whatever way, is the text of the first. -/
theorem consumption_irrelevant_two_messages :
    let wire := "..a\r\nb\r\n.\r\nc\r\n.\r\n".toList
    ∃ r, Reader.new? ['\n'] = .ok r ∧ Exhausts (Pushback.ofText wire) wire ∧
      (∃ z, Reading.read (-1) ⟨r, Pushback.ofText wire, {}⟩ = .ok ".a\nb\n".toList z) ∧
      ∀ ops : List Operation, (∀ op ∈ ops, op.isReading = true) →
        receivedAll ops (performAll ops ⟨r, Pushback.ofText wire, {}⟩).1 <+: ".a\nb\n".toList := by
  intro wire
  have hdecode : Wire.decode ['\n'] wire = ".a\nb\n".toList := by decide
  have hsource := Pushback.exhausts_ofText wire
  obtain ⟨hall, hany⟩ := consumption_irrelevant {} (rfl : Reader.new? ['\n'] = .ok _) hsource
  rw [hdecode] at hall hany
  exact ⟨_, rfl, hsource, hall, fun ops hops => (hany ops hops).1⟩

/-! ### Any operations over a text in memory -/

theorem finishes_of_holds {eol w : Text} {r : Reader} {source : Pushback InMemory} (log : Log)
    (hr : Reader.new? eol = .ok r) (hsource : source.Holds w) :
    ∃ z, Finishes ⟨r, source, log⟩ (Wire.decode eol w) z ∧
      z.source = Pushback.ofText (Wire.rest w) := by
  obtain ⟨rfl, hs⟩ := open_of_new hr source log
  obtain ⟨z, hz, -, hleft⟩ := finishes_of_exhausts hs hsource.delivers_all Pushback.read_ofText_nil
  rw [Wire.decodeFrom_true] at hz
  rw [Wire.restFrom_true] at hleft
  refine ⟨z, hz, ?_⟩
  rcases hleft with ⟨m, hne, hw, hm⟩ | ⟨hnil, hz⟩
  · rw [hw] at hsource
    exact hm.unique (hsource.delivers hne)
  · rw [hnil, hz]

/-- **What a reader reads is the text of the first message.** A new reader is put over a source that
holds a text, all of it in the stream or with the first character taken back. What any operations
return is a part in front of `Wire.decode`, and none fails that asks for something. If one of them
reports the end of the message, they have returned all of it, and the source is left with
`Wire.rest`, nothing taken back. The end can always be reached by reading all that is left, and is
reported from then on. -/
theorem reads_first_message {eol w : Text} {r : Reader} {source : Pushback InMemory} (log : Log)
    (hr : Reader.new? eol = .ok r) (hsource : source.Holds w) (ops : List Operation)
    (hops : ∀ op ∈ ops, op.isReading = true) :
    let run := performAll ops ⟨r, source, log⟩
    let got := receivedAll ops run.1
    got <+: Wire.decode eol w ∧
      (∀ x ∈ ops.zip run.1, x.1.Asks → ∃ a, x.2.answer = .ok a) ∧
      ((∃ x ∈ ops.zip run.1, x.1.Ended x.2) →
        got = Wire.decode eol w ∧ run.2.source = Pushback.ofText (Wire.rest w)) ∧
      ∃ s', Reading.read (-1) run.2 = .ok ((Wire.decode eol w).drop got.length) s' ∧
        s'.source = Pushback.ofText (Wire.rest w) ∧
        ∀ op : Operation, op.isReading = true → op.Asks →
          op.Ended (op.perform s') ∧ op.received (op.perform s') = [] ∧
            (op.perform s').after = s' := by
  obtain ⟨z, hz, hleft⟩ := finishes_of_holds log hr hsource
  obtain ⟨hreached, hanswered, hends⟩ := performAll_of_finishes hops hz
  obtain ⟨v, hv, htail⟩ := hreached.exists_tail hz
  intro run got
  refine ⟨⟨v, hv.symm⟩, hanswered, fun hend => ?_, z, ?_, hleft, fun op hop hasks => ?_⟩
  · obtain ⟨hgot, hlast⟩ := hends hend
    exact ⟨hgot, hlast ▸ hleft⟩
  · rw [hv, List.drop_left]
    exact read_all htail
  · have hone := perform_of_finishes hop hz.again
    have hend := hone.ended hasks rfl
    exact ⟨hend, hone.complete hend⟩

/-- A text with a message and more behind it, its first character taken back. -/
theorem reads_first_message_pushed :
    let source : Pushback InMemory :=
      { stream := ⟨"\r\n..\r\n.\r\nc".toList⟩, pushed := some ['a'] }
    let ops : List Operation := [.readOne, .readLine, .readInto [[], [], []] 1 none, .next]
    ∃ r, Reader.new? ['|'] = .ok r ∧ source.Holds "a\r\n..\r\n.\r\nc".toList ∧
      (∀ op ∈ ops, op.isReading = true) ∧
      let run := performAll ops ⟨r, source, {}⟩
      receivedAll ops run.1 <+: "a|.|".toList ∧
        ((∃ x ∈ ops.zip run.1, x.1.Ended x.2) →
          receivedAll ops run.1 = "a|.|".toList ∧ run.2.source = Pushback.ofText ['c']) := by
  intro source ops
  have hsource : source.Holds "a\r\n..\r\n.\r\nc".toList := .inr ⟨_, _, rfl, rfl⟩
  have hops : ∀ op ∈ ops, op.isReading = true := by decide
  have hdecode : Wire.decode ['|'] "a\r\n..\r\n.\r\nc".toList = "a|.|".toList := by decide
  have hrest : Wire.rest "a\r\n..\r\n.\r\nc".toList = ['c'] := by decide
  have hreads := reads_first_message {} (rfl : Reader.new? ['|'] = .ok _) hsource ops hops
  rw [hdecode, hrest] at hreads
  exact ⟨_, rfl, hsource, hops, hreads.1, hreads.2.2.1⟩

end Operation

end DotFraming
