import DotFraming.Log

/-!
# What the log prints

An entry is one line. If a value could put a line feed or another control character into it, the
value could pass for an entry of its own. This file says that no value can: what is unprintable is
only ever written as an escape.

* `Text.Printable`, `Printable` : texts and strings of printable characters.
* `Text.printable_quote` : **a quoted text is printable**, whatever is quoted.
* `Value.printable_brief` : **values are printable** in the data of an entry, to any depth, if the
  names in them are.
* `Entry.Printable`, `Entry.oneLine` : **an entry is one line** if its origin, its code, its message
  and the names of its data are printable.
-/

namespace DotFraming

/-! ### Texts -/

namespace Text

variable {t u : Text} {c : Char}

/-- Every character is printable. -/
def Printable (t : Text) : Prop := ∀ c ∈ t, isPrintable c = true

instance (t : Text) : Decidable (Printable t) :=
  decidable_of_iff (t.all isPrintable = true) List.all_eq_true

theorem printable_nil : Printable [] := nofun

@[simp] theorem printable_cons :
    Printable (c :: t) ↔ isPrintable c = true ∧ Printable t := List.forall_mem_cons

@[simp] theorem printable_append : Printable (t ++ u) ↔ Printable t ∧ Printable u :=
  List.forall_mem_append

theorem printable_replicate (n : Nat) (h : isPrintable c = true) :
    Printable (List.replicate n c) := fun _ hd => List.eq_of_mem_replicate hd ▸ h

theorem printable_toDigits (n : Nat) : Printable (Nat.toDigits 10 n) := by
  intro c hc
  have hdigit : c.isDigit = true := Nat.isDigit_of_mem_toDigits (by decide) (by decide) hc
  simp only [Char.isDigit, Bool.and_eq_true, decide_eq_true_eq, ge_iff_le,
    UInt32.le_iff_toNat_le] at hdigit
  obtain ⟨hlow, hhigh⟩ := hdigit
  change 0x30 ≤ c.toNat at hlow
  change c.toNat ≤ 0x39 at hhigh
  exact isPrintable_of_ascii (by omega) (by omega)

/-! ### Quoted texts -/

theorem printable_hex (width n : Nat) : Printable (hex width n) := by
  induction width generalizing n with
  | zero => exact printable_nil
  | succ width ih =>
    have hdigits : Printable hexDigits := by decide
    have hdigit : isPrintable (hexDigits.getD (n % 16) '0') = true := by
      have hlt : n % 16 < hexDigits.length := Nat.mod_lt n (by decide)
      rw [List.getD_eq_getElem?_getD, List.getElem?_eq_getElem hlt]
      exact hdigits _ (List.getElem_mem hlt)
    rw [hex, printable_append, printable_cons]
    exact ⟨ih (n / 16), hdigit, printable_nil⟩

theorem printable_quoteMark (t : Text) : isPrintable (quoteMark t) = true := by
  unfold quoteMark
  split <;> decide

/-- **An escape is printable**, whatever character it stands for. -/
theorem printable_escape {mark : Char} (hmark : isPrintable mark = true) (c : Char) :
    Printable (escape mark c) := by
  have hbackslash : isPrintable '\\' = true := by decide
  fun_cases escape mark c with
  | case1 h =>
    -- the quote itself, or the backslash
    have hc : isPrintable c = true := by
      rcases Bool.or_eq_true_iff.1 h with h | h
      · exact of_decide_eq_true h ▸ hmark
      · exact of_decide_eq_true h ▸ hbackslash
    simp [hc, hbackslash, printable_nil]
  | case2 => decide
  | case3 => decide
  | case4 => decide
  | case5 _ _ _ _ hc => simp [hc, printable_nil]
  | case6 =>
    have hletter : isPrintable 'x' = true := by decide
    simp [hbackslash, hletter, printable_hex 2]
  | case7 =>
    have hletter : isPrintable 'u' = true := by decide
    simp [hbackslash, hletter, printable_hex 4]
  | case8 =>
    have hletter : isPrintable 'U' = true := by decide
    simp [hbackslash, hletter, printable_hex 8]

/-- **A quoted text is printable**, whatever is quoted. -/
theorem printable_quote (t : Text) : Printable (quote t) := by
  have hmark := printable_quoteMark t
  have hbody : Printable (t.flatMap (escape (quoteMark t))) := by
    intro c hc
    obtain ⟨d, -, hd⟩ := List.mem_flatMap.1 hc
    exact printable_escape hmark d c hd
  simp [quote, hmark, hbody, printable_nil]

end Text

/-! ### Strings -/

/-- Every character is printable. -/
def Printable (s : String) : Prop := Text.Printable s.toList

instance (s : String) : Decidable (Printable s) := inferInstanceAs (Decidable (Text.Printable _))

variable {s : String}

@[simp] theorem printable_append {s t : String} :
    Printable (s ++ t) ↔ Printable s ∧ Printable t := by
  unfold Printable
  rw [String.toList_append, Text.printable_append]

@[simp] theorem printable_ofList {t : Text} : Printable (String.ofList t) ↔ Text.Printable t := by
  rw [Printable, String.toList_ofList]

@[simp] theorem printable_repr (n : Nat) : Printable n.repr :=
  printable_ofList.2 (Text.printable_toDigits n)

theorem printable_int (i : Int) : Printable (toString i) := by
  cases i with
  | ofNat n => exact printable_repr n
  | negSucc n =>
    have hminus : Printable "-" := by decide
    exact printable_append.2 ⟨hminus, printable_repr (n + 1)⟩

/-! ### Numbers -/

theorem printable_signChars (negative : Bool) : Text.Printable (signChars negative) := by
  cases negative <;> decide

theorem printable_pointDigits (places n : Nat) : Text.Printable (pointDigits places n) := by
  have hdigits := Text.printable_toDigits
  have hzeros := fun k => Text.printable_replicate k (c := '0') (by decide)
  have hpoint : Text.isPrintable '.' = true := by decide
  simp [pointDigits, padDigits, hdigits, hzeros, hpoint]

theorem printable_fixed (places : Nat) (x : Binary) : Text.Printable (fixed places x) := by
  cases x with
  | nan =>
    change Text.Printable ['n', 'a', 'n']
    decide
  | infinite negative =>
    have hinf : Text.Printable ['i', 'n', 'f'] := by decide
    exact Text.printable_append.2 ⟨printable_signChars negative, hinf⟩
  | finite negative mantissa exponent =>
    exact Text.printable_append.2 ⟨printable_signChars negative, printable_pointDigits places _⟩

theorem Number.printable_brief (n : Number) : Printable n.brief := by
  cases n with
  | int i => exact printable_int i
  | float x => exact printable_ofList.2 (printable_fixed 2 _)

/-! ### Values -/

namespace Value

theorem printable_joined {separator : String} (hseparator : Printable separator)
    {ss : List String} (h : ∀ s ∈ ss, Printable s) : Printable (joined separator ss) := by
  fun_induction joined separator ss with
  | case1 => decide
  | case2 s => exact h s (by simp)
  | case3 s rest _ ih =>
    have hfirst : Printable s := h s (by simp)
    have hrest := ih fun t ht => h t (by simp [ht])
    simp [hseparator, hfirst, hrest]

/-- **A text is printable in the data of an entry**, whatever it holds. -/
theorem printable_briefText (s : String) : Printable (briefText s) := by
  unfold briefText
  split
  · exact printable_ofList.2 (Text.printable_quote s.toList)
  · next h =>
    rw [Bool.not_eq_true, Bool.or_eq_false_iff] at h
    have hall : s.toList.all Text.isPrintable = true := by simpa using h.2
    exact List.all_eq_true.1 hall

mutual

/-- The names in a value, to any depth. -/
def names : Value → List String
  | null | bool _ | number _ | text _ => []
  | list items | tuple items => namesInItems items
  | record fields => namesInFields fields

/-- The names in the items of a list. -/
def namesInItems : List Value → List String
  | [] => []
  | v :: rest => names v ++ namesInItems rest

/-- The names of values, and those in them. -/
def namesInFields : List (String × Value) → List String
  | [] => []
  | (name, v) :: rest => name :: (names v ++ namesInFields rest)

end

mutual

/-- **Values are printable in the data of an entry**, to any depth, if the names in them are. -/
theorem printable_brief (v : Value) (h : ∀ name ∈ v.names, Printable name) :
    Printable (v.brief ⟨false⟩) := by
  have hnothing : Printable "◌" := by decide +kernel
  have hcomma : Printable "," := by decide
  have hspace : Printable " " := by decide
  cases v with
  | null => exact hnothing
  | bool b => cases b <;> decide +kernel
  | number n => exact n.printable_brief
  | text s => exact printable_briefText s
  | list items =>
    cases items with
    | nil => exact hnothing
    | cons v rest => exact printable_joined hcomma (printable_briefItems (v :: rest) h)
  | tuple items =>
    cases items with
    | nil => exact hnothing
    | cons v rest => exact printable_joined hcomma (printable_briefItems (v :: rest) h)
  | record fields =>
    cases fields with
    | nil => exact hnothing
    | cons f rest => exact printable_joined hspace (printable_briefFields (f :: rest) h)

theorem printable_briefItems (items : List Value)
    (h : ∀ name ∈ namesInItems items, Printable name) :
    ∀ s ∈ briefItems ⟨false⟩ items, Printable s := by
  cases items with
  | nil => nofun
  | cons v rest =>
    intro s hs
    rw [briefItems, List.mem_cons] at hs
    rcases hs with rfl | hs
    · exact printable_brief v fun name hname => h name (by simp [namesInItems, hname])
    · have hrest : ∀ name ∈ namesInItems rest, Printable name := fun name hname =>
        h name (by simp [namesInItems, hname])
      exact printable_briefItems rest hrest s hs

theorem printable_briefFields (fields : List (String × Value))
    (h : ∀ name ∈ namesInFields fields, Printable name) :
    ∀ s ∈ briefFields ⟨false⟩ fields, Printable s := by
  cases fields with
  | nil => nofun
  | cons f rest =>
    obtain ⟨name, v⟩ := f
    intro s hs
    rw [briefFields, List.mem_cons] at hs
    rcases hs with rfl | hs
    · have hname : Printable name := h name (by simp [namesInFields])
      have hvalue := printable_brief v fun n hn => h n (by simp [namesInFields, hn])
      have hequals : Printable "=" := by decide
      simp [Palette.bold, Palette.reset, hname, hvalue, hequals]
    · exact printable_briefFields rest (fun n hn => h n (by simp [namesInFields, hn])) s hs

end

end Value

/-! ### Entries -/

/-- One line, with nothing unprintable before its end. -/
def OneLine (s : String) : Prop := ∃ t, s = t ++ "\n" ∧ Printable t

namespace Entry

/-- Everything but the values in the data of an entry is printable. -/
structure Printable (e : Entry) : Prop where
  /-- Where it comes from. -/
  origin : DotFraming.Printable e.origin.plain
  /-- What happened. -/
  message : ∀ m, e.message = some m → DotFraming.Printable m
  /-- The code. -/
  value : DotFraming.Printable e.value.plain
  /-- The names of its data. -/
  names : ∀ name ∈ e.contextValue.names, DotFraming.Printable name

variable {e : Entry}

theorem printable_codeText (h : DotFraming.Printable e.value.plain) :
    DotFraming.Printable e.codeText := by
  have hopen : DotFraming.Printable " [" := by decide
  have hclose : DotFraming.Printable "]" := by decide
  unfold codeText
  split
  · decide
  · simp [h, hopen, hclose]

/-- **An entry is one line**, whatever the values are. -/
theorem oneLine (h : e.Printable) : OneLine (e.line ⟨false⟩) := by
  have hopen : DotFraming.Printable "[" := by decide
  have hclose : DotFraming.Printable "]" := by decide
  have hspace : DotFraming.Printable " " := by decide
  have hmessage : DotFraming.Printable (e.message.getD "None") := by
    cases hm : e.message with
    | none => decide
    | some m => exact h.message m hm
  refine ⟨_, rfl, ?_⟩
  simp [Palette.color, Palette.bold, Palette.reset, hopen, hclose, hspace, hmessage,
    h.origin, printable_codeText h.value, Value.printable_brief _ h.names]

end Entry

/-- Sending an entry writes its line, if entries of its level are written at all. -/
theorem Log.text_send (log : Log) (e : Entry) (p : Palette) :
    (log.send e).text p = log.text p ++ if log.level ≤ e.level then e.line p else "" := by
  unfold Log.text
  rw [Log.entries_send, List.foldl_append]
  split <;> simp

end DotFraming
