import DotFraming.Text
import Mathlib.Data.List.Infix

/-!
# Cutting a text into lines

A line reaches to the first place where the characters so far end with the line ending. If the line
ending overlaps itself or reaches into a line, that place may come sooner than meant.

* `IsLine`, `Lines` : a single line, and all lines of a text.
* `Lines.unique` : **there is one way to cut a text into lines.**
* `lines_of_not_mem` : **lines that were put together are the lines of the whole** if the last
  character of the line ending occurs in none of them. The line ending may overlap itself.
* `Lines.first` : what a line looks like, and where it stops.
* `Lines.suffix_of_borderless` : **the last line of a text is whole** if the text ends with the line
  ending and this does not overlap itself.
-/

namespace DotFraming

variable {eol t u v l : Text}

/-- The text `u` is one line: it ends with the line ending, and nothing shorter in front does. -/
structure IsLine (eol u : Text) : Prop where
  /-- It ends with the line ending. -/
  ends : eol <:+ u
  /-- Nothing shorter does. -/
  shortest : ∀ y, y <+: u → eol <:+ y → y = u

theorem IsLine.ne_nil (h : IsLine eol u) (heol : eol ≠ []) : u ≠ [] := by
  rintro rfl
  exact heol (List.suffix_nil.1 h.ends)

theorem IsLine.append_inj {u' v' : Text} (h : IsLine eol u) (h' : IsLine eol u')
    (huv : u ++ v = u' ++ v') : u = u' ∧ v = v' := by
  have hu : u = u' := by
    rcases List.append_eq_append_iff.1 huv with ⟨x, hx, -⟩ | ⟨x, hx, -⟩
    · exact h'.shortest u ⟨x, hx.symm⟩ h.ends
    · exact (h.shortest u' ⟨x, hx.symm⟩ h'.ends).symm
  exact ⟨hu, List.append_cancel_left (hu ▸ huv)⟩

/-- A text cut into its lines. What stands after the last line ending is a line too, if there is
anything. -/
inductive Lines (eol : Text) : Text → List Text → Prop where
  /-- No line. -/
  | nil : Lines eol [] []
  /-- A line without a line ending. -/
  | last {t : Text} (ne : t ≠ []) (none : ∀ y, y <+: t → ¬eol <:+ y) : Lines eol t [t]
  /-- A line, and the lines after it. -/
  | cons {u v : Text} {ls : List Text} (head : IsLine eol u) (tail : Lines eol v ls) :
      Lines eol (u ++ v) (u :: ls)

namespace Lines

variable {ls ls' : List Text}

theorem flatten_eq (h : Lines eol t ls) : ls.flatten = t := by
  induction h with
  | nil => rfl
  | last => simp
  | cons _ _ ih => rw [List.flatten_cons, ih]

theorem eq_nil_of_nil (heol : eol ≠ []) (h : Lines eol [] ls) : ls = [] := by
  generalize ht : ([] : Text) = t at h
  cases h with
  | nil => rfl
  | last ne => exact absurd ht.symm ne
  | cons head => exact absurd (List.append_eq_nil_iff.1 ht.symm).1 (head.ne_nil heol)

/-- **There is one way to cut a text into lines.** -/
theorem unique (heol : eol ≠ []) (h : Lines eol t ls) (h' : Lines eol t ls') : ls = ls' := by
  induction h generalizing ls' with
  | nil => exact (h'.eq_nil_of_nil heol).symm
  | last ne none =>
    cases h' with
    | nil => exact absurd rfl ne
    | last => rfl
    | cons head => exact absurd head.ends (none _ (List.prefix_append _ _))
  | @cons u v _ head tail ih =>
    generalize ht : u ++ v = t at h'
    cases h' with
    | nil => exact absurd (List.append_eq_nil_iff.1 ht).1 (head.ne_nil heol)
    | last _ none => exact absurd head.ends (none u (ht ▸ List.prefix_append _ _))
    | cons head' tail' =>
      obtain ⟨rfl, rfl⟩ := head.append_inj head' ht
      rw [ih tail']

end Lines

/-! ### Lines that were put together -/

/-- If the last character of the line ending does not occur before it, nothing shorter ends with the
line ending: it has too few of these characters. -/
theorem isLine_of_not_mem (heol : eol ≠ []) (h : eol.getLast heol ∉ l) : IsLine eol (l ++ eol) := by
  refine ⟨List.suffix_append _ _, fun y hy hend => ?_⟩
  obtain ⟨x, hx⟩ := hy
  rcases List.eq_nil_or_concat x with rfl | ⟨x, d, rfl⟩
  · rwa [List.append_nil] at hx
  · -- `y` is within `l ++ eol.dropLast`, in which the character is missing once
    exfalso
    have hsplit : l ++ eol.dropLast ++ [eol.getLast heol] = y ++ x ++ [d] := by
      rw [List.append_assoc, List.dropLast_concat_getLast, List.append_assoc, ← hx]
      simp
    have hy : y ++ x = l ++ eol.dropLast := (List.append_inj' hsplit rfl).1.symm
    have hle : eol.count (eol.getLast heol) ≤ (l ++ eol.dropLast).count (eol.getLast heol) :=
      (hend.sublist.trans (hy ▸ List.sublist_append_left y x)).count_le _
    have heq := congrArg (List.count (eol.getLast heol)) (List.dropLast_concat_getLast heol)
    rw [List.count_append, List.count_singleton_self] at heq
    rw [List.count_append, List.count_eq_zero_of_not_mem h] at hle
    omega

/-- **Lines that were put together are the lines of the whole.** -/
theorem lines_of_not_mem (heol : eol ≠ []) {ls : List Text}
    (h : ∀ l ∈ ls, eol.getLast heol ∉ l) :
    Lines eol (ls.flatMap (· ++ eol)) (ls.map (· ++ eol)) := by
  induction ls with
  | nil => exact .nil
  | cons l ls ih =>
    exact .cons (isLine_of_not_mem heol (h l (by simp))) (ih fun x hx => h x (by simp [hx]))


/-! ### What lines look like -/

/-- The line ending stands nowhere in a text but at its end. -/
def OnlyAtEnd (eol l : Text) : Prop := ∀ x y, l = x ++ eol ++ y → y = []

theorem IsLine.onlyAtEnd (h : IsLine eol l) : OnlyAtEnd eol l := by
  rintro x y rfl
  have hend : x ++ eol = x ++ eol ++ y :=
    h.shortest (x ++ eol) (List.prefix_append _ _) (List.suffix_append _ _)
  exact List.self_eq_append_right.1 hend

/-- No part of a text in front is its end as well, other than the whole text. -/
def Borderless (t : Text) : Prop := ∀ p, p ≠ [] → p <+: t → p <:+ t → p = t

instance (t : Text) : Decidable (Borderless t) :=
  decidable_of_iff (∀ p ∈ t.inits, p ≠ [] → p <:+ t → p = t)
    ⟨fun h p hne hp hs => h p ((List.mem_inits p t).2 hp) hne hs,
      fun h p hp hne hs => h p hne ((List.mem_inits p t).1 hp) hs⟩

/-- If a line ending has no border, what stands behind a line and makes a text end with the line
ending ends with it too. -/
theorem IsLine.suffix_of_append (h : IsLine eol u) (hborder : Borderless eol) (hv : v ≠ [])
    (hend : eol <:+ u ++ v) : eol <:+ v := by
  rcases Nat.lt_or_ge v.length eol.length with hlt | hle
  · -- else the line ending would reach from the end of `u` over `v`
    exfalso
    obtain ⟨p, hp⟩ : v <:+ eol :=
      List.suffix_of_suffix_length_le (List.suffix_append u v) hend (Nat.le_of_lt hlt)
    obtain ⟨x, hx⟩ := hend
    have hu : x ++ p = u := by
      rw [← hp, ← List.append_assoc] at hx
      exact List.append_cancel_right hx
    have hne : p ≠ [] := by
      rintro rfl
      rw [← hp, List.nil_append] at hlt
      exact Nat.lt_irrefl _ hlt
    have hpre : p <+: eol := ⟨v, hp⟩
    have hsuf : p <:+ eol := List.suffix_of_suffix_length_le ⟨x, hu⟩ h.ends hpre.length_le
    rw [hborder p hne hpre hsuf] at hp
    exact hv (List.self_eq_append_right.1 hp.symm)
  · exact List.suffix_of_suffix_length_le hend (List.suffix_append u v) hle

namespace Lines

variable {ls before after : List Text}

theorem ne_nil (heol : eol ≠ []) (h : Lines eol t ls) : ∀ l ∈ ls, l ≠ [] := by
  induction h with
  | nil => simp
  | last ne => simpa using ne
  | cons head _ ih => simpa using ⟨head.ne_nil heol, ih⟩

theorem of_append (h : Lines eol t (before ++ ls)) : Lines eol ls.flatten ls := by
  induction before generalizing t with
  | nil => exact h.flatten_eq ▸ h
  | cons b before ih =>
    generalize hls : b :: before ++ ls = all at h
    cases h with
    | nil => cases hls
    | last =>
      obtain ⟨-, hnil⟩ := List.cons.inj hls
      obtain ⟨-, rfl⟩ := List.append_eq_nil_iff.1 hnil
      exact .nil
    | cons _ tail =>
      obtain ⟨-, rfl⟩ := List.cons.inj hls
      exact ih tail

/-- The first line ends with the line ending unless it is the last one; it has the line ending
nowhere else; and no shorter part of the text in front ends with the line ending. -/
theorem first (h : Lines eol t (l :: after)) :
    (after ≠ [] → eol <:+ l) ∧ OnlyAtEnd eol l ∧ ∀ y, y <+: t → eol <:+ y → l <+: y := by
  cases h with
  | last _ none =>
    refine ⟨fun hne => absurd rfl hne, fun x y hxy => ?_, fun y hy hend => absurd hend (none y hy)⟩
    exact absurd (List.suffix_append x eol) (none _ ⟨y, hxy.symm⟩)
  | cons head =>
    refine ⟨fun _ => head.ends, head.onlyAtEnd, fun y hy hend => ?_⟩
    rcases List.prefix_or_prefix_of_prefix hy (List.prefix_append l _) with hyl | hly
    · exact head.shortest y hyl hend ▸ List.prefix_refl y
    · exact hly

/-- If a text ends with a line ending that has no border, all of its lines do. -/
theorem suffix_of_borderless (heol : eol ≠ []) (h : Lines eol t ls) (hborder : Borderless eol)
    (hend : eol <:+ t) : ∀ l ∈ ls, eol <:+ l := by
  induction h with
  | nil => simp
  | last _ none => exact absurd hend (none _ (List.prefix_refl _))
  | @cons u v ls head tail ih =>
    intro l hl
    rcases List.mem_cons.1 hl with rfl | hl
    · exact head.ends
    · have hv : v ≠ [] := by
        rintro rfl
        rw [tail.eq_nil_of_nil heol] at hl
        cases hl
      exact ih (head.suffix_of_append hborder hv hend) l hl

end Lines

end DotFraming
