import DotFraming.Source

/-!
# Reading from what is in memory

* `Memory.fits` : the sizes that anything in memory can have.
* `Memory.cut` : the first entries of a list, as many as are asked for, and the others. By
  `Memory.append_of_cut` they make up the list.
-/

namespace DotFraming

namespace Memory

/-- The greatest size, that of a signed number of 64 bits. -/
def greatest : Int := 0x7fffffffffffffff

/-- Whether a size can be asked for. -/
def fits (size : Int) : Bool := -greatest - 1 ≤ size && size ≤ greatest

/-- The first entries of a list, up to `size` of them or all if `size` is negative, and the
others. -/
def cut {α : Type} (size : Int) (xs : List α) : Except Fault (List α × List α) :=
  if fits size then
    .ok (if size < 0 then (xs, []) else (xs.take size.toNat, xs.drop size.toNat))
  else .error .sizeOutOfRange

theorem append_of_cut {α : Type} {size : Int} {xs front back : List α}
    (h : cut size xs = .ok (front, back)) : front ++ back = xs := by
  unfold cut at h
  split at h
  · split at h <;> cases h
    · exact List.append_nil _
    · exact List.take_append_drop _ _
  · cases h

theorem length_of_cut {α : Type} {size : Int} {xs front back : List α}
    (h : cut size xs = .ok (front, back)) : back.length + front.length = xs.length := by
  rw [← append_of_cut h, List.length_append, Nat.add_comm]

end Memory

end DotFraming
