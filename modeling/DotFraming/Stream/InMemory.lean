import DotFraming.Source.Memory
import DotFraming.Source.Pushback

/-!
# Text in memory as a stream

* `InMemory` : a text that is read from front to back. Line endings are left as they are.
-/

namespace DotFraming

/-- A text that is read from front to back. -/
structure InMemory where
  /-- What has not been read yet. -/
  rest : Text
  deriving DecidableEq, Repr

namespace InMemory

/-- Cuts off up to `size` characters, all if `size` is negative. -/
def read (size : Int) : Action InMemory Text := fun s =>
  match Memory.cut size s.rest with
  | .ok (front, rest) => .ok front ⟨rest⟩
  | .error e => .error e s

/-- Text in memory is always ready and has no descriptor. -/
instance : TextStream InMemory where
  read := read
  ready? _ := none
  readable? _ := none
  remaining s := s.rest.length
  remaining_read s := by
    change (s.rest.drop 1).length ≤ s.rest.length
    simp
  remaining_read_cons {s s' c t} h := by
    change EStateM.Result.ok (s.rest.take 1) (InMemory.mk (s.rest.drop 1)) = _ at h
    cases hr : s.rest <;> simp_all
    simp [← h.2]

end InMemory

/-- A source over a text in memory. -/
def Pushback.ofText (t : Text) : Pushback InMemory := { stream := ⟨t⟩ }

end DotFraming
