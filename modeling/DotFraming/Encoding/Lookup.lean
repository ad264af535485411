import DotFraming.Fault

/-!
# Encodings asked for by name

* `Encoding.ofName` : the encoding that a written name stands for, or why there is none.
* `ofName_eq_ok_iff` : it is found exactly if the name is one and has no null character in it.
-/

namespace DotFraming

namespace Encoding

/-- The encoding that a written name stands for. A null character is no part of any name. -/
def ofName (name : String) : Except Fault Encoding :=
  if name.toList.contains '\x00' then .error .nullInEncoding
  else
    match named? name with
    | some e => .ok e
    | none => .error (.unknownEncoding name)

theorem ofName_eq_ok_iff {name : String} {e : Encoding} :
    ofName name = .ok e ↔ '\x00' ∉ name.toList ∧ named? name = some e := by
  unfold ofName
  by_cases h : '\x00' ∈ name.toList
  · simp [h]
  · cases hn : named? name <;> simp [h]

end Encoding

end DotFraming
