import Flowchart.Json.Value
import Flowchart.Text.Blank

/-!
# Reading typed values

Settings are records. A record is written as an object, in any order and with unknown fields
between, or as an array of its fields in their declared order. A field occurs at most once. Whether
a record may be cut short when it is an array is up to the record; in an object every field may be
missing.
-/

namespace Flowchart.Json

/-! ## Single values -/

/-- The text of a string. -/
def text? : Json → Option String
  | .text s => some s
  | _ => none

/-- A truth value. -/
def bool? : Json → Option Bool
  | .bool b => some b
  | _ => none

/-- A whole number from zero on. -/
def count? : Json → Option Nat
  | .number (.natural n) => some n
  | _ => none

/-- The single precision number nearest to a number. -/
def float32? : Json → Option Float32
  | .number (.natural n) => some (Float32.ofNat n)
  | .number (.negative n) => some (-(Float32.ofNat n))
  | .number (.double x) => some x.toFloat32
  | .number (.single x) => some x
  | _ => none

/-! ## Fields -/

/-- The values of all fields of a given name. -/
def valuesOf (name : String) (fields : List (String × Json)) : List Json :=
  (fields.filter (·.1 == name)).map Prod.snd

/-- The value of a field, if it is present; it must not occur twice. -/
def single? (name : String) (fields : List (String × Json)) : Option (Option Json) :=
  match valuesOf name fields with
  | [] => some none
  | [v] => some (some v)
  | _ => none

/-- The fields of a record in their declared order. `short` tells whether an array may leave out
fields at its end. -/
def record? (names : List String) (short : Bool) : Json → Option (List (Option Json))
  | .object fields => names.mapM fun name => single? name fields
  | .array items =>
    if items.length == names.length || (short && items.length < names.length) then
      some (items.map some ++ List.replicate (names.length - items.length) none)
    else none
  | _ => none

/-- A field that may be missing or null. -/
def optional {β : Type} (read : Json → Option β) : Option Json → Option (Option β)
  | none | some .null => some none
  | some v => (read v).map some

/-- A field that may be missing, in which case a default stands for it. -/
def defaulted {β : Type} (default : β) (read : Json → Option β) : Option Json → Option β
  | none => some default
  | some v => read v

end Flowchart.Json
