import Flowchart.Decimal.Shortest

/-!
# JSON values

Numbers keep the kind in which they were written: whole numbers of 64 bits stay exact, all others
are double precision. Values that are only printed may also hold single precision numbers.

The fields of an object are a list in the order of the text, and a field may occur twice.
`Json.normalize` sorts the fields by name and keeps the last one of each name.
-/

namespace Flowchart

/-- A number of a JSON text. -/
inductive JsonNumber where
  /-- a whole number from zero on -/
  | natural (n : Nat)
  /-- minus a positive whole number -/
  | negative (n : Nat)
  /-- any other number -/
  | double (x : Float)
  /-- a number to be printed with the digits of single precision -/
  | single (x : Float32)
  deriving Inhabited

/-- A JSON value. -/
inductive Json where
  | null
  | bool (b : Bool)
  | number (n : JsonNumber)
  | text (s : String)
  | array (items : List Json)
  | object (fields : List (String × Json))
  deriving Inhabited

namespace Json

/-- A whole number. -/
def ofNat (n : Nat) : Json := .number (.natural n)

/-- A single precision number. -/
def ofFloat32 (x : Float32) : Json := .number (.single x)

/-- A text or nothing. -/
def ofText? : Option String → Json
  | some s => .text s
  | none => .null

/-- A list of texts. -/
def ofTexts (xs : List String) : Json := .array (xs.map .text)

/-- The last field of a given name. -/
def field? (name : String) : List (String × Json) → Option Json
  | [] => none
  | (k, v) :: rest =>
    match field? name rest with
    | some found => some found
    | none => if k == name then some v else none

/-- The value of a field of an object, the last one if the name occurs twice. -/
def get? (name : String) : Json → Option Json
  | .object fields => field? name fields
  | _ => none

/-- Keeps the last field of each name. -/
def lastFields : List (String × Json) → List (String × Json)
  | [] => []
  | (k, v) :: rest =>
    if rest.any (·.1 == k) then lastFields rest else (k, v) :: lastFields rest

/-- Order of the fields of a normal object. -/
def fieldLe (a b : String × Json) : Bool := decide (a.1 ≤ b.1)

mutual

/-- The value with the fields of all objects sorted by name, the last one of each name kept. -/
def normalize : Json → Json
  | .array items => .array (normalizeItems items)
  | .object fields => .object ((lastFields (normalizeFields fields)).mergeSort fieldLe)
  | other => other

/-- Normalizes the items of an array. -/
def normalizeItems : List Json → List Json
  | [] => []
  | v :: rest => normalize v :: normalizeItems rest

/-- Normalizes the values of the fields of an object. -/
def normalizeFields : List (String × Json) → List (String × Json)
  | [] => []
  | (k, v) :: rest => (k, normalize v) :: normalizeFields rest

end

end Json

end Flowchart
