/-
EventWire.Json.Form — the documents that stand for values.

`JsonForm α` pairs the document of a value with the reading of one. The forms of the library's types
are built from a few general ones:

* integers within a range, texts, lists, and null for an absent value;
* structures, as objects with one member for each field. They are read from lists of all fields
  in order too. Members with other names are passed over; a field must not come twice.
* variants, as objects with the variant's name for their only member.
-/
import EventWire.Json

namespace EventWire

/-- A way to write values as documents and to read them. -/
class JsonForm (α : Type) where
  toJson : α → Json
  ofJson? : Json → Option α

export JsonForm (toJson ofJson?)

namespace Json

/-- An integer from `low` up to `high`. -/
def intWithin? (low high : Int) : Json → Option Int
  | number n => do
    let i ← n.toInt?
    if low ≤ i ∧ i ≤ high then some i else none
  | _ => none

instance : JsonForm Bool where
  toJson := bool
  ofJson?
    | bool b => some b
    | _ => none

instance : JsonForm String where
  toJson := text
  ofJson?
    | string s => s
    | _ => none

instance : JsonForm UInt8 where
  toJson v := int v.toNat
  ofJson? document := (intWithin? 0 0xff document).map fun i => .ofNat i.toNat

instance : JsonForm UInt32 where
  toJson v := int v.toNat
  ofJson? document := (intWithin? 0 0xffffffff document).map fun i => .ofNat i.toNat

instance : JsonForm Int16 where
  toJson v := int v.toInt
  ofJson? document := (intWithin? (-0x8000) 0x7fff document).map .ofInt

instance : JsonForm Int32 where
  toJson v := int v.toInt
  ofJson? document := (intWithin? (-0x80000000) 0x7fffffff document).map .ofInt

/-- Sizes have 64 bits. -/
instance : JsonForm Nat where
  toJson n := int n
  ofJson? document := (intWithin? 0 0xffffffffffffffff document).map Int.toNat

instance {α : Type} [JsonForm α] : JsonForm (List α) where
  toJson items := array (items.map toJson)
  ofJson?
    | array items => items.mapM ofJson?
    | _ => none

instance {α : Type} [JsonForm α] : JsonForm (Option α) where
  toJson
    | some x => toJson x
    | none => null
  ofJson?
    | null => some none
    | document => (ofJson? document).map some

/-- The values of the members with a given name. -/
def valuesOf (name : String) (members : List (Literal × Json)) : List Json :=
  (members.filter (·.1 = some name)).map (·.2)

/-- The value of a structure's field; `absent` stands for a member that is not there. -/
def fieldValue? (members : List (Literal × Json)) (absent : Option Json) (name : String) :
    Option Json :=
  match valuesOf name members with
  | [] => absent
  | [value] => some value
  | _ => none

/-- The values of a structure's fields, in the order of the names given. Every member's name has to
be a text. -/
def fields? (names : List String) (absent : Option Json) : Json → Option (List Json)
  | object members =>
    if members.all (·.1.isSome) then names.mapM (fieldValue? members absent) else none
  | array items => if items.length = names.length then some items else none
  | _ => none

/-- A variant with one value. -/
def variant (name : String) (value : Json) : Json := record [(name, value)]

/-- The name and value of a variant. -/
def variant? : Json → Option (String × Json)
  | object [(some name, value)] => some (name, value)
  | _ => none

end Json

end EventWire
