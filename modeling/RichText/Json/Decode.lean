import RichText.Json.Value
import RichText.Property
set_option autoImplicit false

/-!
Reading typed values out of JSON.

A reader takes a budget: how many containers may still be opened around what it reads. A container
that a record has no field for is not opened. Records may be given as objects or as arrays of
their fields in order; keys that a record does not know are passed over.
-/
namespace RichText.Json

def maxDepth : Nat := 127

/-- Reads one value of a type within a budget. -/
abbrev Reader (α : Type) := Nat → Json → Option α

def readBool : Reader Bool
  | _, .bool b => some b
  | _, _ => none

def readText : Reader String := fun _ value => value.text?

def int32Of? (n : Int) : Option Int32 :=
  if -2147483648 ≤ n ∧ n < 2147483648 then some (Int32.ofInt n) else none

def readInt32 : Reader Int32 := fun _ value => value.integer?.bind int32Of?

def naturalBelow? (bound : Nat) (value : Json) : Option Nat :=
  value.integer?.bind fun n => if 0 ≤ n ∧ n < bound then some n.toNat else none

def readUInt8 : Reader UInt8 := fun _ value =>
  (naturalBelow? 256 value).map UInt8.ofNat

def readUInt16 : Reader UInt16 := fun _ value =>
  (naturalBelow? 65536 value).map UInt16.ofNat

def readUInt64 : Reader UInt64 := fun _ value =>
  (naturalBelow? 18446744073709551616 value).map UInt64.ofNat

def readOption {α : Type} (read : Reader α) : Reader (Option α)
  | _, .null => some none
  | depth, value => (read depth value).map some

def readList {α : Type} (read : Reader α) : Reader (List α)
  | depth + 1, .array items => items.mapM (read depth)
  | _, _ => none

def keyText? (key : List Char) : Option String := (unescape? key).map String.ofList

/-- A choice between alternatives: a name alone, or an object with the name as its only key and
the payload of the alternative. An alternative without payload may have null for one. -/
def readChoice {α : Type} (ofName? : String → Option α)
    (readPayload : String → Reader α) : Reader α
  | _, .string raw => (keyText? raw).bind ofName?
  | depth + 1, .object [(key, payload)] =>
    match keyText? key, payload with
    | some name, .null => ofName? name
    | some name, payload => readPayload name depth payload
    | none, _ => none
  | _, _ => none

def readEnumeration {α : Type} [Enumeration α] : Reader α :=
  readChoice Enumeration.ofName? (fun _ _ _ => none)

/-- The value under a key: `some none` if it is missing, `none` if it is repeated. -/
def field? (members : List (String × Json)) (name : String) : Option (Option Json) :=
  match members.filter (fun m => m.1 = name) with
  | [] => some none
  | [m] => some (some m.2)
  | _ => none

/-- The fields of a record in order, missing ones as `none`. An array may end early and may not
have more items than the record has fields. -/
def fields? (names : List String) : Json → Option (List (Option Json))
  | .object members => do
    let members ← members.mapM fun (key, value) => (keyText? key).map (·, value)
    names.mapM (field? members)
  | .array items =>
    if items.length ≤ names.length then
      some (items.map some ++ List.replicate (names.length - items.length) none)
    else none
  | _ => none

def readRecord {α : Type} (names : List String) (build : Nat → List (Option Json) → Option α) :
    Reader α
  | depth + 1, value => (fields? names value).bind (build depth)
  | 0, _ => none

def required {α : Type} (read : Reader α) (depth : Nat) (field : Option Json) : Option α :=
  field.bind (read depth)

def optional {α : Type} (default : α) (read : Reader α) (depth : Nat) (field : Option Json) :
    Option α :=
  match field with
  | some value => read depth value
  | none => some default

def ofBool (b : Bool) : Json := .bool b

def ofOption {α : Type} (write : α → Json) : Option α → Json
  | some a => write a
  | none => .null

def ofEnumeration {α : Type} [Enumeration α] (a : α) : Json := ofText (Enumeration.name a)

def ofInt32 (n : Int32) : Json := ofInt n.toInt

def ofNat (n : Nat) : Json := ofInt n

theorem keyText?_escape (s : String) : keyText? (escape s.toList) = some s := by
  simp [keyText?, unescape?_escape]

theorem readEnumeration_ofEnumeration {α : Type} [Enumeration α] (depth : Nat) (a : α) :
    readEnumeration depth (ofEnumeration a) = some a := by
  simp [readEnumeration, ofEnumeration, ofText, readChoice, keyText?_escape]

end RichText.Json
