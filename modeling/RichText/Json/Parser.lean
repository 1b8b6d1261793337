import RichText.Json.Lexeme
set_option autoImplicit false

/-!
Reading a JSON text: one pass over its lexemes with a stack of the containers that are open, so
the depth of nesting is not limited here.
-/
namespace RichText.Json

inductive Frame where
  | array (items : List Json)
  /-- The key is the one whose value is being read. -/
  | object (members : List (List Char × Json)) (key : List Char)

inductive Expectation where
  | value
  /-- The first item of an array, or its end. -/
  | itemOrEnd
  /-- The first key of an object, or its end. -/
  | keyOrEnd
  | key (members : List (List Char × Json))
  | colon (members : List (List Char × Json)) (key : List Char)
  | after (value : Json)

def Lexeme.begins? : Lexeme → Option Expectation
  | .leftBracket => some .itemOrEnd
  | .leftBrace => some .keyOrEnd
  | .null => some (.after .null)
  | .bool b => some (.after (.bool b))
  | .number lexeme => some (.after (.number lexeme))
  | .string raw => some (.after (.string raw))
  | .rightBracket | .rightBrace | .comma | .colon => none

/-- Reads lexemes until the outermost value is complete and nothing is left. -/
def readFrom : Expectation → List Frame → List Lexeme → Option Json
  | .after value, [], [] => some value
  | .after value, .array items :: stack, .comma :: rest =>
    readFrom .value (.array (value :: items) :: stack) rest
  | .after value, .array items :: stack, .rightBracket :: rest =>
    readFrom (.after (.array (value :: items).reverse)) stack rest
  | .after value, .object members key :: stack, .comma :: rest =>
    readFrom (.key ((key, value) :: members)) stack rest
  | .after value, .object members key :: stack, .rightBrace :: rest =>
    readFrom (.after (.object ((key, value) :: members).reverse)) stack rest
  | .itemOrEnd, stack, .rightBracket :: rest => readFrom (.after (.array [])) stack rest
  | .itemOrEnd, stack, lexeme :: rest =>
    match lexeme.begins? with
    | some next => readFrom next (.array [] :: stack) rest
    | none => none
  | .keyOrEnd, stack, .rightBrace :: rest => readFrom (.after (.object [])) stack rest
  | .keyOrEnd, stack, .string key :: rest => readFrom (.colon [] key) stack rest
  | .key members, stack, .string key :: rest => readFrom (.colon members key) stack rest
  | .colon members key, stack, .colon :: rest =>
    readFrom .value (.object members key :: stack) rest
  | .value, stack, lexeme :: rest =>
    match lexeme.begins? with
    | some next => readFrom next stack rest
    | none => none
  | _, _, _ => none

def parse? (s : String) : Option Json :=
  match Lexeme.ofChars s.toList with
  | some lexemes => readFrom .value [] lexemes
  | none => none

end RichText.Json
