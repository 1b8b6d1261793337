import RichText.Group
import RichText.Hyperlink
set_option autoImplicit false

/-!
Fields: the instruction text of a field, its arguments, and what the groups of fields and
bookmarks say.

Arguments are separated by blanks outside double quotes; the quotes themselves are dropped, and a
quote that is not closed runs to the end.
-/
namespace RichText

namespace Text

/-- The characters with the property White_Space. -/
def isBlank (c : Char) : Bool :=
  let n := c.toNat
  (9 ≤ n && n ≤ 13) || n == 0x20 || n == 0x85 || n == 0xA0 || n == 0x1680
    || (0x2000 ≤ n && n ≤ 0x200A) || n == 0x2028 || n == 0x2029 || n == 0x202F || n == 0x205F
    || n == 0x3000

def trimChars (s : List Char) : List Char :=
  ((s.dropWhile isBlank).reverse.dropWhile isBlank).reverse

def trim? (s : String) : Option String :=
  match trimChars s.toList with
  | [] => none
  | cs => some (String.ofList cs)

end Text

namespace Field

/-- The text of a field's instruction. Usually it stands in a nested group without destination,
of which the last one with text counts, by its first text. Otherwise a group of three tokens
without any group may hold it as its third. -/
def instruction? (contents : List Token) : Option String :=
  let nested := (Group.groups contents).filter (fun g => (Group.destination? g).isNone)
  let texts := nested.filterMap (fun g => (Group.texts g).head?)
  match texts.getLast?.bind Text.trim? with
  | some text => some text
  | none =>
    match contents with
    | [.atom _, .atom _, .atom (.text s)] => Text.trim? s
    | _ => none

/-- Splits a text after what was read of it: the characters of the current argument, last one
first, if there is one. -/
def split : Bool → Option (List Char) → List Char → List (List Char)
  | _, current, [] => (current.map List.reverse).toList
  | inQuotes, current, c :: cs =>
    if c = '"' then split (!inQuotes) (some (current.getD [])) cs
    else if Text.isBlank c && !inQuotes then
      (current.map List.reverse).toList ++ split false none cs
    else split inQuotes (some (c :: current.getD [])) cs

def arguments (text : String) : List String := (split false none text.toList).map String.ofList

def keyword : String := "HYPERLINK"

def hyperlink? (contents : List Token) : Option Hyperlink :=
  match (instruction? contents).map arguments with
  | some (word :: rest) => if word = keyword then some (Hyperlink.ofArguments rest) else none
  | _ => none

def bookmark (contents : List Token) (start : Bool) : Bookmark :=
  ⟨start, (Group.texts contents).head?.bind Text.trim?⟩

end Field

end RichText
