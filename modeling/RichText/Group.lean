import RichText.Token
set_option autoImplicit false

namespace RichText.Group

/-- The destination of a group: its first token, or its second when the first allows the group to
be dropped. -/
def destination? : List Token → Option Destination
  | .atom (.destination d) :: _ => some d
  | .atom .ignoreUnrecognized :: .atom (.destination d) :: _ => some d
  | _ => none

def texts (contents : List Token) : List String := contents.filterMap Token.text?

def groups (contents : List Token) : List (List Token) := contents.filterMap Token.group?

/-- The group may be dropped if not understood, and opens with a word that is not. -/
def isIgnorable : List Token → Bool
  | .atom .ignoreUnrecognized :: .atom (.unrecognized _) :: _ => true
  | _ => false

def describesNumbering (contents : List Token) : Bool :=
  contents.any (fun t => t = .atom .paragraphNumbering)

def paragraphFormats (contents : List Token) : List Token :=
  contents.filter (fun t => t.category = .paragraphFormat)

def isHeader (contents : List Token) : Bool :=
  match destination? contents with
  | some d => d.isHeader
  | none => false

end RichText.Group
