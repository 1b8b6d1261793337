set_option autoImplicit false

namespace RichText

structure Hyperlink where
  url : Option String := none
  /-- A bookmark at the target. -/
  anchor : Option String := none
  title : Option String := none
  target : Option String := none
deriving DecidableEq

namespace Hyperlink

def isSwitch (argument : String) : Bool := argument.startsWith "\\"

/-- The link with the value that follows a switch; of the switches that take no value none says
anything about the link. A switch at the end unsets what it is for. -/
def setSwitch? (link : Hyperlink) (switch : String) (value : Option String) : Option Hyperlink :=
  if switch = "\\l" then some { link with anchor := value }
  else if switch = "\\o" then some { link with title := value }
  else if switch = "\\t" then some { link with target := value }
  else none

/-- The first plain argument is the address, later ones are dropped. -/
def setUrl (link : Hyperlink) (argument : String) : Hyperlink :=
  match link.url with
  | none => { link with url := some argument }
  | some _ => link

def read : Hyperlink → List String → Hyperlink
  | link, [] => link
  | link, [argument] =>
    if isSwitch argument then (link.setSwitch? argument none).getD link
    else link.setUrl argument
  | link, argument :: value :: rest =>
    if isSwitch argument then
      match link.setSwitch? argument (some value) with
      | some link => read link rest
      | none => read link (value :: rest)
    else read (link.setUrl argument) (value :: rest)

def ofArguments (arguments : List String) : Hyperlink := read {} arguments

def href? (link : Hyperlink) : Option String :=
  match link.url, link.anchor with
  | some url, some anchor => some (url ++ "#" ++ anchor)
  | some url, none => some url
  | none, some anchor => some ("#" ++ anchor)
  | none, none => none

end Hyperlink

structure Bookmark where
  start : Bool
  id : Option String
deriving DecidableEq

end RichText
