set_option autoImplicit false

/-!
Paths: texts whose parts are separated by slashes.

Empty parts and parts that are a single dot say nothing, unless they come first. Operations work
on the text, so that what they do not touch stays as it was written.
-/
namespace RichText

structure Path where
  text : String
deriving DecidableEq

namespace Path

def split : List Char → List (List Char)
  | [] => [[]]
  | c :: rest =>
    if c = '/' then [] :: split rest
    else
      match split rest with
      | part :: parts => (c :: part) :: parts
      | [] => [[c]]

def join : List (List Char) → List Char
  | [] => []
  | [part] => part
  | part :: parts => part ++ '/' :: join parts

def parts (path : Path) : List (List Char) := split path.text.toList

def ofParts (parts : List (List Char)) : Path := ⟨String.ofList (join parts)⟩

def isIdle (part : List Char) : Bool := part = [] || part = ['.']

/-- The parts without idle ones at the end. The first part stays: it tells an absolute path, or
where a relative one starts. -/
def trimParts : List (List Char) → List (List Char)
  | [] => []
  | first :: rest => first :: (rest.reverse.dropWhile isIdle).reverse

def splitLast (path : Path) : List (List Char) × List Char :=
  let parts := trimParts path.parts
  (parts.dropLast, parts.getLastD [])

def isName (part : List Char) : Bool := !isIdle part && part ≠ ['.', '.']

def fileName? (path : Path) : Option (List Char) :=
  let last := path.splitLast.2
  if isName last then some last else none

/-- The name without its extension. A dot in front does not begin an extension. -/
def stem (name : List Char) : List Char :=
  match (name.reverse.dropWhile (· ≠ '.')).tail.reverse with
  | [] => name
  | before => before

def withExtension (path : Path) (extension : String) : Path :=
  let (front, last) := path.splitLast
  if isName last then ofParts (front ++ [stem last ++ '.' :: extension.toList]) else path

/-- The directory that the path is in, if there can be one. The parent of a single name is the
empty path. -/
def parent? (path : Path) : Option Path :=
  match path.splitLast with
  | ([], []) => none
  | ([], _) => some ⟨""⟩
  | (front, _) =>
    match trimParts front with
    | [[]] => some ⟨"/"⟩
    | parts => some (ofParts parts)

def child (directory : Path) (name : List Char) : Path :=
  let text := directory.text.toList
  if text = [] || text.getLast? = some '/' then ⟨String.ofList (text ++ name)⟩
  else ⟨String.ofList (text ++ '/' :: name)⟩

def prefixes : List (List Char) → List (List (List Char))
  | [] => []
  | part :: parts => [part] :: (prefixes parts).map (part :: ·)

/-- The path and the directories that lead to it by name, outermost first. -/
def lineage (path : Path) : List Path :=
  ((prefixes (trimParts path.parts)).map ofParts).filter (fun p => p.text ≠ "")

end Path

end RichText
