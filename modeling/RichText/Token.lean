import RichText.Property
import RichText.Number.Length
set_option autoImplicit false

/-!
Tokens: the tree that a document is made of.

A token is an atom or a group of tokens. Every atom has a category, by which a walk decides what
to do with it. Main statements: equality of tokens is decidable, and `nodes` counts the tokens of
a tree, so that a walk over it can be seen to end.
-/
namespace RichText

inductive Destination where
  | fieldInstructions | fieldResult | picture | bookmarkStart | bookmarkEnd | header | footer
  /-- The marker of a list item as plain text, for readers that know no lists. -/
  | listTextFallback
  | numberingTextFallback
  /-- Literal markup of the document that was encapsulated. -/
  | htmlTag
  | other (name : String)
deriving DecidableEq

namespace Destination

/-- Literal markup also counts as formatting: it is recorded in the style, so that a writer can
tell it from text. -/
def category : Destination → Category
  | .header | .footer => .destination ∪ .headerTag
  | .htmlTag => .destination ∪ .format
  | _ => .destination

def isHeader (d : Destination) : Bool := d.category.contains .headerTag

end Destination

structure ControlWord where
  name : String
  value : Option Int32 := none
deriving DecidableEq

inductive Atom where
  | text (s : String)
  | destination (d : Destination)
  /-- What follows may be dropped if it is not understood. -/
  | ignoreUnrecognized
  | unrecognized (w : ControlWord)
  /-- Fences off what an encapsulated document does not need (`true`), or ends that. -/
  | htmlRtf (on : Bool)
  | binary (bytes : List UInt8)
  | defaultFontRef (id : Int32)
  | defaultTabWidth (width : Twips)
  | headerDistance (distance : Twips)
  | footerDistance (distance : Twips)
  | breakMark (kind : BreakKind)
  /-- Clears the character formatting. -/
  | plainText
  | bold (on : Bool)
  | italic (on : Bool)
  | underline (on : Bool)
  | strike (on : Bool)
  | hidden (on : Bool)
  | fontRef (id : Int32)
  | fontSize (halfPoints : UInt16)
  | foregroundColor (index : UInt64)
  | backgroundColor (index : UInt64)
  | script (position : ScriptPosition)
  /-- Clears the paragraph formatting. -/
  | paragraphDefault
  | inTable
  | alignment (align : TextAlign)
  | leftIndent (width : Twips)
  | rightIndent (width : Twips)
  | firstLineIndent (width : Twips)
  | spaceBefore (height : Twips)
  | spaceAfter (height : Twips)
  | listStyleId (id : Int32)
  | listLevelNumber (level : UInt64)
  | numberingType (numbering : NumberingType)
  /-- Marks a group that describes the numbering of a paragraph by itself. -/
  | paragraphNumbering
  | borderPosition (side : BorderSide)
  | borderStyle (style : BorderStyle)
  | borderWidth (width : Twips)
  | borderColor (index : UInt64)
  | borderSpacing (width : Twips)
  | cellVerticalAlign (align : VerticalAlign)
  | cellBackground (index : UInt64)
  | cellMergeFirst
  | cellMerge
  | rightCellBoundary (position : Twips)
  /-- Opens a table row and clears the row and cell formatting. -/
  | rowDefaults
  | rowHeight (height : Twips)
  | rowLeftOffset (offset : Twips)
  | pictureFormat (format : PictureFormat)
  | pictureWidth (width : Int32)
  | pictureHeight (height : Int32)
  | pictureGoalWidth (width : Twips)
  | pictureGoalHeight (height : Twips)
deriving DecidableEq

def Atom.category : Atom → Category
  | .text _ => .text
  | .destination d => d.category
  | .ignoreUnrecognized | .unrecognized _ | .htmlRtf _ | .paragraphNumbering => .none
  | .binary _ | .pictureFormat _ | .pictureWidth _ | .pictureHeight _ | .pictureGoalWidth _
  | .pictureGoalHeight _ => .picture
  | .defaultFontRef _ | .defaultTabWidth _ => .document
  | .headerDistance _ | .footerDistance _ => .headerTag
  | .breakMark _ => .breakTag
  | .plainText | .bold _ | .italic _ | .underline _ | .strike _ | .hidden _ | .fontRef _
  | .fontSize _ | .foregroundColor _ | .backgroundColor _ | .script _ => .characterFormat
  | .paragraphDefault | .inTable | .alignment _ | .leftIndent _ | .rightIndent _
  | .firstLineIndent _ | .spaceBefore _ | .spaceAfter _ | .listStyleId _ | .listLevelNumber _
  | .numberingType _ => .paragraphFormat
  | .borderPosition side => side.category
  | .borderStyle _ | .borderWidth _ | .borderColor _ | .borderSpacing _ => .borderProperty
  | .cellVerticalAlign _ | .cellBackground _ | .cellMergeFirst | .cellMerge
  | .rightCellBoundary _ => .cellFormat
  | .rowDefaults | .rowHeight _ | .rowLeftOffset _ => .rowFormat

inductive Token where
  | atom (a : Atom)
  | group (contents : List Token)

namespace Token

mutual

def decEq : (t u : Token) → Decidable (t = u)
  | .atom a, .atom b => decidable_of_iff (a = b) (by simp)
  | .group ts, .group us =>
    match decEqList ts us with
    | isTrue h => isTrue (by rw [h])
    | isFalse h => isFalse (by simpa using h)
  | .atom _, .group _ => isFalse (by simp)
  | .group _, .atom _ => isFalse (by simp)

def decEqList : (ts us : List Token) → Decidable (ts = us)
  | [], [] => isTrue rfl
  | [], _ :: _ => isFalse (by simp)
  | _ :: _, [] => isFalse (by simp)
  | t :: ts, u :: us =>
    match decEq t u, decEqList ts us with
    | isTrue h, isTrue h' => isTrue (by rw [h, h'])
    | isFalse h, _ => isFalse (by simp [h])
    | _, isFalse h => isFalse (by simp [h])

end

instance : DecidableEq Token := decEq

@[match_pattern] abbrev text (s : String) : Token := .atom (.text s)

def category : Token → Category
  | .atom a => a.category
  | .group _ => .group

def isFormat (t : Token) : Bool := t.category.contains .format

def isUnrecognized : Token → Bool
  | .atom (.unrecognized _) => true
  | _ => false

def text? : Token → Option String
  | .atom (.text s) => some s
  | _ => none

def group? : Token → Option (List Token)
  | .group contents => some contents
  | _ => none

def isRowBreak (t : Token) : Bool := t = .atom (.breakMark .row)

/-- A row break ends a table row, and so does a group that directly holds one. -/
def endsRow : Token → Bool
  | .atom a => a = .breakMark .row
  | .group contents => contents.any isRowBreak

mutual

def nodes : Token → Nat
  | .atom _ => 1
  | .group contents => nodesOfList contents + 1

def nodesOfList : List Token → Nat
  | [] => 0
  | t :: ts => t.nodes + nodesOfList ts

end

theorem nodes_pos (t : Token) : 0 < t.nodes := by
  cases t <;> simp [nodes]

theorem nodesOfList_append (ts us : List Token) :
    nodesOfList (ts ++ us) = nodesOfList ts + nodesOfList us := by
  induction ts with
  | nil => simp [nodesOfList]
  | cons t ts ih => simp only [List.cons_append, nodesOfList, ih]; omega

theorem nodesOfList_le_of_suffix {ts us : List Token} (h : ts <:+ us) :
    nodesOfList ts ≤ nodesOfList us := by
  obtain ⟨before, rfl⟩ := h
  rw [nodesOfList_append]; omega

end Token

end RichText
