import RichText.Json.Decode
import RichText.Kind
set_option autoImplicit false

/-!
Tokens in JSON.

An atom is a choice: its name, with its payload if it has one. A group is the one choice that
holds tokens again, and opens three containers around them: the choice, the group and its list.
-/
namespace RichText

open Json

namespace Destination

def plain : List Destination :=
  [.fieldInstructions, .fieldResult, .picture, .bookmarkStart, .bookmarkEnd, .header, .footer,
   .listTextFallback, .numberingTextFallback, .htmlTag]

def name : Destination → String
  | .fieldInstructions => "FieldInstructions"
  | .fieldResult => "FieldResult"
  | .picture => "Picture"
  | .bookmarkStart => "BookmarkStart"
  | .bookmarkEnd => "BookmarkEnd"
  | .header => "Header"
  | .footer => "Footer"
  | .listTextFallback => "ListTextFallback"
  | .numberingTextFallback => "NumberingTextFallback"
  | .htmlTag => "HtmlTag"
  | .other _ => "Other"

def ofJson? : Reader Destination :=
  readChoice (fun s => plain.find? (fun d => d.name = s)) fun name depth payload =>
    if name = "Other" then (readText depth payload).map .other else none

def toJson (d : Destination) : Json :=
  match d with
  | .other s => ofMembers [(d.name, ofText s)]
  | d => ofText d.name

theorem ofJson?_ofText (depth : Nat) (s : String) :
    ofJson? depth (ofText s) = plain.find? (fun d => d.name = s) := by
  rw [ofJson?, ofText, readChoice, keyText?_escape, Option.bind_some]

theorem ofJson?_toJson (depth : Nat) (d : Destination) :
    ofJson? (depth + 1) d.toJson = some d := by
  cases d with
  | other s =>
    rw [toJson, ofMembers, List.map_cons, List.map_nil, ofJson?]
    simp only [readChoice, keyText?_escape, name, ofText, if_true]
    rw [← ofText, readText, text?_ofText, Option.map_some]
  | _ => rw [toJson, ofJson?_ofText] <;> first | rfl | simp

end Destination

namespace ControlWord

def ofJson? : Reader ControlWord :=
  readRecord ["name", "value"] fun depth fields =>
    match fields with
    | [name, value] => do
      let name ← required readText depth name
      let value ← optional none (readOption readInt32) depth value
      return { name := name, value := value }
    | _ => none

def toJson (w : ControlWord) : Json :=
  ofMembers [("name", ofText w.name), ("value", ofOption ofInt32 w.value)]

end ControlWord

namespace Atom

/-- The name of an atom: that of its kind, but the two merge marks are told apart and a border
position does not give its side. -/
def name (a : Atom) : String :=
  match a with
  | .cellMergeFirst => "CellMergeFirst"
  | .borderPosition _ => "BorderPosition"
  | a => a.kind.label

def plain : List Atom :=
  [.ignoreUnrecognized, .plainText, .paragraphDefault, .inTable, .paragraphNumbering,
   .cellMergeFirst, .cellMerge, .rowDefaults]

def readPayload (name : String) (depth : Nat) (payload : Json) : Option Atom :=
  match name with
  | "Text" => (readText depth payload).map .text
  | "Destination" => (Destination.ofJson? depth payload).map .destination
  | "Unrecognized" => (ControlWord.ofJson? depth payload).map .unrecognized
  | "HtmlRtf" => (readBool depth payload).map .htmlRtf
  | "Binary" => (readList readUInt8 depth payload).map .binary
  | "DefaultFontRef" => (readInt32 depth payload).map .defaultFontRef
  | "DefaultTabWidth" => (readInt32 depth payload).map .defaultTabWidth
  | "HeaderDistance" => (readInt32 depth payload).map .headerDistance
  | "FooterDistance" => (readInt32 depth payload).map .footerDistance
  | "Break" => (readEnumeration depth payload).map .breakMark
  | "Bold" => (readBool depth payload).map .bold
  | "Italic" => (readBool depth payload).map .italic
  | "Underline" => (readBool depth payload).map .underline
  | "Strike" => (readBool depth payload).map .strike
  | "Hidden" => (readBool depth payload).map .hidden
  | "FontRef" => (readInt32 depth payload).map .fontRef
  | "FontSize" => (readUInt16 depth payload).map .fontSize
  | "ForegroundColor" => (readUInt64 depth payload).map .foregroundColor
  | "BackgroundColor" => (readUInt64 depth payload).map .backgroundColor
  | "Script" => (readEnumeration depth payload).map .script
  | "Alignment" => (readEnumeration depth payload).map .alignment
  | "LeftIndent" => (readInt32 depth payload).map .leftIndent
  | "RightIndent" => (readInt32 depth payload).map .rightIndent
  | "FirstLineIndent" => (readInt32 depth payload).map .firstLineIndent
  | "SpaceBefore" => (readInt32 depth payload).map .spaceBefore
  | "SpaceAfter" => (readInt32 depth payload).map .spaceAfter
  | "ListStyleId" => (readInt32 depth payload).map .listStyleId
  | "ListLevelNumber" => (readUInt64 depth payload).map .listLevelNumber
  | "NumberingType" => (readEnumeration depth payload).map .numberingType
  | "BorderPosition" => (readEnumeration depth payload).map .borderPosition
  | "BorderStyle" => (readEnumeration depth payload).map .borderStyle
  | "BorderWidth" => (readInt32 depth payload).map .borderWidth
  | "BorderColor" => (readUInt64 depth payload).map .borderColor
  | "BorderSpacing" => (readInt32 depth payload).map .borderSpacing
  | "CellVerticalAlign" => (readEnumeration depth payload).map .cellVerticalAlign
  | "CellBackground" => (readUInt64 depth payload).map .cellBackground
  | "RightCellBoundary" => (readInt32 depth payload).map .rightCellBoundary
  | "RowHeight" => (readInt32 depth payload).map .rowHeight
  | "RowLeftOffset" => (readInt32 depth payload).map .rowLeftOffset
  | "PictureFormat" => (readEnumeration depth payload).map .pictureFormat
  | "PictureWidth" => (readInt32 depth payload).map .pictureWidth
  | "PictureHeight" => (readInt32 depth payload).map .pictureHeight
  | "PictureGoalWidth" => (readInt32 depth payload).map .pictureGoalWidth
  | "PictureGoalHeight" => (readInt32 depth payload).map .pictureGoalHeight
  | _ => none

def ofJson? : Reader Atom :=
  readChoice (fun s => plain.find? (fun a => a.name = s)) readPayload

def payload? : Atom → Option Json
  | .ignoreUnrecognized | .plainText | .paragraphDefault | .inTable | .paragraphNumbering
  | .cellMergeFirst | .cellMerge | .rowDefaults => none
  | .text x => some (ofText x)
  | .destination x => some (x.toJson)
  | .unrecognized x => some (x.toJson)
  | .htmlRtf x => some (ofBool x)
  | .binary bytes => some (.array (bytes.map fun b => ofNat b.toNat))
  | .defaultFontRef x => some (ofInt32 x)
  | .defaultTabWidth x => some (ofInt32 x)
  | .headerDistance x => some (ofInt32 x)
  | .footerDistance x => some (ofInt32 x)
  | .breakMark x => some (ofEnumeration x)
  | .bold x => some (ofBool x)
  | .italic x => some (ofBool x)
  | .underline x => some (ofBool x)
  | .strike x => some (ofBool x)
  | .hidden x => some (ofBool x)
  | .fontRef x => some (ofInt32 x)
  | .fontSize x => some (ofNat x.toNat)
  | .foregroundColor x => some (ofNat x.toNat)
  | .backgroundColor x => some (ofNat x.toNat)
  | .script x => some (ofEnumeration x)
  | .alignment x => some (ofEnumeration x)
  | .leftIndent x => some (ofInt32 x)
  | .rightIndent x => some (ofInt32 x)
  | .firstLineIndent x => some (ofInt32 x)
  | .spaceBefore x => some (ofInt32 x)
  | .spaceAfter x => some (ofInt32 x)
  | .listStyleId x => some (ofInt32 x)
  | .listLevelNumber x => some (ofNat x.toNat)
  | .numberingType x => some (ofEnumeration x)
  | .borderPosition x => some (ofEnumeration x)
  | .borderStyle x => some (ofEnumeration x)
  | .borderWidth x => some (ofInt32 x)
  | .borderColor x => some (ofNat x.toNat)
  | .borderSpacing x => some (ofInt32 x)
  | .cellVerticalAlign x => some (ofEnumeration x)
  | .cellBackground x => some (ofNat x.toNat)
  | .rightCellBoundary x => some (ofInt32 x)
  | .rowHeight x => some (ofInt32 x)
  | .rowLeftOffset x => some (ofInt32 x)
  | .pictureFormat x => some (ofEnumeration x)
  | .pictureWidth x => some (ofInt32 x)
  | .pictureHeight x => some (ofInt32 x)
  | .pictureGoalWidth x => some (ofInt32 x)
  | .pictureGoalHeight x => some (ofInt32 x)

def toJson (a : Atom) : Json :=
  match a.payload? with
  | some payload => ofMembers [(a.name, payload)]
  | none => ofText a.name

end Atom

namespace Token

/-- What is given as a group: the items of its contents, `some none` if they are left out. -/
def groupItems? : Json → Option (Option Json)
  | .object [(key, body)] =>
    if keyText? key = some "Group" then
      match fields? ["contents"] body with
      | some [contents] => some contents
      | _ => none
    else none
  | _ => none

/-- Reads a token; every group takes three containers off the budget. -/
def ofJson? (depth : Nat) (value : Json) : Option Token :=
  match groupItems? value with
  | some (some (.array items)) =>
    match depth with
    | inner + 3 => (items.mapM (fun item => ofJson? inner item)).map .group
    | _ => none
  | some (some _) => none
  | some none => if 2 ≤ depth then some (.group []) else none
  | none => (Atom.ofJson? depth value).map .atom

mutual

def toJson : Token → Json
  | .atom a => a.toJson
  | .group contents => ofMembers [("Group", ofMembers [("contents", .array (listToJson contents))])]

def listToJson : List Token → List Json
  | [] => []
  | t :: ts => t.toJson :: listToJson ts

end

def groupOfJson? : Reader (List Token) :=
  readRecord ["contents"] fun depth fields =>
    match fields with
    | [contents] => optional [] (readList ofJson?) depth contents
    | _ => none

end Token

end RichText
