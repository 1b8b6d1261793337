import RichText.Token.Json
import RichText.Document
import RichText.Json.Parser
set_option autoImplicit false

namespace RichText

open Json

namespace Font

def ofJson? : Reader Font :=
  readRecord ["id", "name", "family"] fun depth fields =>
    match fields with
    | [id, name, family] => do
      let id ← required readInt32 depth id
      let name ← required readText depth name
      let family ← optional .nil readEnumeration depth family
      return { id := id, name := name, family := family }
    | _ => none

def toJson (font : Font) : Json :=
  ofMembers [("id", ofInt32 font.id), ("name", ofText font.name),
    ("family", ofEnumeration font.family)]

end Font

namespace FontTable

/-- A table is read as it is, fonts of one id included. -/
def ofJson? : Reader FontTable := fun depth value =>
  (readList Font.ofJson? depth value).map fun fonts => { fonts := fonts }

def toJson (table : FontTable) : Json := .array (table.fonts.map Font.toJson)

end FontTable

namespace Color

def ofJson? : Reader Color :=
  readRecord ["red", "green", "blue"] fun depth fields =>
    match fields with
    | [red, green, blue] => do
      let red ← required readUInt8 depth red
      let green ← required readUInt8 depth green
      let blue ← required readUInt8 depth blue
      return { red := red, green := green, blue := blue }
    | _ => none

def toJson (c : Color) : Json :=
  ofMembers [("red", ofNat c.red.toNat), ("green", ofNat c.green.toNat),
    ("blue", ofNat c.blue.toNat)]

end Color

namespace ListLevel

def ofJson? : Reader ListLevel :=
  readRecord ["tokens"] fun depth fields =>
    match fields with
    | [tokens] =>
      (optional [] (readList Token.ofJson?) depth tokens).map fun tokens => { tokens := tokens }
    | _ => none

def toJson (level : ListLevel) : Json :=
  ofMembers [("tokens", .array (Token.listToJson level.tokens))]

end ListLevel

namespace ListStyle

def ofJson? : Reader ListStyle :=
  readRecord ["levels"] fun depth fields =>
    match fields with
    | [levels] =>
      (optional [] (readList ListLevel.ofJson?) depth levels).map fun levels =>
        { levels := levels }
    | _ => none

def toJson (style : ListStyle) : Json :=
  ofMembers [("levels", .array (style.levels.map ListLevel.toJson))]

end ListStyle

namespace ListStyles

/-- Ids are keys, spelled as integers are; of a repeated id the last entry is kept. -/
def ofJson? : Reader ListStyles
  | depth + 1, .object members => do
    let entries ← members.mapM fun (key, value) => do
      let id ← (integerOf? key).bind int32Of?
      let style ← ListStyle.ofJson? depth value
      return (id, style)
    return ofList entries
  | _, _ => none

def toJson (styles : ListStyles) : Json :=
  ofMembers (styles.entries.map fun (id, style) => (toString id.toInt, style.toJson))

end ListStyles

namespace Document

def ofJson? : Reader Document :=
  readRecord ["contents", "fonts", "colors", "list_styles", "has_html"] fun depth fields =>
    match fields with
    | [contents, fonts, colors, listStyles, hasHtml] => do
      let contents ← required (readList Token.ofJson?) depth contents
      let fonts ← optional {} FontTable.ofJson? depth fonts
      let colors ← optional [] (readList (readOption Color.ofJson?)) depth colors
      let listStyles ← optional {} ListStyles.ofJson? depth listStyles
      let hasHtml ← optional false readBool depth hasHtml
      return {
        contents := contents
        fonts := fonts
        colors := colors
        listStyles := listStyles
        hasHtml := hasHtml }
    | _ => none

def toJson (doc : Document) : Json :=
  ofMembers [("contents", .array (Token.listToJson doc.contents)), ("fonts", doc.fonts.toJson),
    ("colors", .array (doc.colors.map (ofOption Color.toJson))),
    ("list_styles", doc.listStyles.toJson), ("has_html", ofBool doc.hasHtml)]

def parse? (s : String) : Option Document := (Json.parse? s).bind (ofJson? maxDepth)

def write (doc : Document) : String := doc.toJson.write

end Document

namespace RenderSettings

def ofJson? : Reader RenderSettings :=
  readRecord ["embed_pictures", "wrap_in_div", "emit_bookmarks"] fun depth fields =>
    match fields with
    | [embedPictures, wrapInDiv, emitBookmarks] => do
      let embedPictures ← optional true readBool depth embedPictures
      let wrapInDiv ← optional true readBool depth wrapInDiv
      let emitBookmarks ← optional true readBool depth emitBookmarks
      return {
        embedPictures := embedPictures
        wrapInDiv := wrapInDiv
        emitBookmarks := emitBookmarks }
    | _ => none

def toJson (settings : RenderSettings) : Json :=
  ofMembers [("embed_pictures", ofBool settings.embedPictures),
    ("wrap_in_div", ofBool settings.wrapInDiv),
    ("emit_bookmarks", ofBool settings.emitBookmarks)]

end RenderSettings

end RichText
