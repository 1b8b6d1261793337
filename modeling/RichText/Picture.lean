import RichText.Token
import RichText.Text.Base64
import RichText.Text.Hexadecimal
set_option autoImplicit false

/-!
Pictures: the properties and the payload of a picture group.

The payload is what binary tokens hold, in order, followed by the bytes spelled in hexadecimal by
all texts of the group together, so that a pair of digits may be cut by a token boundary.
-/
namespace RichText

/-- A picture. Goal sizes are lengths, native sizes are in the units of the format. -/
structure Picture where
  format : Option PictureFormat := none
  width : Option Int32 := none
  height : Option Int32 := none
  goalWidth : Option Twips := none
  goalHeight : Option Twips := none
  data : List UInt8 := []
deriving DecidableEq

namespace Picture

def describe (picture : Picture) : Token → Picture
  | .atom (.pictureFormat format) => { picture with format := some format }
  | .atom (.pictureWidth width) => { picture with width := some width }
  | .atom (.pictureHeight height) => { picture with height := some height }
  | .atom (.pictureGoalWidth width) => { picture with goalWidth := some width }
  | .atom (.pictureGoalHeight height) => { picture with goalHeight := some height }
  | _ => picture

def binary : Token → List UInt8
  | .atom (.binary bytes) => bytes
  | _ => []

def spelling : Token → List Char
  | .atom (.text s) => s.toList
  | _ => []

def payload (contents : List Token) : List UInt8 :=
  contents.flatMap binary ++ Text.decodeHex (contents.flatMap spelling)

def ofGroup (contents : List Token) : Picture :=
  { contents.foldl describe {} with data := payload contents }

def mediaType (picture : Picture) : String :=
  match picture.format with
  | some format => format.mediaType
  | none => "application/octet-stream"

def dataUri (picture : Picture) : String :=
  "data:" ++ picture.mediaType ++ ";base64," ++ String.ofList (Text.Base64.encode picture.data)

end Picture

end RichText
