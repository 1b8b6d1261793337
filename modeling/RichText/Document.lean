import RichText.Token
import RichText.Font
import RichText.Text.Hexadecimal
set_option autoImplicit false

namespace RichText

structure Color where
  red : UInt8
  green : UInt8
  blue : UInt8
deriving DecidableEq

def Color.css (c : Color) : String :=
  String.ofList ('#' :: [c.red, c.green, c.blue].flatMap Text.hexPair)

structure ListLevel where
  tokens : List Token := []
deriving DecidableEq

structure ListStyle where
  levels : List ListLevel := []
deriving DecidableEq

def ListStyle.level? (style : ListStyle) (number : UInt64) : Option ListLevel :=
  style.levels[number.toNat]?

structure ListStyles where
  entries : List (Int32 × ListStyle) := []
deriving DecidableEq

namespace ListStyles

def insertInto (id : Int32) (style : ListStyle) :
    List (Int32 × ListStyle) → List (Int32 × ListStyle)
  | [] => [(id, style)]
  | e :: es => if e.1 = id then (id, style) :: es else e :: insertInto id style es

def insert (styles : ListStyles) (id : Int32) (style : ListStyle) : ListStyles :=
  ⟨insertInto id style styles.entries⟩

def get? (styles : ListStyles) (id : Int32) : Option ListStyle :=
  (styles.entries.find? (fun e => e.1 = id)).map Prod.snd

/-- Of entries with one id the last is kept. -/
def ofList (entries : List (Int32 × ListStyle)) : ListStyles :=
  entries.foldl (fun styles e => styles.insert e.1 e.2) {}

end ListStyles

/-- A parsed document. Nothing in it changes while it is interpreted. -/
structure Document where
  contents : List Token := []
  fonts : FontTable := {}
  /-- A colour may be left to the reader; by convention the first is. -/
  colors : List (Option Color) := []
  listStyles : ListStyles := {}
  hasHtml : Bool := false
deriving DecidableEq

def Document.color? (doc : Document) (index : UInt64) : Option Color :=
  (doc.colors[index.toNat]?).join

structure RenderSettings where
  /-- Pictures are put into the page as data; otherwise they are left out. -/
  embedPictures : Bool := true
  /-- The page is put into a `div` with the default font. -/
  wrapInDiv : Bool := true
  emitBookmarks : Bool := true
deriving DecidableEq

end RichText
