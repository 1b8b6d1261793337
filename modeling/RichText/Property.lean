import RichText.Category
set_option autoImplicit false

namespace RichText

/-- A type given by the list of its values and a name for each; names are told apart. -/
class Enumeration (α : Type) where
  all : List α
  name : α → String
  find_name : ∀ a, all.find? (fun b => name b == name a) = some a

namespace Enumeration

variable {α : Type} [Enumeration α]

def ofName? (s : String) : Option α := (all : List α).find? (fun b => name b == s)

@[simp] theorem ofName?_name (a : α) : ofName? (name a) = some a := find_name a

end Enumeration

/-- The kinds of break. A tab is one of them, and is the only one that comes in runs. -/
inductive BreakKind where
  | paragraph | line | page | section | cell | row | tab
deriving DecidableEq

instance : Enumeration BreakKind where
  all := [.paragraph, .line, .page, .section, .cell, .row, .tab]
  name
    | .paragraph => "Paragraph"
    | .line => "Line"
    | .page => "Page"
    | .section => "Section"
    | .cell => "Cell"
    | .row => "Row"
    | .tab => "Tab"
  find_name a := by cases a <;> rfl

inductive TextAlign where
  | left | center | right | justify
deriving DecidableEq

instance : Enumeration TextAlign where
  all := [.left, .center, .right, .justify]
  name
    | .left => "Left"
    | .center => "Center"
    | .right => "Right"
    | .justify => "Justify"
  find_name a := by cases a <;> rfl

inductive ScriptPosition where
  | baseline | superscript | subscript
deriving DecidableEq

instance : Enumeration ScriptPosition where
  all := [.baseline, .superscript, .subscript]
  name
    | .baseline => "Baseline"
    | .superscript => "Superscript"
    | .subscript => "Subscript"
  find_name a := by cases a <;> rfl

inductive NumberingType where
  | bullet | decimal | lowerAlpha | upperAlpha | lowerRoman | upperRoman | none
deriving DecidableEq

instance : Enumeration NumberingType where
  all := [.bullet, .decimal, .lowerAlpha, .upperAlpha, .lowerRoman, .upperRoman, .none]
  name
    | .bullet => "Bullet"
    | .decimal => "Decimal"
    | .lowerAlpha => "LowerAlpha"
    | .upperAlpha => "UpperAlpha"
    | .lowerRoman => "LowerRoman"
    | .upperRoman => "UpperRoman"
    | .none => "None"
  find_name a := by cases a <;> rfl

def NumberingType.isOrdered : NumberingType → Bool
  | .bullet | .none => false
  | _ => true

/-- The edge that a border is on. Paragraph edges and cell edges are told apart, since a border on
a cell edge is formatting of that cell. -/
inductive BorderSide where
  | top | bottom | left | right | between | box | cellTop | cellBottom | cellLeft | cellRight
deriving DecidableEq

instance : Enumeration BorderSide where
  all := [.top, .bottom, .left, .right, .between, .box, .cellTop, .cellBottom, .cellLeft, .cellRight]
  name
    | .top => "Top"
    | .bottom => "Bottom"
    | .left => "Left"
    | .right => "Right"
    | .between => "Between"
    | .box => "Box"
    | .cellTop => "CellTop"
    | .cellBottom => "CellBottom"
    | .cellLeft => "CellLeft"
    | .cellRight => "CellRight"
  find_name a := by cases a <;> rfl

def BorderSide.isCell : BorderSide → Bool
  | .cellTop | .cellBottom | .cellLeft | .cellRight => true
  | _ => false

def BorderSide.category (side : BorderSide) : Category :=
  if side.isCell then .cellFormat else .paragraphFormat

inductive BorderStyle where
  | none | single | thick | double | dotted | dashed
deriving DecidableEq

instance : Enumeration BorderStyle where
  all := [.none, .single, .thick, .double, .dotted, .dashed]
  name
    | .none => "None"
    | .single => "Single"
    | .thick => "Thick"
    | .double => "Double"
    | .dotted => "Dotted"
    | .dashed => "Dashed"
  find_name a := by cases a <;> rfl

inductive VerticalAlign where
  | top | center | bottom
deriving DecidableEq

instance : Enumeration VerticalAlign where
  all := [.top, .center, .bottom]
  name
    | .top => "Top"
    | .center => "Center"
    | .bottom => "Bottom"
  find_name a := by cases a <;> rfl

inductive PictureFormat where
  | png | jpeg | emf | wmf | bmp
deriving DecidableEq

instance : Enumeration PictureFormat where
  all := [.png, .jpeg, .emf, .wmf, .bmp]
  name
    | .png => "Png"
    | .jpeg => "Jpeg"
    | .emf => "Emf"
    | .wmf => "Wmf"
    | .bmp => "Bmp"
  find_name a := by cases a <;> rfl

def PictureFormat.mediaType : PictureFormat → String
  | .png => "image/png"
  | .jpeg => "image/jpeg"
  | .emf => "image/emf"
  | .wmf => "image/wmf"
  | .bmp => "image/bmp"

inductive FontFamily where
  | nil | roman | swiss | modern | script | decor | tech | bidi
deriving DecidableEq

instance : Enumeration FontFamily where
  all := [.nil, .roman, .swiss, .modern, .script, .decor, .tech, .bidi]
  name
    | .nil => "Nil"
    | .roman => "Roman"
    | .swiss => "Swiss"
    | .modern => "Modern"
    | .script => "Script"
    | .decor => "Decor"
    | .tech => "Tech"
    | .bidi => "Bidi"
  find_name a := by cases a <;> rfl

def FontFamily.generic? : FontFamily → Option String
  | .roman => some "serif"
  | .swiss => some "sans-serif"
  | .modern => some "monospace"
  | .script => some "cursive"
  | .decor => some "fantasy"
  | .nil | .tech | .bidi => none

end RichText
