import RichText.Document
import RichText.Style
set_option autoImplicit false

/-!
CSS declarations for what styles, cells and borders say.

Paragraph and span declarations come in the order of the style's entries; borders of a paragraph
and the text decoration come last.
-/
namespace RichText.Html

inductive Property where
  | textAlign | marginLeft | marginRight | textIndent | marginTop | marginBottom
  | border | borderTop | borderBottom | borderLeft | borderRight
  | fontWeight | fontStyle | fontFamily | fontSize | color | backgroundColor | verticalAlign
  | textDecoration | listStyleType | width | height | display | borderCollapse | pageBreakAfter
deriving DecidableEq

def Property.name : Property → String
  | .textAlign => "text-align"
  | .marginLeft => "margin-left"
  | .marginRight => "margin-right"
  | .textIndent => "text-indent"
  | .marginTop => "margin-top"
  | .marginBottom => "margin-bottom"
  | .border => "border"
  | .borderTop => "border-top"
  | .borderBottom => "border-bottom"
  | .borderLeft => "border-left"
  | .borderRight => "border-right"
  | .fontWeight => "font-weight"
  | .fontStyle => "font-style"
  | .fontFamily => "font-family"
  | .fontSize => "font-size"
  | .color => "color"
  | .backgroundColor => "background-color"
  | .verticalAlign => "vertical-align"
  | .textDecoration => "text-decoration"
  | .listStyleType => "list-style-type"
  | .width => "width"
  | .height => "height"
  | .display => "display"
  | .borderCollapse => "border-collapse"
  | .pageBreakAfter => "page-break-after"

structure Declaration where
  property : Property
  value : String
deriving DecidableEq

def Declaration.text (d : Declaration) : String := d.property.name ++ ":" ++ d.value

def cssText (css : List Declaration) : String := ";".intercalate (css.map Declaration.text)

def alignName : TextAlign → String
  | .left => "left"
  | .center => "center"
  | .right => "right"
  | .justify => "justify"

def verticalName : VerticalAlign → String
  | .top => "top"
  | .center => "middle"
  | .bottom => "bottom"

def listMarker : NumberingType → String
  | .bullet => "disc"
  | .decimal => "decimal"
  | .lowerAlpha => "lower-alpha"
  | .upperAlpha => "upper-alpha"
  | .lowerRoman => "lower-roman"
  | .upperRoman => "upper-roman"
  | .none => "none"

def fontFamilies (font : Font) : String :=
  match font.family.generic? with
  | some generic => "'" ++ font.name ++ "', " ++ generic
  | none => "'" ++ font.name ++ "'"

def fontDeclaration (font : Font) : Declaration := ⟨.fontFamily, fontFamilies font⟩

def defaultBorderWidth : Twips := 15

/-- The width to draw: at least one twip, and twice as much for a thick border. -/
def borderWidth (b : Border) : Twips :=
  let width := max 1 (b.width.getD defaultBorderWidth).toInt
  Twips.clamp (if b.style = some .thick then 2 * width else width)

def borderLine (b : Border) : String :=
  match b.style with
  | some .double => "double"
  | some .dotted => "dotted"
  | some .dashed => "dashed"
  | _ => "solid"

def borderValue (doc : Document) (b : Border) : String :=
  let color := (b.color.bind doc.color?).elim "black" Color.css
  points (borderWidth b) ++ " " ++ borderLine b ++ " " ++ color

def borderDeclaration? (doc : Document) (property : Property) (b : Option Border) :
    Option Declaration :=
  match b with
  | some b => if b.isVisible then some ⟨property, borderValue doc b⟩ else none
  | none => none

def paragraphBorders : List (BorderSide × Property) :=
  [(.box, .border), (.top, .borderTop), (.bottom, .borderBottom), (.left, .borderLeft),
   (.right, .borderRight)]

def cellBorders : List (BorderSide × Property) :=
  [(.cellTop, .borderTop), (.cellBottom, .borderBottom), (.cellLeft, .borderLeft),
   (.cellRight, .borderRight)]

def paragraphDeclaration? : Entry → Option Declaration
  | .atom (.alignment align) => some ⟨.textAlign, alignName align⟩
  | .atom (.leftIndent width) => some ⟨.marginLeft, points width⟩
  | .atom (.rightIndent width) => some ⟨.marginRight, points width⟩
  | .atom (.firstLineIndent width) => some ⟨.textIndent, points width⟩
  | .atom (.spaceBefore height) => some ⟨.marginTop, points height⟩
  | .atom (.spaceAfter height) => some ⟨.marginBottom, points height⟩
  | _ => none

def paragraphCss (doc : Document) (style : Style) : List Declaration :=
  style.entries.filterMap paragraphDeclaration?
    ++ paragraphBorders.filterMap (fun (side, property) =>
      borderDeclaration? doc property (style.border? side))

/-- What an entry declares for a run of text. The default font need not be named. -/
def spanDeclaration? (doc : Document) (defaultFont : Option Font) : Entry → Option Declaration
  | .atom (.bold true) => some ⟨.fontWeight, "bold"⟩
  | .atom (.italic true) => some ⟨.fontStyle, "italic"⟩
  | .atom (.fontRef id) =>
    let font := doc.fonts.get? id
    if font = defaultFont then none else font.map fontDeclaration
  | .atom (.fontSize size) => some ⟨.fontSize, Number.halfPointsText size ++ "pt"⟩
  | .atom (.foregroundColor index) => (doc.color? index).map fun c => ⟨.color, c.css⟩
  | .atom (.backgroundColor index) => (doc.color? index).map fun c => ⟨.backgroundColor, c.css⟩
  | .atom (.script .superscript) => some ⟨.verticalAlign, "super"⟩
  | .atom (.script .subscript) => some ⟨.verticalAlign, "sub"⟩
  | _ => none

def decoration? : Entry → Option String
  | .atom (.underline true) => some "underline"
  | .atom (.strike true) => some "line-through"
  | _ => none

def decorationCss (style : Style) : List Declaration :=
  match style.entries.filterMap decoration? with
  | [] => []
  | lines => [⟨.textDecoration, " ".intercalate lines⟩]

def spanCss (doc : Document) (defaultFont : Option Font) (style : Style) : List Declaration :=
  style.entries.filterMap (spanDeclaration? doc defaultFont) ++ decorationCss style

def cellCss (doc : Document) (chain : CellChain) : List Declaration :=
  let cell := chain.last
  (chain.width?.map fun w => ⟨.width, points w⟩).toList
    ++ ((cell.background.bind doc.color?).map fun c => ⟨.backgroundColor, c.css⟩).toList
    ++ (cell.verticalAlign.map fun a => ⟨.verticalAlign, verticalName a⟩).toList
    ++ cellBorders.filterMap (fun (side, property) =>
      borderDeclaration? doc property (cell.border? side))

/-- The declarations of a table row. A negative height is an exact one. -/
def rowCss (style : Style) : List Declaration :=
  match style.find? .rowHeight with
  | some (.atom (.rowHeight height)) =>
    if height = 0 then [] else [⟨.height, points (Twips.clamp height.toInt.natAbs)⟩]
  | _ => []

end RichText.Html
