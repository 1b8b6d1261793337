import RichText.Html.Markup
import RichText.Event
set_option autoImplicit false

/-!
Pages: events written as HTML with inline CSS.

A page opens what content needs as it comes: a table with a row and a cell, or a list; then a
block, which is a paragraph or a list item; then a link and a span. Paragraph properties come from
the first content of the paragraph. A link stays open across consecutive runs that share its
address, and a span across runs with the same declarations.
-/
namespace RichText.Html

inductive Block where
  | paragraph
  | listItem
deriving DecidableEq

structure ListMembership where
  numbering : NumberingType
  styleId : Int32
  level : UInt64
deriving DecidableEq

structure OpenTable where
  rowOpen : Bool := false
  cellOpen : Bool := false
  cellIndex : Nat := 0
deriving DecidableEq

structure Page where
  out : Array Markup := #[]
  defaultFont : Option Font := none
  /-- The width of a tab, half an inch unless the document says otherwise. -/
  tabWidth : Twips := 720
  table : Option OpenTable := none
  list : Option ListMembership := none
  block : Option Block := none
  /-- Nothing has been written into the open block. -/
  blockEmpty : Bool := true
  link : Option String := none
  span : Option String := none
  /-- The bookmarks that have an anchor. -/
  bookmarks : List String := []
  closed : Bool := false
deriving DecidableEq

def ListMembership.ofStyle? (style : Style) : Option ListMembership :=
  match style.listStyleId?, style.numbering? with
  | some id, some numbering =>
    if numbering = .none then none else some ⟨numbering, id, style.listLevel⟩
  | _, _ => none

def ListMembership.element (list : ListMembership) : Element :=
  if list.numbering.isOrdered then .ol else .ul

def Block.element : Block → Element
  | .paragraph => .p
  | .listItem => .li

namespace Page

def push (page : Page) (piece : Markup) : Page := { page with out := page.out.push piece }

def html (page : Page) : String := Markup.write page.out

/-! Closing -/

def closeSpan (page : Page) : Page :=
  match page.span with
  | some _ => { page.push (.closing .span) with span := none }
  | none => page

def closeLink (page : Page) : Page :=
  match page.link with
  | some _ => { page.push (.closing .a) with link := none }
  | none => page

def closeInline (page : Page) : Page := page.closeSpan.closeLink

def closeBlock (page : Page) : Page :=
  let page := page.closeInline
  match page.block with
  | some block => { page.push (.closing block.element) with block := none }
  | none => page

def closeList (page : Page) : Page :=
  match page.list with
  | some list => { page.closeBlock.push (.closing list.element) with list := none }
  | none => page

def pushTableEnds (page : Page) (table : OpenTable) : Page :=
  let page := if table.cellOpen then page.push (.closing .td) else page
  if table.rowOpen then page.push (.closing .tr) else page

def closeTable (page : Page) : Page :=
  match page.table with
  | some table =>
    { (page.closeBlock.pushTableEnds table).push (.closing .table) with table := none }
  | none => page

/-! Opening -/

def openList (page : Page) (list : ListMembership) : Page :=
  if page.list = some list then page
  else
    let css : List Declaration := [⟨.listStyleType, listMarker list.numbering⟩]
    { page.closeList.push (.opening list.element (styleAttribute css)) with list := some list }

def openTable (page : Page) : Page × OpenTable :=
  match page.table with
  | some table => (page, table)
  | none =>
    let page := page.closeBlock.closeList
    (page.push (.opening .table (styleAttribute [⟨.borderCollapse, "collapse"⟩])), {})

/-- Makes sure that a row is open; a new row starts at its first cell. -/
def openRow (page : Page) (style : Style) (table : OpenTable) : Page × OpenTable :=
  if table.rowOpen then (page, table)
  else (page.push (.opening .tr (styleAttribute (rowCss style))), { rowOpen := true })

/-- The declarations of the cell in a column, if the style's row defines one there. -/
def columnCss (doc : Document) (style : Style) (column : Nat) : List Declaration :=
  match style.cellChain?.bind (fun chain => chain.initialChains[column]?) with
  | some chain => cellCss doc chain
  | none => []

def openCell (doc : Document) (page : Page) (style : Style) : Page :=
  let (page, table) := page.openTable
  let (page, table) := page.openRow style table
  if table.cellOpen then { page with table := some table }
  else
    let css := columnCss doc style table.cellIndex
    { page.push (.opening .td (styleAttribute css)) with
      table := some { table with cellOpen := true } }

def openBlock (doc : Document) (page : Page) (style : Style) : Page :=
  let page := if style.isInTable then page.openCell doc style else page.closeTable
  match page.block with
  | some _ => page
  | none =>
    let list := if style.isInTable then none else ListMembership.ofStyle? style
    let (page, block) : Page × Block :=
      match list with
      | some list => (page.openList list, .listItem)
      | none => (page.closeList, .paragraph)
    { page.push (.opening block.element (styleAttribute (paragraphCss doc style))) with
      block := some block
      blockEmpty := true }

def linkAttributes (link : Hyperlink) (href : String) : List Attribute :=
  ⟨.href, href⟩ :: ((link.title.map (⟨.title, ·⟩)).toList
    ++ (link.target.map (⟨.target, ·⟩)).toList)

def setLink (page : Page) (link : Option Hyperlink) : Page :=
  let href := link.bind Hyperlink.href?
  if page.link = href then page
  else
    let page := page.closeInline
    match link, href with
    | some link, some href =>
      { page.push (.opening .a (linkAttributes link href)) with link := some href }
    | _, _ => page

def setSpan (page : Page) (css : List Declaration) : Page :=
  let wanted := if css.isEmpty then none else some (cssText css)
  if page.span = wanted then page
  else
    let page := page.closeSpan
    match wanted with
    | some value => { page.push (.opening .span [⟨.style, value⟩]) with span := wanted }
    | none => page

/-- Writes the anchor of the bookmark that starts here, unless it has one already. -/
def setBookmark (settings : RenderSettings) (page : Page) (style : Style) : Page :=
  match style.bookmark? with
  | some ⟨true, some id⟩ =>
    if settings.emitBookmarks && !page.bookmarks.contains id then
      let page := page.closeInline
      { (page.push (.opening .a [⟨.id, id⟩])).push (.closing .a) with
        bookmarks := id :: page.bookmarks }
    else page
  | _ => page

def openInline (doc : Document) (settings : RenderSettings) (page : Page) (style : Style) : Page :=
  ((page.openBlock doc style).setBookmark settings style).setLink style.hyperlink?

def fill (page : Page) (piece : Markup) : Page := { page.push piece with blockEmpty := false }

/-! Events -/

def addText (doc : Document) (settings : RenderSettings) (page : Page) (style : Style)
    (s : String) : Page :=
  if s.isEmpty || style.isHidden then page
  else
    let page := page.openInline doc settings style
    (page.setSpan (spanCss doc page.defaultFont style)).fill (.text s)

def addTabs (doc : Document) (settings : RenderSettings) (page : Page) (style : Style)
    (count : Nat) : Page :=
  let page := page.openInline doc settings style
  let page := page.setSpan (spanCss doc page.defaultFont style)
  let width := Twips.clamp (page.tabWidth.toInt * (Twips.clamp count).toInt)
  let css : List Declaration := [⟨.display, "inline-block"⟩, ⟨.width, points width⟩]
  (page.push (.opening .span (styleAttribute css))).fill (.closing .span)

/-- An empty paragraph keeps its line. -/
def endParagraph (doc : Document) (page : Page) (style : Style) : Page :=
  let page := page.openBlock doc style
  (if page.blockEmpty then page.push (.void .br []) else page).closeBlock

def addPageBreak (page : Page) : Page :=
  let page := page.closeBlock.closeList.closeTable
  let css : List Declaration := [⟨.pageBreakAfter, "always"⟩]
  (page.push (.opening .div (styleAttribute css))).push (.closing .div)

/-- The end of a cell; outside any table it only ends the block. -/
def endCell (doc : Document) (page : Page) (style : Style) : Page :=
  if !style.isInTable && page.table.isNone then page.closeBlock
  else
    let page := (page.openCell doc style).closeBlock
    match page.table with
    | some table =>
      { page.push (.closing .td) with
        table := some { table with cellOpen := false, cellIndex := table.cellIndex + 1 } }
    | none => page

def endRow (page : Page) : Page :=
  let page := page.closeBlock
  match page.table with
  | some table => { page.pushTableEnds table with table := some {} }
  | none => page

def addBreaks (doc : Document) (settings : RenderSettings) (page : Page) (style : Style)
    (kind : BreakKind) (count : Nat) : Page :=
  match kind with
  | .tab => page.addTabs doc settings style count
  | .line => (page.openBlock doc style).fill (.void .br [])
  | .paragraph => page.endParagraph doc style
  | .section => page.closeBlock
  | .page => page.addPageBreak
  | .cell => page.endCell doc style
  | .row => page.endRow

def pictureCss (picture : Picture) : List Declaration :=
  (picture.goalWidth.map fun w => ⟨.width, points w⟩).toList
    ++ (picture.goalHeight.map fun h => ⟨.height, points h⟩).toList

def addPicture (doc : Document) (settings : RenderSettings) (page : Page) (style : Style)
    (picture : Picture) : Page :=
  if settings.embedPictures then
    ((page.openInline doc settings style).closeSpan).fill
      (.void .img (⟨.src, picture.dataUri⟩ :: styleAttribute (pictureCss picture)))
  else page

/-- Ends the page: everything open is closed, and the whole is wrapped if that is wanted. A page
ends once. -/
def close (settings : RenderSettings) (page : Page) : Page :=
  if page.closed then page
  else
    let page := { page with closed := true }.closeBlock.closeList.closeTable
    if settings.wrapInDiv then
      let css := page.defaultFont.toList.map fontDeclaration
      { page with
        out := #[.opening .div (styleAttribute css)] ++ page.out ++ #[.closing .div] }
    else page

def add (doc : Document) (settings : RenderSettings) (page : Page) : Event → Page
  | .defaultFont font => { page with defaultFont := font }
  | .defaultTabWidth width => if 0 < width then { page with tabWidth := width } else page
  | .text style s => page.addText doc settings style s
  | .breaks style kind count => page.addBreaks doc settings style kind count
  | .picture style picture => page.addPicture doc settings style picture
  | .close => page.close settings

def ofEvents (doc : Document) (settings : RenderSettings) (events : List Event) : Page :=
  events.foldl (add doc settings) {}

theorem ofEvents_append (doc : Document) (settings : RenderSettings) (es es' : List Event) :
    ofEvents doc settings (es ++ es') =
      es'.foldl (add doc settings) (ofEvents doc settings es) := by
  simp [ofEvents]

end Page

end RichText.Html
