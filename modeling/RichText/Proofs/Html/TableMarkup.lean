import RichText.Render
import RichText.Proofs.Walk.TextTable
set_option autoImplicit false

/-!
Tables of text as HTML: one `table`, a `tr` for each row and a `td` for each cell, as wide as the
distance from the boundary before it. Main statement: `html_ofRows`.
-/
namespace RichText

/-! Widths -/

namespace Number

theorem isDigit_or_of_mem_chars {d : Decimal} {c : Char} (h : c ∈ d.chars) :
    c.isDigit = true ∨ c = '.' := by
  have hdigits : ∀ c ∈ Nat.toDigits 10 d.digits, c.isDigit = true := fun c hc =>
    Nat.isDigit_of_mem_toDigits (by decide) (by decide) hc
  have hzeros : ∀ count, ∀ c ∈ List.replicate count '0', c.isDigit = true := by
    intro count c hc
    rw [List.eq_of_mem_replicate hc]
    decide
  have hpadded : ∀ places, ∀ c ∈ Decimal.padded places (Nat.toDigits 10 d.digits),
      c.isDigit = true := fun places c hc =>
    (List.mem_append.1 hc).elim (hzeros _ c) (hdigits c)
  simp only [Decimal.chars] at h
  split at h
  · exact .inl ((List.mem_append.1 h).elim (hdigits c) (hzeros _ c))
  · obtain hc | hc := List.mem_append.1 h
    · exact .inl (hpadded _ c (List.mem_of_mem_take hc))
    · obtain rfl | hc := List.mem_cons.1 hc
      · exact .inr rfl
      · exact .inl (hpadded _ c (List.mem_of_mem_drop hc))

theorem isDigit_or_of_mem_quotientChars {n d : Nat} {c : Char} (h : c ∈ quotientChars n d) :
    c.isDigit = true ∨ c = '.' := by
  unfold quotientChars at h
  split at h
  · rw [List.mem_singleton.1 h]
    exact .inl (by decide)
  · exact isDigit_or_of_mem_chars h

end Number

theorem Html.escapeAttribute_eq_self {s : List Char}
    (h : ∀ c ∈ s, c ≠ '"' ∧ c ≠ '&' ∧ c ≠ '<' ∧ c ≠ '>') : escapeAttribute s = s := by
  induction s with
  | nil => rfl
  | cons c s ih =>
    obtain ⟨hquote, hamp, hlt, hgt⟩ := h c (by simp)
    have hs := ih (fun d hd => h d (by simp [hd]))
    rw [escapeAttribute] at hs
    simp [escapeAttribute, escapeAttributeChar, escapeTextChar, hquote, hamp, hlt, hgt, hs]

theorem Html.escapeAttribute_points (t : Twips) :
    escapeAttribute (points t).toList = (points t).toList := by
  have hdigit : ∀ c : Char, c.isDigit = true ∨ c = '.' →
      c ≠ '"' ∧ c ≠ '&' ∧ c ≠ '<' ∧ c ≠ '>' := by
    rintro c (hc | rfl)
    · refine ⟨?_, ?_, ?_, ?_⟩ <;> (rintro rfl; revert hc; decide)
    · decide
  refine escapeAttribute_eq_self (fun c hc => ?_)
  simp only [points, Number.pointsText, String.toList_append, String.toList_ofList,
    List.mem_append] at hc
  obtain hc | hc := hc
  · split at hc
    · obtain rfl | hc := List.mem_cons.1 hc
      · decide
      · exact hdigit c (Number.isDigit_or_of_mem_quotientChars hc)
    · exact hdigit c (Number.isDigit_or_of_mem_quotientChars hc)
  · obtain rfl | rfl : c = 'p' ∨ c = 't' := by simpa using hc
    · decide
    · decide

/-! The text of a table -/

namespace TextCell

def width (cell : TextCell) (left : Twips) : Twips :=
  max 0 (Twips.clamp (cell.boundary.toInt - left.toInt))

def html (cell : TextCell) (left : Twips) : String :=
  "<td style=\"width:" ++ points (cell.width left) ++ "\"><p>" ++
    String.ofList (Html.escapeText cell.text.toList) ++ "</p></td>"

def htmlFrom : Twips → List TextCell → String
  | _, [] => ""
  | left, cell :: cells => cell.html left ++ htmlFrom cell.boundary cells

end TextCell

def TextRow.html (row : TextRow) : String :=
  "<tr>" ++ TextCell.htmlFrom (row.offset.getD 0) row.cells ++ "</tr>"

def TextRow.tableHtml (rows : List TextRow) : String :=
  if rows.isEmpty then ""
  else "<table style=\"border-collapse:collapse\">" ++ String.join (rows.map html) ++ "</table>"

/-! Its pieces -/

namespace TextCell

open Html

def pieces (cell : TextCell) (left : Twips) : List Markup :=
  [.opening .td [⟨.style, "width:" ++ points (cell.width left)⟩], .opening .p [], .text cell.text,
    .closing .p, .closing .td]

def piecesFrom : Twips → List TextCell → List Markup
  | _, [] => []
  | left, cell :: cells => cell.pieces left ++ piecesFrom cell.boundary cells

theorem chars_pieces (cell : TextCell) (left : Twips) :
    (cell.pieces left).flatMap Markup.chars = (cell.html left).toList := by
  have hwidth := escapeAttribute_points (cell.width left)
  unfold pieces html
  generalize points (cell.width left) = w at hwidth
  rw [escapeAttribute] at hwidth
  simp [Markup.chars, tagBody, Attribute.chars, AttributeName.text, Element.name, escapeAttribute,
    escapeAttributeChar, escapeTextChar, hwidth]

theorem chars_piecesFrom (left : Twips) (cells : List TextCell) :
    (piecesFrom left cells).flatMap Markup.chars = (htmlFrom left cells).toList := by
  induction cells generalizing left with
  | nil => rfl
  | cons cell cells ih => simp [piecesFrom, htmlFrom, chars_pieces, ih]

end TextCell

namespace TextRow

open Html

def pieces (row : TextRow) : List Markup :=
  .opening .tr [] :: (TextCell.piecesFrom (row.offset.getD 0) row.cells ++ [.closing .tr])

theorem chars_pieces (row : TextRow) :
    row.pieces.flatMap Markup.chars = row.html.toList := by
  simp [pieces, html, Markup.chars, tagBody, Element.name, TextCell.chars_piecesFrom]

theorem chars_table (rows : List TextRow) (h : rows ≠ []) :
    (.opening .table [⟨.style, "border-collapse:collapse"⟩] ::
        (rows.flatMap pieces ++ [.closing .table])).flatMap Markup.chars =
      (tableHtml rows).toList := by
  have hrows : (rows.flatMap pieces).flatMap Markup.chars =
      (String.join (rows.map html)).toList := by
    simp [List.flatMap_assoc, chars_pieces, String.toList_join, List.flatMap_map]
  simp [tableHtml, h, hrows, Markup.chars, tagBody, Element.name, Attribute.chars,
    AttributeName.text, escapeAttribute, escapeAttributeChar, escapeTextChar]

end TextRow

/-! The cells of a row -/

/-- A style in a table that gives its row, paragraphs and texts no declarations. -/
structure Style.Unadorned (doc : Document) (chain : CellChain) (style : Style) : Prop where
  isInTable : style.isInTable = true
  isHidden : style.isHidden = false
  cellChain : style.cellChain? = some chain
  hyperlink : style.hyperlink? = none
  bookmark : style.bookmark? = none
  rowCss : Html.rowCss style = []
  paragraphCss : Html.paragraphCss doc style = []
  spanCss : ∀ font, Html.spanCss doc font style = []

theorem TextRow.unadorned_textStyle (doc : Document) (row : TextRow) (index : Nat) :
    ∃ chain, (row.textStyle index).Unadorned doc chain ∧
      chain.last :: chain.previous =
        (row.cells.map (TextCell.toCell (row.toRow index))).reverse := by
  have hne : (row.cells.map (TextCell.toCell (row.toRow index))).reverse ≠ [] := by
    simp [row.cells_ne_nil]
  unfold textStyle
  cases hcells : (row.cells.map (TextCell.toCell (row.toRow index))).reverse with
  | nil => exact absurd hcells hne
  | cons cell previous =>
    refine ⟨⟨cell, previous⟩, ?_, rfl⟩
    have hadd : (row.styleOf (cell :: previous)).add (.atom .inTable) =
        ⟨row.formats.map Entry.atom ++ [.cell ⟨cell, previous⟩, .atom .inTable]⟩ := by
      unfold styleOf formats
      cases row.offset <;> rfl
    rw [hadd]
    unfold formats
    cases row.offset with
    | none => exact ⟨rfl, rfl, rfl, rfl, rfl, rfl, rfl, fun _ => rfl⟩
    | some offset => exact ⟨rfl, rfl, rfl, rfl, rfl, rfl, rfl, fun _ => rfl⟩

theorem TextCell.leftEdge_toCell (row : TextRow) (index : Nat) (before : List TextCell)
    (cell : TextCell) :
    CellChain.leftEdge (cell.toCell (row.toRow index))
        (before.map (TextCell.toCell (row.toRow index))).reverse =
      before.getLast?.elim (row.offset.getD 0) TextCell.boundary := by
  cases hlast : before.getLast? with
  | none =>
    rw [List.getLast?_eq_none_iff.1 hlast]
    exact row.leftOffset_toRow index
  | some last =>
    obtain ⟨first, rfl⟩ := List.getLast?_eq_some_iff.1 hlast
    simp [CellChain.leftEdge, TextCell.toCell]

theorem TextRow.columnCss_eq {doc : Document} {row : TextRow} {index : Nat} {chain : CellChain}
    {style : Style} (hstyle : style.Unadorned doc chain)
    (hchain : chain.last :: chain.previous =
      (row.cells.map (TextCell.toCell (row.toRow index))).reverse)
    {before after : List TextCell} {cell : TextCell}
    (hcells : row.cells = before ++ cell :: after) :
    Html.Page.columnCss doc style before.length =
      [⟨.width, points (cell.width
        (before.getLast?.elim (row.offset.getD 0) TextCell.boundary))⟩] := by
  have hget := CellChain.getElem?_ofList (before.map (TextCell.toCell (row.toRow index)))
    (after.map (TextCell.toCell (row.toRow index))) (cell.toCell (row.toRow index))
  rw [List.length_map, ← List.map_cons, ← List.map_append, ← hcells, ← hchain] at hget
  have hwidth : CellChain.width? ⟨cell.toCell (row.toRow index),
      (before.map (TextCell.toCell (row.toRow index))).reverse⟩ =
        some (cell.width (before.getLast?.elim (row.offset.getD 0) TextCell.boundary)) := by
    simp only [CellChain.width?, CellChain.leftBoundary, TextCell.leftEdge_toCell, Twips.clamp_max,
      TextCell.width]
    rfl
  simp only [Html.Page.columnCss, hstyle.cellChain, Option.bind_some, CellChain.initialChains,
    hget, Html.cellCss, hwidth]
  rfl

/-! Its pieces, event by event -/

namespace Html.Page

/-- A page on which no content is open, but may be a table. -/
structure Holds (closed : Bool) (table : Option OpenTable) (pieces : List Markup) (page : Page) :
    Prop where
  out : page.out.toList = pieces
  table : page.table = table
  block : page.block = none
  list : page.list = none
  link : page.link = none
  span : page.span = none
  closed_eq : page.closed = closed

def startTable (page : Page) : Page :=
  { page.push (.opening .table [⟨.style, "border-collapse:collapse"⟩]) with table := some {} }

def startRow (page : Page) : Page :=
  { page.push (.opening .tr []) with table := some { rowOpen := true } }

variable (doc : Document) (settings : RenderSettings) {chain : CellChain} {style : Style}
  {page : Page} {pieces : List Markup} {closed : Bool}

theorem Holds.closeBlock_eq {table : Option OpenTable} (h : page.Holds closed table pieces) :
    page.closeBlock = page := by
  simp [closeBlock, closeInline, closeSpan, closeLink, h.block, h.link, h.span]

theorem Holds.closeList_eq {table : Option OpenTable} (h : page.Holds closed table pieces) :
    page.closeList = page := by
  simp [closeList, h.list]

theorem Holds.html_eq {table : Option OpenTable} (h : page.Holds closed table pieces) :
    page.html = String.ofList (pieces.flatMap Markup.chars) := by
  rw [html, Markup.write, h.out]

theorem Holds.startTable (h : page.Holds closed none pieces) :
    page.startTable.Holds closed (some {})
      (pieces ++ [.opening .table [⟨.style, "border-collapse:collapse"⟩]]) :=
  ⟨by simp [Page.startTable, push, h.out], rfl, h.block, h.list, h.link, h.span, h.closed_eq⟩

theorem Holds.startRow (h : page.Holds closed (some {}) pieces) :
    page.startRow.Holds closed (some { rowOpen := true }) (pieces ++ [.opening .tr []]) :=
  ⟨by simp [Page.startRow, push, h.out], rfl, h.block, h.list, h.link, h.span, h.closed_eq⟩

theorem openCell_startTable (h : page.Holds closed none pieces) :
    page.startTable.openCell doc style = page.openCell doc style := by
  have hcss : styleAttribute [⟨.borderCollapse, "collapse"⟩] =
      [⟨.style, "border-collapse:collapse"⟩] := rfl
  simp [openCell, openTable, openRow, h.table, h.closeBlock_eq, h.closeList_eq, Page.startTable,
    hcss, push]

theorem openCell_startRow (hstyle : style.Unadorned doc chain)
    (h : page.Holds closed (some {}) pieces) :
    page.startRow.openCell doc style = page.openCell doc style := by
  have hcss : styleAttribute [] = [] := rfl
  simp [openCell, openTable, openRow, h.table, hstyle.rowCss, Page.startRow, hcss, push]

theorem addText_congr {page' : Page} {s : String} (hstyle : style.Unadorned doc chain)
    (h : page'.openCell doc style = page.openCell doc style) (hs : s ≠ "") :
    page'.addText doc settings style s = page.addText doc settings style s := by
  simp [addText, openInline, openBlock, hstyle.isInTable, hstyle.isHidden, hs, h]

theorem Holds.cell {column : Nat} {s : String} {width : Twips} (hstyle : style.Unadorned doc chain)
    (hcolumn : columnCss doc style column = [⟨.width, points width⟩]) (hs : s ≠ "")
    (h : page.Holds closed (some ⟨true, false, column⟩) pieces) :
    ((page.addText doc settings style s).endCell doc style).Holds closed
      (some ⟨true, false, column + 1⟩)
      (pieces ++ [.opening .td [⟨.style, "width:" ++ points width⟩], .opening .p [], .text s,
        .closing .p, .closing .td]) := by
  have hwidth : styleAttribute [⟨.width, points width⟩] =
      [⟨.style, "width:" ++ points width⟩] := by
    simp [styleAttribute, cssText, Declaration.text, Property.name]
  have hnone : styleAttribute [] = [] := rfl
  have htext : page.addText doc settings style s =
      { page with
        out := ((page.out.push (.opening .td [⟨.style, "width:" ++ points width⟩])).push
          (.opening .p [])).push (.text s)
        table := some ⟨true, true, column⟩
        block := some .paragraph
        blockEmpty := false } := by
    simp [addText, openInline, openBlock, openCell, openTable, openRow, h.table, h.block, h.list,
      h.link, h.span, hcolumn, hwidth, hnone, hstyle.isInTable, hstyle.isHidden, hstyle.hyperlink,
      hstyle.bookmark, hstyle.paragraphCss, hstyle.spanCss, hs, push, fill, setSpan, setLink,
      setBookmark, closeList, Block.element]
  rw [htext]
  refine ⟨?_, ?_, ?_, ?_, ?_, ?_, ?_⟩ <;>
    simp [endCell, openCell, openTable, openRow, closeBlock, closeInline, closeSpan, closeLink,
      hstyle.isInTable, push, h.out, h.list, h.link, h.span, h.closed_eq, Block.element]

theorem Holds.endRow {column : Nat} (h : page.Holds closed (some ⟨true, false, column⟩) pieces) :
    page.endRow.Holds closed (some {}) (pieces ++ [.closing .tr]) := by
  have hend : page.endRow = { page.push (.closing .tr) with table := some {} } := by
    simp [Page.endRow, h.closeBlock_eq, h.table, pushTableEnds]
  rw [hend]
  exact ⟨by simp [push, h.out], rfl, h.block, h.list, h.link, h.span, h.closed_eq⟩

theorem Holds.cells {row : TextRow} {index : Nat} (hstyle : style.Unadorned doc chain)
    (hchain : chain.last :: chain.previous =
      (row.cells.map (TextCell.toCell (row.toRow index))).reverse)
    (before after : List TextCell) (hcells : row.cells = before ++ after)
    (h : page.Holds closed (some ⟨true, false, before.length⟩) pieces) :
    ((after.flatMap (TextCell.events style)).foldl (add doc settings) page).Holds closed
      (some ⟨true, false, row.cells.length⟩)
      (pieces ++ TextCell.piecesFrom
        (before.getLast?.elim (row.offset.getD 0) TextCell.boundary) after) := by
  induction after generalizing before page pieces with
  | nil => simpa [TextCell.piecesFrom, hcells] using h
  | cons cell after ih =>
    have hcell := h.cell doc settings hstyle (TextRow.columnCss_eq hstyle hchain hcells)
      cell.text_ne_empty
    have hrest := ih (before ++ [cell]) (by simp [hcells]) (by simpa using hcell)
    simpa [TextCell.piecesFrom, TextCell.pieces, TextCell.events, add, addBreaks] using hrest

/-- The first text of a row opens what the row needs, so that it may as well be open before. -/
theorem foldl_row_congr {page' : Page} (row : TextRow) (index : Nat)
    (h : ∀ style chain, style.Unadorned doc chain →
      page'.openCell doc style = page.openCell doc style) :
    (row.events index).foldl (add doc settings) page' =
      (row.events index).foldl (add doc settings) page := by
  obtain ⟨chain, hstyle, -⟩ := row.unadorned_textStyle doc index
  obtain ⟨cell, cells, hcells⟩ := List.exists_cons_of_ne_nil row.cells_ne_nil
  have htext := addText_congr doc settings hstyle (h _ chain hstyle) cell.text_ne_empty
  simp [TextRow.events, hcells, TextCell.events, add, htext]

theorem Holds.row (row : TextRow) (index : Nat) (h : page.Holds closed (some {}) pieces) :
    ((row.events index).foldl (add doc settings) page).Holds closed (some {})
      (pieces ++ row.pieces) := by
  obtain ⟨chain, hstyle, hchain⟩ := row.unadorned_textStyle doc index
  have hcells := h.startRow.cells doc settings hstyle hchain [] row.cells rfl
  rw [← foldl_row_congr doc settings row index (fun _ _ hstyle => openCell_startRow doc hstyle h),
    TextRow.events, List.foldl_append]
  simpa [TextRow.pieces, add, addBreaks] using hcells.endRow

theorem Holds.rows (rows : List TextRow) (index : Nat) (h : page.Holds closed (some {}) pieces) :
    (((rows.zipIdx index).flatMap (fun p => p.1.events p.2)).foldl (add doc settings) page).Holds
      closed (some {}) (pieces ++ rows.flatMap TextRow.pieces) := by
  induction rows generalizing index page pieces with
  | nil => simpa using h
  | cons row rows ih =>
    have hrows := ih (index + 1) (h.row doc settings row index)
    simpa using hrows

theorem Holds.closeTable (h : page.Holds closed (some {}) pieces) :
    page.closeTable.Holds closed none (pieces ++ [.closing .table]) := by
  have hclose : page.closeTable = { page.push (.closing .table) with table := none } := by
    simp [Page.closeTable, h.table, h.closeBlock_eq, pushTableEnds]
  rw [hclose]
  exact ⟨by simp [push, h.out], rfl, h.block, h.list, h.link, h.span, h.closed_eq⟩

theorem Holds.close (h : page.Holds false (some {}) pieces) :
    (page.close { settings with wrapInDiv := false }).Holds true none
      (pieces ++ [.closing .table]) := by
  have hclosed : { page with closed := true }.Holds true (some {}) pieces :=
    ⟨h.out, h.table, h.block, h.list, h.link, h.span, rfl⟩
  have hclose : page.close { settings with wrapInDiv := false } =
      { page with closed := true }.closeTable := by
    simp only [Page.close, h.closed_eq, hclosed.closeBlock_eq, hclosed.closeList_eq,
      Bool.false_eq_true, if_false]
  rw [hclose]
  exact hclosed.closeTable

theorem holds_table {rows : List TextRow} (hrows : rows ≠ []) :
    (ofEvents doc settings (rows.zipIdx.flatMap (fun p => p.1.events p.2))).Holds false (some {})
      (.opening .table [⟨.style, "border-collapse:collapse"⟩] :: rows.flatMap TextRow.pieces) := by
  obtain ⟨row, rows, rfl⟩ := List.exists_cons_of_ne_nil hrows
  have hempty : ({} : Page).Holds false none [] := ⟨rfl, rfl, rfl, rfl, rfl, rfl, rfl⟩
  have hrow := hempty.startTable.row doc settings row 0
  rw [foldl_row_congr doc settings row 0 (fun _ _ _ => openCell_startTable doc hempty)] at hrow
  simpa [ofEvents] using hrow.rows doc settings rows 1

end Html.Page

/-- Whatever rows a document holds, and whatever it says of fonts, colours and lists, it is
rendered as one table of exactly these rows and cells. -/
theorem Document.html_ofRows (doc : Document) (settings : RenderSettings) (rows : List TextRow) :
    (doc.ofRows rows).html { settings with wrapInDiv := false } = TextRow.tableHtml rows := by
  have hhtml : (doc.ofRows rows).html { settings with wrapInDiv := false } =
      (Html.Page.ofEvents (doc.ofRows rows) { settings with wrapInDiv := false }
        (doc.ofRows rows).events).html := rfl
  rw [hhtml, events_ofRows, Html.Page.ofEvents_append]
  cases hrows : rows with
  | nil => rfl
  | cons row after =>
    have hne : rows ≠ [] := by simp [hrows]
    have htable := Html.Page.holds_table (doc.ofRows rows) { settings with wrapInDiv := false } hne
    have hpage := htable.close settings
    rw [List.cons_append] at hpage
    rw [← hrows, ← String.ofList_toList (s := TextRow.tableHtml rows),
      ← TextRow.chars_table rows hne]
    exact hpage.html_eq

example : TextRow.tableHtml [⟨some 720, [⟨1440, "a", by decide⟩, ⟨720, "<", by decide⟩], by simp⟩] =
    "<table style=\"border-collapse:collapse\"><tr><td style=\"width:36pt\"><p>a</p></td>" ++
      "<td style=\"width:0pt\"><p>&lt;</p></td></tr></table>" := by
  decide +kernel

end RichText
