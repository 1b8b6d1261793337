import RichText.Proofs.Html.Fragment
set_option autoImplicit false

/-!
A row as it is written, cell by cell. Between two rows no cell is open; the first cell opens its
row, and the table if there is none. Main statements: `InRow.openCell`, `InRow.grow`,
`InRow.endCell` and `InRow.endRow`, what becomes of a row at each of its steps.
-/
namespace RichText

namespace Html

def Element.fitsCell (e : Element) : Bool := e ∉ [Element.table, .tr, .td]

def Element.precedesRow (e : Element) : Bool := e ∉ [Element.tr, .td]

namespace Fragment

def cell (doc : Document) (fragment : Fragment) (column : Nat) : List Markup :=
  .opening .td (styleAttribute (Page.columnCss doc fragment.style column)) :: fragment.content ++
    [.closing .td]

def append (fragment : Fragment) (pieces : List Markup) : Fragment :=
  { fragment with content := fragment.content ++ pieces }

def cells (doc : Document) (fragments : List Fragment) : List Markup :=
  fragments.zipIdx.flatMap fun p => p.1.cell doc p.2

def rowTag (fragments : List Fragment) : List Markup :=
  (fragments.head?.map fun first => .opening .tr (styleAttribute (rowCss first.style))).toList

def row (doc : Document) (fragments : List Fragment) : List Markup :=
  if fragments = [] then [] else rowTag fragments ++ cells doc fragments ++ [.closing .tr]

theorem cells_concat (doc : Document) (fragments : List Fragment) (fragment : Fragment) :
    cells doc (fragments ++ [fragment]) =
      cells doc fragments ++ fragment.cell doc fragments.length := by
  simp [cells, List.zipIdx_append]

end Fragment

namespace Page

variable {doc : Document} {settings : RenderSettings} {style : Style} {page page' start : Page}

/-- The pieces may stand in a cell, and `s` is seen of them. -/
structure IsContent (s : List Char) (pieces : List Markup) : Prop where
  isWithin : ∀ piece ∈ pieces, piece.isWithin Element.fitsCell = true
  visibleText_eq : pieces.flatMap Markup.visibleText = s

/-- No row is open: there is no table, or none of its rows has begun. -/
def IsBetweenRows (page : Page) : Prop := page.table = none ∨ page.table = some {}

/-- The next row may follow the end of a row. -/
theorem isBetweenRows_endRow (page : Page) : page.endRow.IsBetweenRows := by
  unfold endRow
  dsimp only
  cases htable : page.closeBlock.table with
  | none => exact .inl htable
  | some _ => exact .inr rfl

/-! Opening cells -/

theorem openCell_of_cell {column : Nat} (h : page.table = some ⟨true, true, column⟩) :
    page.openCell doc style = page := by
  simp only [openCell, openTable, openRow, h, if_true]
  rw [← h]

theorem openCell_of_row {column : Nat} (h : page.table = some ⟨true, false, column⟩) :
    page.openCell doc style =
      { page.push (.opening .td (styleAttribute (columnCss doc style column))) with
        table := some ⟨true, true, column⟩ } := by
  simp [openCell, openTable, openRow, h]

theorem openCell_of_table (h : page.table = some {}) :
    page.openCell doc style =
      { (page.push (.opening .tr (styleAttribute (rowCss style)))).push
          (.opening .td (styleAttribute (columnCss doc style 0))) with
        table := some ⟨true, true, 0⟩ } := by
  simp [openCell, openTable, openRow, h]

theorem openCell_of_none (h : page.table = none) :
    page.openCell doc style =
      { ((page.closeBlock.closeList.push (.opening .table (styleAttribute
            [⟨.borderCollapse, "collapse"⟩]))).push
          (.opening .tr (styleAttribute (rowCss style)))).push
          (.opening .td (styleAttribute (columnCss doc style 0))) with
        table := some ⟨true, true, 0⟩ } := by
  simp [openCell, openTable, openRow, h]

/-! Growing inside of a cell -/

theorem fitsCell_of_isInline {e : Element} (h : e.isInline = true) : e.fitsCell = true := by
  cases e <;> first | rfl | exact absurd h (by decide)

theorem grows_closeBlock (page : Page) : Grows Element.fitsCell [] page page.closeBlock := by
  have hinline := (Continues.refl page).closeInline.grows.mono fun _ => fitsCell_of_isInline
  unfold closeBlock
  dsimp only
  split
  · rename_i block _
    have hblock : (Markup.closing block.element).isWithin Element.fitsCell = true := by
      cases block <;> rfl
    exact (hinline.push_tag hblock rfl).of_out_eq rfl
  · exact hinline

theorem table_closeBlock (page : Page) : page.closeBlock.table = page.table := by
  rw [closeBlock_eq]

theorem grows_closeList (page : Page) : Grows Element.fitsCell [] page page.closeList := by
  unfold closeList
  split
  · rename_i list _
    have hlist : (Markup.closing list.element).isWithin Element.fitsCell = true := by
      obtain helement | helement := list.element_cases <;> rw [helement] <;> rfl
    exact ((grows_closeBlock page).push_tag hlist rfl).of_out_eq rfl
  · exact .refl _ page

theorem grows_openBlock (doc : Document) (page : Page) (hin : style.isInTable = true) :
    Grows Element.fitsCell [] (page.openCell doc style) (page.openBlock doc style) ∧
      (page.openBlock doc style).table = (page.openCell doc style).table := by
  unfold openBlock
  rw [if_pos hin, if_pos hin]
  dsimp only
  generalize page.openCell doc style = place
  split
  · exact ⟨.refl _ place, rfl⟩
  · exact ⟨((grows_closeList place).push_tag rfl rfl).of_out_eq rfl, table_closeList place⟩

theorem grows_endParagraph (doc : Document) (page : Page) (hin : style.isInTable = true) :
    Grows Element.fitsCell [] (page.openCell doc style) (page.endParagraph doc style) ∧
      (page.endParagraph doc style).table = (page.openCell doc style).table := by
  obtain ⟨hblock, htable⟩ := grows_openBlock doc page hin
  unfold endParagraph
  dsimp only
  rw [table_closeBlock]
  split
  · exact ⟨(hblock.push_tag rfl rfl).trans_nil (grows_closeBlock _), htable⟩
  · exact ⟨hblock.trans_nil (grows_closeBlock _), htable⟩

theorem grows_add (doc : Document) (page : Page) {e : Event} (h : e.writes settings = true)
    (hstyle : e.style? = some style) (hin : style.isInTable = true) :
    Grows Element.fitsCell e.visibleText (page.openCell doc style)
        (page.add doc settings e) ∧
      (page.add doc settings e).table = (page.openCell doc style).table := by
  by_cases hparagraph : ∃ style count, e = .breaks style .paragraph count
  · obtain ⟨style', count, rfl⟩ := hparagraph
    obtain rfl := Option.some.inj hstyle
    exact grows_endParagraph doc page hin
  · obtain ⟨hblock, htable⟩ := grows_openBlock doc page hin
    have hfills := fills_add doc page h hstyle (fun style count he => hparagraph ⟨style, count, he⟩)
    have hcontent := hfills.grows.mono fun _ => fitsCell_of_isInline
    exact ⟨hblock.trans hcontent, hfills.table_eq.trans htable⟩

/-! The row so far -/

/-- The page is `start` with a part of a row: the cells that have ended, and the one that is open.
The tag of a table may stand before them. -/
def HoldsRow (doc : Document) (start : Page) (ended : List Fragment) (current : Option Fragment)
    (page : Page) : Prop :=
  ∃ front, (∀ piece ∈ front, piece.isWithin Element.precedesRow = true) ∧
    page.out.toList = start.out.toList ++ front ++ Fragment.rowTag (ended ++ current.toList) ++
      Fragment.cells doc ended ++ current.toList.flatMap fun cell =>
        .opening .td (styleAttribute (columnCss doc cell.style ended.length)) :: cell.content

/-- How far a row is written: not at all, up to the end of a cell, or up to some content of one. -/
inductive InRow (doc : Document) (start : Page) :
    List Fragment → Option Fragment → Page → Prop where
  | before {page : Page} (holds : HoldsRow doc start [] none page)
      (htable : page.table = start.table) : InRow doc start [] none page
  | between {ended : List Fragment} {page : Page} (hended : ended ≠ [])
      (holds : HoldsRow doc start ended none page)
      (htable : page.table = some ⟨true, false, ended.length⟩) (hblock : page.closeBlock = page) :
      InRow doc start ended none page
  | inside {ended : List Fragment} {cell : Fragment} {page : Page}
      (holds : HoldsRow doc start ended (some cell) page)
      (htable : page.table = some ⟨true, true, ended.length⟩) :
      InRow doc start ended (some cell) page

theorem precedesRow_of_fitsCell {piece : Markup} (h : piece.isWithin Element.fitsCell = true) :
    piece.isWithin Element.precedesRow = true := by
  unfold Markup.isWithin at h ⊢
  cases he : piece.element? with
  | none => rfl
  | some e =>
    rw [he] at h
    cases e <;> first | rfl | exact absurd h (by decide)

theorem HoldsRow.before_grows {s : List Char} (h : HoldsRow doc start [] none page)
    (hgrows : Grows Element.fitsCell s page page') : HoldsRow doc start [] none page' := by
  obtain ⟨front, hfront, hout⟩ := h
  obtain ⟨pieces, hpieces, hwithin, -⟩ := hgrows
  have hwithin : ∀ piece ∈ pieces, piece.isWithin Element.precedesRow = true :=
    fun piece hpiece => precedesRow_of_fitsCell (hwithin piece hpiece)
  refine ⟨front ++ pieces, List.forall_mem_append.2 ⟨hfront, hwithin⟩, ?_⟩
  simp [hpieces, hout, Fragment.rowTag, Fragment.cells]

theorem HoldsRow.push_row (h : HoldsRow doc start [] none page) (style : Style) :
    HoldsRow doc start [] (some ⟨style, []⟩)
      ((page.push (.opening .tr (styleAttribute (rowCss style)))).push
        (.opening .td (styleAttribute (columnCss doc style 0)))) := by
  obtain ⟨front, hfront, hout⟩ := h
  exact ⟨front, hfront, by simp [push, hout, Fragment.rowTag, Fragment.cells]⟩

theorem HoldsRow.push_table (h : HoldsRow doc start [] none page) (attributes : List Attribute) :
    HoldsRow doc start [] none (page.push (.opening .table attributes)) := by
  obtain ⟨front, hfront, hout⟩ := h
  have htag : (Markup.opening .table attributes).isWithin Element.precedesRow = true := rfl
  refine ⟨front ++ [.opening .table attributes], ?_, ?_⟩
  · exact List.forall_mem_append.2 ⟨hfront, by simpa using htag⟩
  · simp [push, hout, Fragment.rowTag, Fragment.cells]

namespace InRow

variable {ended : List Fragment} {current : Option Fragment}

theorem openCell (hstart : start.IsBetweenRows) (h : InRow doc start ended current page)
    (style : Style) :
    InRow doc start ended (some (current.getD ⟨style, []⟩)) (page.openCell doc style) := by
  cases h with
  | before holds htable =>
    obtain hnone | hsome := hstart
    · have hgrows := (grows_closeBlock page).trans_nil (grows_closeList page.closeBlock)
      rw [openCell_of_none (htable.trans hnone)]
      exact .inside (((holds.before_grows hgrows).push_table _).push_row style) rfl
    · rw [openCell_of_table (htable.trans hsome)]
      exact .inside (holds.push_row style) rfl
  | between hended holds htable hblock =>
    obtain ⟨first, rest, rfl⟩ := List.exists_cons_of_ne_nil hended
    obtain ⟨front, hfront, hout⟩ := holds
    rw [openCell_of_row htable]
    refine .inside ⟨front, hfront, ?_⟩ rfl
    simp [push, hout, Fragment.rowTag]
  | inside holds htable =>
    rw [openCell_of_cell htable]
    exact .inside holds htable

theorem grow {cell : Fragment} {s : List Char} (h : InRow doc start ended (some cell) page)
    (hgrows : Grows Element.fitsCell s page page') (htable' : page'.table = page.table) :
    ∃ pieces, IsContent s pieces ∧ InRow doc start ended (some (cell.append pieces)) page' := by
  cases h with
  | inside holds htable =>
    obtain ⟨front, hfront, hout⟩ := holds
    obtain ⟨pieces, hpieces, hwithin, hs⟩ := hgrows
    refine ⟨pieces, ⟨hwithin, hs⟩, .inside ⟨front, hfront, ?_⟩ (htable'.trans htable)⟩
    rw [hpieces, hout]
    cases ended <;> simp [Fragment.rowTag, Fragment.append]

theorem closeBlock (h : InRow doc start ended current page) :
    ∃ pieces, IsContent [] pieces ∧
      InRow doc start ended (current.map (·.append pieces)) page.closeBlock := by
  have htable := table_closeBlock page
  cases current with
  | some cell => exact h.grow (grows_closeBlock page) htable
  | none =>
    refine ⟨[], ⟨by simp, rfl⟩, ?_⟩
    cases h with
    | before holds hstart =>
      exact .before (holds.before_grows (grows_closeBlock page)) (htable.trans hstart)
    | between hended holds htable hblock =>
      rw [hblock]
      exact .between hended holds htable hblock

theorem endCell (hstart : start.IsBetweenRows) (h : InRow doc start ended current page)
    (hin : style.isInTable = true) :
    ∃ pieces, IsContent [] pieces ∧
      InRow doc start (ended ++ [(current.getD ⟨style, []⟩).append pieces]) none
        (page.endCell doc style) := by
  obtain ⟨pieces, hcontent, hrow⟩ := (h.openCell hstart style).closeBlock
  refine ⟨pieces, hcontent, ?_⟩
  unfold Page.endCell
  rw [hin, if_neg (by simp)]
  generalize hclosed : (page.openCell doc style).closeBlock = closed at hrow
  rw [closeBlock_eq] at hclosed
  cases hrow with
  | inside holds htable =>
    obtain ⟨front, hfront, hout⟩ := holds
    dsimp only
    rw [htable]
    refine .between (by simp) ⟨front, hfront, ?_⟩ (by simp) ?_
    · simp [push, hout, Fragment.cells_concat, Fragment.cell]
    · simp [← hclosed, Page.closeBlock, closeInline, closeSpan, closeLink, push]

theorem endRow (hstart : start.IsBetweenRows) (h : InRow doc start ended current page) :
    ∃ pieces front, IsContent [] pieces ∧
      (∀ piece ∈ front, piece.isWithin Element.precedesRow = true) ∧
      page.endRow.out.toList = start.out.toList ++ front ++
        Fragment.row doc (ended ++ (current.map (·.append pieces)).toList) := by
  obtain ⟨pieces, hcontent, hrow⟩ := h.closeBlock
  refine ⟨pieces, ?_⟩
  unfold Page.endRow
  generalize page.closeBlock = closed at hrow
  generalize current.map (·.append pieces) = cell at hrow
  dsimp only
  cases hrow with
  | before holds htable =>
    obtain ⟨front, hfront, hout⟩ := holds
    refine ⟨front, hcontent, hfront, ?_⟩
    obtain hnone | hsome := hstart
    · rw [htable, hnone]
      simpa [Fragment.rowTag, Fragment.cells, Fragment.row] using hout
    · rw [htable, hsome]
      simpa [Fragment.rowTag, Fragment.cells, Fragment.row, pushTableEnds] using hout
  | between hended holds htable =>
    obtain ⟨front, hfront, hout⟩ := holds
    refine ⟨front, hcontent, hfront, ?_⟩
    rw [htable]
    simp [pushTableEnds, push, hout, Fragment.row, hended]
  | inside holds htable =>
    obtain ⟨front, hfront, hout⟩ := holds
    refine ⟨front, hcontent, hfront, ?_⟩
    rw [htable]
    simp [pushTableEnds, push, hout, Fragment.row, Fragment.cells_concat, Fragment.cell]

end InRow

end Page

end Html

end RichText
