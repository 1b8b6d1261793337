import RichText.Proofs.Html.Nesting
set_option autoImplicit false

/-!
Opening: whatever content needs around it is opened where the content model lets it stand. Main
statement: `nested_openInline`, content of any style finds a block open, with the page nested.
-/
namespace RichText.Html.Page

variable {closed : Bool} {page : Page}

/-! Cells -/

/-- A table that is open, but none of its cells, is all that the page has open. The table is given
apart, since its state is stored only when the cell is open too. -/
structure BetweenCells (closed : Bool) (page : Page) (table : OpenTable) : Prop where
  opened : ∃ settled, Opened page.lexemes table.elements settled
  contentElements_eq : page.contentElements = []
  cellOpen_eq : table.cellOpen = false
  closed_eq : page.closed = closed

theorem betweenCells_openTable (h : Nested closed page)
    (hcell : ∀ table, page.table = some table → table.cellOpen = false) :
    BetweenCells closed page.openTable.1 page.openTable.2 := by
  unfold openTable
  split
  · rename_i table htable
    have hcontent := contentElements_eq_nil h.opened.stacked_eq_true htable (hcell table htable)
    have hopened := h.opened_of_eq (openElements_of_contentElements hcontent htable)
    exact ⟨⟨true, hopened⟩, hcontent, hcell table htable, h.closed_eq⟩
  · rename_i htable
    have hlist := nested_closeList (nested_closeBlock h)
    have hblock : page.closeBlock.closeList.block = none :=
      block_closeList (by rw [closeBlock_eq])
    obtain ⟨hspan, hlink⟩ := inline_eq_none hlist.opened.stacked_eq_true hblock
    have hcontent : page.closeBlock.closeList.contentElements = [] := by
      simp [contentElements, hspan, hlink, hblock]
    have hnothing : page.closeBlock.closeList.openElements = [] := by
      have hnone : page.closeBlock.table = none := by rw [closeBlock_eq, htable]
      simp [openElements, hcontent, tableElements, hnone]
    have hopened := opened_push_opening (e := .table) (hlist.opened_of_eq hnothing) rfl (by decide)
    exact ⟨⟨_, hopened _⟩, hcontent, rfl, hlist.closed_eq⟩

theorem betweenCells_openRow (style : Style) {table : OpenTable}
    (h : BetweenCells closed page table) :
    BetweenCells closed (page.openRow style table).1 (page.openRow style table).2 ∧
      (page.openRow style table).2.rowOpen = true := by
  unfold openRow
  split
  · rename_i hrow
    exact ⟨h, hrow⟩
  · rename_i hrow
    obtain ⟨settled, hopened⟩ := h.opened
    have hrow : table.rowOpen = false := by simpa using hrow
    have helements : table.elements = [.table] := by
      simp [OpenTable.elements, h.cellOpen_eq, hrow]
    rw [helements] at hopened
    exact ⟨⟨⟨_, opened_push_opening hopened rfl (by decide) _⟩, h.contentElements_eq, rfl,
      h.closed_eq⟩, rfl⟩

theorem nested_openCell (doc : Document) (style : Style) (h : Nested closed page) :
    Nested closed (page.openCell doc style) ∧
      ∃ table, (page.openCell doc style).table = some table ∧ table.cellOpen = true := by
  by_cases hcell : ∃ table, page.table = some table ∧ table.cellOpen = true
  -- a block may be open in the cell, which then has to stay as it is
  · obtain ⟨table, htable, hopen⟩ := hcell
    have hrow := rowOpen_of_cellOpen h.opened.stacked_eq_true htable hopen
    have hpage : page.openCell doc style = page := by
      simp only [openCell, openTable, openRow, htable, hopen, hrow, if_true]
      rw [← htable]
    rw [hpage]
    exact ⟨h, table, htable, hopen⟩
  -- otherwise nothing is open in the table, and what is missing of its row and cell is opened
  · have hnot : ∀ table, page.table = some table → table.cellOpen = false := by
      intro table htable
      simpa using fun hopen => hcell ⟨table, htable, hopen⟩
    obtain ⟨hbetween, hrow⟩ := betweenCells_openRow style (betweenCells_openTable h hnot)
    unfold openCell
    dsimp only
    generalize page.openTable.1.openRow style page.openTable.2 = opened at hbetween hrow
    obtain ⟨settled, hopened⟩ := hbetween.opened
    have hrowElements : opened.2.elements = [.tr, .table] := by
      simp [OpenTable.elements, hbetween.cellOpen_eq, hrow]
    have hcellElements : { opened.2 with cellOpen := true }.elements = [.td, .tr, .table] := by
      simp [OpenTable.elements, hrow]
    rw [hrowElements] at hopened
    rw [hbetween.cellOpen_eq, if_neg Bool.false_ne_true]
    refine ⟨⟨?_, hbetween.closed_eq⟩, _, rfl, rfl⟩
    have htag := opened_push_opening (e := .td) hopened rfl (by decide)
      (styleAttribute (columnCss doc style opened.2.cellIndex))
    have helements : { opened.1.push (.opening .td (styleAttribute
        (columnCss doc style opened.2.cellIndex))) with
          table := some { opened.2 with cellOpen := true } }.openElements =
        { opened.2 with cellOpen := true }.elements :=
      openElements_of_contentElements hbetween.contentElements_eq rfl
    rw [helements, hcellElements]
    exact htag

/-! Blocks -/

theorem opened_openList (list : ListMembership) (h : Nested closed page)
    (hblock : page.block = none) (htable : page.table = none) :
    (∃ settled, Opened (page.openList list).lexemes [list.element] settled) ∧
      (page.openList list).contentElements = [list.element] ∧
      (page.openList list).block = none ∧ (page.openList list).table = none ∧
      (page.openList list).closed = closed := by
  unfold openList
  split
  · rename_i hsame
    obtain ⟨hspan, hlink⟩ := inline_eq_none h.opened.stacked_eq_true hblock
    have hcontent : page.contentElements = [list.element] := by
      simp [contentElements, hspan, hlink, hblock, hsame]
    have helements : page.openElements = [list.element] := by
      simp [openElements, hcontent, tableElements, htable]
    exact ⟨⟨true, h.opened_of_eq helements⟩, hcontent, hblock, htable, h.closed_eq⟩
  · have hclosed := nested_closeList h
    have hnone := block_closeList hblock
    obtain ⟨hspan, hlink⟩ := inline_eq_none hclosed.opened.stacked_eq_true hnone
    have hnothing : page.closeList.openElements = [] := by
      simp [openElements, contentElements, tableElements, hspan, hlink, hnone, htable]
    have hopened := opened_push_opening (hclosed.opened_of_eq hnothing) list.admits_element (by simp)
    refine ⟨⟨_, hopened _⟩, ?_, hnone, ?_, hclosed.closed_eq⟩
    · simp [contentElements, push, hspan, hlink, hnone]
    · exact (table_closeList page).trans htable

theorem nested_push_block {settled : Bool} (block : Block)
    (h : Opened page.lexemes page.openElements settled) (hblock : page.block = none)
    (hadmits : (page.openElements.headD .div).admits block.element = true)
    (attributes : List Attribute) :
    Nested page.closed { page.push (.opening block.element attributes) with
      block := some block
      blockEmpty := true } := by
  have hnolink : block.element ≠ .a := by cases block <;> decide
  have hsettled : block.element.needsChild = false := by cases block <;> rfl
  have hopened := opened_push_opening h hadmits (fun ha => absurd ha hnolink) attributes
  obtain ⟨hspan, hlink⟩ := inline_eq_none h.stacked_eq_true hblock
  have helements : { page.push (.opening block.element attributes) with
      block := some block
      blockEmpty := true }.openElements = block.element :: page.openElements := by
    simp [openElements, contentElements, tableElements, push, hspan, hlink, hblock]
  refine ⟨?_, rfl⟩
  rw [hsettled] at hopened
  rw [helements]
  exact hopened

theorem nested_push_paragraph (h : Nested closed page) (hblock : page.block = none)
    (hplace : page.table = none ∨ ∃ table, page.table = some table ∧ table.cellOpen = true)
    (attributes : List Attribute) :
    Nested closed { page.closeList.push (.opening Block.paragraph.element attributes) with
      block := some .paragraph
      blockEmpty := true } := by
  have hlist := nested_closeList h
  have hnone := block_closeList hblock
  obtain ⟨hspan, hlink⟩ := inline_eq_none hlist.opened.stacked_eq_true hnone
  have helements : page.closeList.openElements = page.tableElements := by
    simp [openElements, contentElements, tableElements, hspan, hlink, hnone]
  have hadmits : (page.closeList.openElements.headD .div).admits Block.paragraph.element = true := by
    rw [helements, tableElements]
    obtain htable | ⟨table, htable, hcell⟩ := hplace
    · rw [htable]
      rfl
    · rw [htable]
      simp [OpenTable.elements, hcell, Element.admits, Block.element]
  have hopened := nested_push_block .paragraph hlist.opened hnone hadmits attributes
  rwa [hlist.closed_eq] at hopened

theorem nested_push_listItem (list : ListMembership) (h : Nested closed page)
    (hblock : page.block = none) (htable : page.table = none) (attributes : List Attribute) :
    Nested closed { (page.openList list).push (.opening Block.listItem.element attributes) with
      block := some .listItem
      blockEmpty := true } := by
  obtain ⟨⟨settled, hopened⟩, hcontent, hnone, hnoTable, hclosed⟩ :=
    opened_openList list h hblock htable
  have helements : (page.openList list).openElements = [list.element] := by
    simp [openElements, hcontent, tableElements, hnoTable]
  have hadmits : ((page.openList list).openElements.headD .div).admits Block.listItem.element =
      true := by
    rw [helements]
    exact list.element_admits_li
  rw [← helements] at hopened
  have hitem := nested_push_block .listItem hopened hnone hadmits attributes
  rwa [hclosed] at hitem

theorem nested_openBlock (doc : Document) (style : Style) (h : Nested closed page) :
    Nested closed (page.openBlock doc style) ∧
      ∃ block, (page.openBlock doc style).block = some block := by
  have hplace : Nested closed
      (if style.isInTable then page.openCell doc style else page.closeTable) := by
    split
    · exact (nested_openCell doc style h).1
    · exact nested_closeTable h
  have hcell : style.isInTable = true → ∃ table,
      (if style.isInTable then page.openCell doc style else page.closeTable).table = some table ∧
        table.cellOpen = true := by
    intro hin
    rw [if_pos hin]
    exact (nested_openCell doc style h).2
  have hnoTable : style.isInTable = false →
      (if style.isInTable then page.openCell doc style else page.closeTable).table = none := by
    intro hout
    rw [hout, if_neg Bool.false_ne_true, table_closeTable]
  unfold openBlock
  dsimp only
  generalize (if style.isInTable then page.openCell doc style else page.closeTable) = place
    at hplace hcell hnoTable
  split
  · rename_i block hblock
    exact ⟨hplace, block, hblock⟩
  · rename_i hblock
    cases hin : style.isInTable with
    | true =>
      exact ⟨nested_push_paragraph hplace hblock (.inr (hcell hin)) _, .paragraph, rfl⟩
    | false =>
      have htable := hnoTable hin
      cases hlist : ListMembership.ofStyle? style with
      | none => exact ⟨nested_push_paragraph hplace hblock (.inl htable) _, .paragraph, rfl⟩
      | some list => exact ⟨nested_push_listItem list hplace hblock htable _, .listItem, rfl⟩

/-! Inline elements -/

theorem nested_setBookmark (settings : RenderSettings) (style : Style) {block : Block}
    (h : Nested closed page) (hblock : page.block = some block) :
    Nested closed (page.setBookmark settings style) ∧
      (page.setBookmark settings style).block = some block := by
  unfold setBookmark
  split
  · rename_i id _
    split
    · have hinline := nested_closeInline h
      have hkept : page.closeInline.block = some block := by rw [closeInline_eq, hblock]
      have hlink : page.closeInline.link = none := by rw [closeInline_eq]
      have hadmits := (Element.admits_of_holdsText (holdsText_of_block hkept)).1
      have hopened := opened_push_opening hinline.opened hadmits
        (fun _ => a_notMem_openElements hlink) [⟨.id, id⟩]
      exact ⟨⟨opened_push_closing hopened, hinline.closed_eq⟩, hkept⟩
    · exact ⟨h, hblock⟩
  · exact ⟨h, hblock⟩

theorem nested_setLink (link : Option Hyperlink) {block : Block} (h : Nested closed page)
    (hblock : page.block = some block) :
    Nested closed (page.setLink link) ∧ (page.setLink link).block = some block := by
  have hinline := nested_closeInline h
  have hkept : page.closeInline.block = some block := by rw [closeInline_eq, hblock]
  have hspan : page.closeInline.span = none := by rw [closeInline_eq]
  have hlink : page.closeInline.link = none := by rw [closeInline_eq]
  unfold setLink
  dsimp only
  generalize page.closeInline = inline at hinline hkept hspan hlink
  split
  · exact ⟨h, hblock⟩
  · split
    · rename_i link href _ _
      have hadmits := (Element.admits_of_holdsText (holdsText_of_block hkept)).1
      have hopened := opened_push_opening hinline.opened hadmits
        (fun _ => a_notMem_openElements hlink) (linkAttributes link href)
      have helements : { inline.push (.opening .a (linkAttributes link href)) with
          link := some href }.openElements = .a :: inline.openElements := by
        simp [openElements, contentElements, tableElements, push, hspan, hlink]
      refine ⟨⟨?_, hinline.closed_eq⟩, hkept⟩
      rw [helements]
      exact hopened
    · exact ⟨hinline, hkept⟩

theorem nested_setSpan (css : List Declaration) {block : Block} (h : Nested closed page)
    (hblock : page.block = some block) :
    Nested closed (page.setSpan css) ∧ (page.setSpan css).block = some block := by
  have hclosed := nested_closeSpan h
  have hkept : page.closeSpan.block = some block := by rw [closeSpan_eq, hblock]
  have hspan : page.closeSpan.span = none := by rw [closeSpan_eq]
  unfold setSpan
  dsimp only
  generalize page.closeSpan = bare at hclosed hkept hspan
  generalize (if css.isEmpty then none else some (cssText css)) = wanted
  split
  · exact ⟨h, hblock⟩
  · split
    · rename_i value _
      have hadmits := (Element.admits_of_holdsText (holdsText_of_block hkept)).2
      have hopened := opened_push_opening hclosed.opened hadmits (by simp) [⟨.style, value⟩]
      have helements : { bare.push (.opening .span [⟨.style, value⟩]) with
          span := some value }.openElements = .span :: bare.openElements := by
        simp [openElements, contentElements, tableElements, push, hspan]
      refine ⟨⟨?_, hclosed.closed_eq⟩, hkept⟩
      rw [helements]
      exact hopened
    · exact ⟨hclosed, hkept⟩

theorem nested_openInline (doc : Document) (settings : RenderSettings) (style : Style)
    (h : Nested closed page) :
    Nested closed (page.openInline doc settings style) ∧
      ∃ block, (page.openInline doc settings style).block = some block := by
  obtain ⟨hopen, block, hblock⟩ := nested_openBlock doc style h
  obtain ⟨hmark, hblock⟩ := nested_setBookmark settings style hopen hblock
  obtain ⟨hlink, hblock⟩ := nested_setLink style.hyperlink? hmark hblock
  exact ⟨hlink, block, hblock⟩

end RichText.Html.Page
