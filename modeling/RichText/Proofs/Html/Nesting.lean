import RichText.Html.Page
import RichText.Proofs.Html.ContentModel
set_option autoImplicit false

/-!
Nesting: what a page in progress has open is what its state says. The content model then tells how
the parts of the state go together, so that nothing else needs to be known of it. Main statements:
`inline_eq_none` and `contentElements_eq_nil`, and `nested_closeBlock` with its like for lists and
tables.
-/
namespace RichText.Html

def OpenTable.elements (table : OpenTable) : List Element :=
  (if table.cellOpen then [.td] else []) ++ (if table.rowOpen then [.tr] else []) ++ [.table]

theorem ListMembership.element_cases (list : ListMembership) :
    list.element = .ol ∨ list.element = .ul := by
  unfold element
  split
  · exact .inl rfl
  · exact .inr rfl

theorem ListMembership.admits_element (list : ListMembership) :
    Element.div.admits list.element = true := by
  obtain h | h := list.element_cases
  · rw [h]
    decide
  · rw [h]
    decide

theorem ListMembership.element_admits_li (list : ListMembership) :
    list.element.admits .li = true := by
  obtain h | h := list.element_cases
  · rw [h]
    decide
  · rw [h]
    decide

theorem Block.holdsText_element (block : Block) : block.element.holdsText = true := by
  cases block <;> rfl

namespace Page

def lexemes (page : Page) : List Lexeme := page.out.toList.flatMap Markup.lexemes

theorem lexemes_push (page : Page) (piece : Markup) :
    (page.push piece).lexemes = page.lexemes ++ piece.lexemes := by
  simp [lexemes, push]

def contentElements (page : Page) : List Element :=
  (page.span.map fun _ => Element.span).toList ++ (page.link.map fun _ => Element.a).toList ++
    (page.block.map Block.element).toList ++ (page.list.map ListMembership.element).toList

def tableElements (page : Page) : List Element := (page.table.map OpenTable.elements).getD []

/-- The open elements as the state of the page tells them, innermost first. -/
def openElements (page : Page) : List Element := page.contentElements ++ page.tableElements

/-- What is written conforms to the content model, and has open what the state tells. -/
structure Nested (closed : Bool) (page : Page) : Prop where
  opened : Opened page.lexemes page.openElements true
  closed_eq : page.closed = closed

theorem Nested.opened_of_eq {closed : Bool} {page : Page} {es : List Element}
    (h : Nested closed page) (hes : page.openElements = es) : Opened page.lexemes es true := by
  rw [← hes]
  exact h.opened

section Push

variable {page : Page} {e : Element} {es : List Element} {settled : Bool}

theorem opened_push_opening (h : Opened page.lexemes es settled)
    (hadmits : (es.headD .div).admits e = true) (hlink : e = .a → .a ∉ es)
    (attributes : List Attribute) :
    Opened (page.push (.opening e attributes)).lexemes (e :: es) (!e.needsChild) := by
  rw [lexemes_push]
  exact h.opening hadmits hlink attributes

theorem opened_push_closing (h : Opened page.lexemes (e :: es) true) :
    Opened (page.push (.closing e)).lexemes es true := by
  rw [lexemes_push]
  exact h.closing

theorem opened_push_void (h : Opened page.lexemes es settled)
    (hholds : (es.headD .div).holdsText = true) (element : VoidElement)
    (attributes : List Attribute) :
    Opened (page.push (.void element attributes)).lexemes es true := by
  rw [lexemes_push]
  exact h.void hholds element attributes

theorem opened_push_text (h : Opened page.lexemes es true)
    (hholds : (es.headD .div).holdsText = true) (s : String) :
    Opened (page.push (.text s)).lexemes es true := by
  rw [lexemes_push]
  exact h.chars hholds s.toList

end Push

/-! What the content model tells of the state -/

section State

variable {page : Page} {table : OpenTable}

theorem holdsText_containers (page : Page) :
    (((page.list.map ListMembership.element).toList ++ page.tableElements).headD .div).holdsText =
      false := by
  cases hlist : page.list with
  | some list =>
    obtain helement | helement := list.element_cases
    · simp [helement, Element.holdsText]
    · simp [helement, Element.holdsText]
  | none =>
    cases htable : page.table with
    | none => simp [tableElements, htable, Element.holdsText]
    | some table =>
      cases hcell : table.cellOpen with
      | true => simp [tableElements, htable, OpenTable.elements, hcell, Element.holdsText]
      | false =>
        cases hrow : table.rowOpen with
        | true => simp [tableElements, htable, OpenTable.elements, hcell, hrow, Element.holdsText]
        | false => simp [tableElements, htable, OpenTable.elements, hcell, hrow, Element.holdsText]

theorem inline_eq_none (h : stacked page.openElements = true) (hblock : page.block = none) :
    page.span = none ∧ page.link = none := by
  have hholds := holdsText_containers page
  have hinline : ∀ e : Element, e = .a ∨ e = .span →
      (((page.list.map ListMembership.element).toList ++ page.tableElements).headD .div).admits e =
        true → False := by
    intro e he hadmits
    rw [Element.holdsText_of_admits he hadmits] at hholds
    exact Bool.noConfusion hholds
  cases hlink : page.link with
  | some link =>
    have helements : page.openElements = (page.span.map fun _ => Element.span).toList ++ .a ::
        ((page.list.map ListMembership.element).toList ++ page.tableElements) := by
      simp [openElements, contentElements, hlink, hblock]
    rw [helements] at h
    exact (hinline .a (.inl rfl) (admits_of_stacked h)).elim
  | none =>
    cases hspan : page.span with
    | none => exact ⟨rfl, rfl⟩
    | some span =>
      have helements : page.openElements = [] ++ .span ::
          ((page.list.map ListMembership.element).toList ++ page.tableElements) := by
        simp [openElements, contentElements, hlink, hblock, hspan]
      rw [helements] at h
      exact (hinline .span (.inr rfl) (admits_of_stacked h)).elim

theorem list_eq_none (h : stacked page.openElements = true) (htable : page.table = some table) :
    page.list = none := by
  cases hlist : page.list with
  | none => rfl
  | some list =>
    have helements : page.openElements = ((page.span.map fun _ => Element.span).toList ++
        (page.link.map fun _ => Element.a).toList ++ (page.block.map Block.element).toList) ++
          list.element :: table.elements := by
      simp [openElements, contentElements, tableElements, hlist, htable]
    rw [helements] at h
    have hadmits := admits_of_stacked h
    have hnot : (table.elements.headD .div).admits list.element = false := by
      obtain helement | helement := list.element_cases
      all_goals
        rw [helement, OpenTable.elements]
        cases table.cellOpen <;> cases table.rowOpen <;> rfl
    rw [hnot] at hadmits
    exact Bool.noConfusion hadmits

theorem rowOpen_of_cellOpen (h : stacked page.openElements = true)
    (htable : page.table = some table) (hcell : table.cellOpen = true) : table.rowOpen = true := by
  have helements : page.openElements = page.contentElements ++ table.elements := by
    simp [openElements, tableElements, htable]
  rw [helements] at h
  have hrest := stacked_append h
  rw [OpenTable.elements, hcell] at hrest
  cases hrow : table.rowOpen with
  | true => rfl
  | false =>
    rw [hrow] at hrest
    exact absurd hrest (by decide)

theorem contentElements_of_table (h : stacked page.openElements = true)
    (htable : page.table = some table) (hblock : page.block = none) :
    page.contentElements = [] := by
  have hlist := list_eq_none h htable
  obtain ⟨hspan, hlink⟩ := inline_eq_none h hblock
  simp [contentElements, hspan, hlink, hblock, hlist]

theorem openElements_of_contentElements (hcontent : page.contentElements = [])
    (htable : page.table = some table) : page.openElements = table.elements := by
  simp [openElements, hcontent, tableElements, htable]

theorem openElements_of_table (h : stacked page.openElements = true)
    (htable : page.table = some table) (hblock : page.block = none) :
    page.openElements = table.elements :=
  openElements_of_contentElements (contentElements_of_table h htable hblock) htable

theorem contentElements_eq_nil (h : stacked page.openElements = true)
    (htable : page.table = some table) (hcell : table.cellOpen = false) :
    page.contentElements = [] := by
  have hlist := list_eq_none h htable
  cases hblock : page.block with
  | none => exact contentElements_of_table h htable hblock
  | some block =>
    have helements : page.openElements = ((page.span.map fun _ => Element.span).toList ++
        (page.link.map fun _ => Element.a).toList) ++ block.element :: table.elements := by
      simp [openElements, contentElements, tableElements, hlist, htable, hblock]
    rw [helements] at h
    have hadmits := admits_of_stacked h
    have hnot : (table.elements.headD .div).admits block.element = false := by
      rw [OpenTable.elements, hcell]
      cases block <;> cases table.rowOpen <;> rfl
    rw [hnot] at hadmits
    exact Bool.noConfusion hadmits

theorem a_notMem_openElements (h : page.link = none) : .a ∉ page.openElements := by
  have hblock : ∀ block : Block, .a ≠ block.element := by
    intro block
    cases block <;> decide
  have hlist : ∀ list : ListMembership, .a ≠ list.element := by
    intro list
    obtain helement | helement := list.element_cases
    · rw [helement]
      decide
    · rw [helement]
      decide
  have htable : ∀ table : OpenTable, .a ∉ table.elements := by
    intro table
    rw [OpenTable.elements]
    cases table.cellOpen <;> cases table.rowOpen <;> decide
  rw [openElements, contentElements, tableElements, h]
  cases page.span <;> cases page.block <;> cases page.list <;> cases page.table <;>
    simp [hblock, hlist, htable]

theorem holdsText_of_block {block : Block} (h : page.block = some block) :
    (page.openElements.headD .div).holdsText = true := by
  have hblock := block.holdsText_element
  cases hspan : page.span with
  | some span => simp [openElements, contentElements, hspan, Element.holdsText]
  | none =>
    cases hlink : page.link with
    | some link => simp [openElements, contentElements, hspan, hlink, Element.holdsText]
    | none => simp [openElements, contentElements, hspan, hlink, h, hblock]

end State

/-! Closing -/

section Closing

variable {closed : Bool} {page : Page}

theorem closeSpan_eq (page : Page) :
    page.closeSpan = { page with out := page.closeSpan.out, span := none } := by
  unfold closeSpan
  split
  · rfl
  · rename_i h
    cases page
    simp_all

theorem closeLink_eq (page : Page) :
    page.closeLink = { page with out := page.closeLink.out, link := none } := by
  unfold closeLink
  split
  · rfl
  · rename_i h
    cases page
    simp_all

theorem closeInline_eq (page : Page) :
    page.closeInline = { page with out := page.closeInline.out, span := none, link := none } := by
  rw [closeInline, closeLink_eq]
  rw [closeSpan_eq]

theorem closeBlock_eq (page : Page) :
    page.closeBlock =
      { page with out := page.closeBlock.out, span := none, link := none, block := none } := by
  unfold closeBlock
  rw [closeInline_eq]
  dsimp only
  split
  · rfl
  · rename_i h
    cases page
    simp_all

theorem nested_closeSpan (h : Nested closed page) : Nested closed page.closeSpan := by
  unfold closeSpan
  split
  · rename_i span hspan
    have helements : page.openElements = .span :: { page with span := none }.openElements := by
      simp [openElements, contentElements, tableElements, hspan]
    exact ⟨opened_push_closing (h.opened_of_eq helements), h.closed_eq⟩
  · exact h

theorem nested_closeLink (h : Nested closed page) (hspan : page.span = none) :
    Nested closed page.closeLink := by
  unfold closeLink
  split
  · rename_i link hlink
    have helements : page.openElements = .a :: { page with link := none }.openElements := by
      simp [openElements, contentElements, tableElements, hspan, hlink]
    exact ⟨opened_push_closing (h.opened_of_eq helements), h.closed_eq⟩
  · exact h

theorem nested_closeInline (h : Nested closed page) : Nested closed page.closeInline :=
  nested_closeLink (nested_closeSpan h) (by rw [closeSpan_eq])

theorem nested_closeBlock (h : Nested closed page) : Nested closed page.closeBlock := by
  have hinline := nested_closeInline h
  have hspan : page.closeInline.span = none := by rw [closeInline_eq]
  have hlink : page.closeInline.link = none := by rw [closeInline_eq]
  rw [closeBlock]
  generalize page.closeInline = inline at hinline hspan hlink
  dsimp only
  split
  · rename_i block hblock
    have helements : inline.openElements =
        block.element :: { inline with block := none }.openElements := by
      simp [openElements, contentElements, tableElements, hspan, hlink, hblock]
    exact ⟨opened_push_closing (hinline.opened_of_eq helements), hinline.closed_eq⟩
  · exact hinline

theorem nested_closeList (h : Nested closed page) : Nested closed page.closeList := by
  unfold closeList
  split
  · rename_i list hlist
    have hblock := nested_closeBlock h
    have helements : page.closeBlock.openElements =
        list.element :: { page.closeBlock with list := none }.openElements := by
      rw [closeBlock_eq]
      simp [openElements, contentElements, tableElements, hlist]
    exact ⟨opened_push_closing (hblock.opened_of_eq helements), hblock.closed_eq⟩
  · exact h

@[simp] theorem list_closeList (page : Page) : page.closeList.list = none := by
  unfold closeList
  split
  · rfl
  · assumption

@[simp] theorem table_closeList (page : Page) : page.closeList.table = page.table := by
  unfold closeList
  split
  · show page.closeBlock.table = page.table
    rw [closeBlock_eq]
  · rfl

theorem block_closeList (h : page.block = none) : page.closeList.block = none := by
  unfold closeList
  split
  · show page.closeBlock.block = none
    rw [closeBlock_eq]
  · exact h

/-- What is left open of a table after the end tags of its cell and its row. -/
theorem opened_pushTableEnds {table : OpenTable} (h : Opened page.lexemes table.elements true) :
    Opened (page.pushTableEnds table).lexemes [.table] true := by
  rw [OpenTable.elements] at h
  unfold pushTableEnds
  cases hcell : table.cellOpen with
  | true =>
    rw [hcell] at h
    have hopened := opened_push_closing h
    cases hrow : table.rowOpen with
    | true =>
      rw [hrow] at hopened
      exact opened_push_closing hopened
    | false =>
      rw [hrow] at hopened
      exact hopened
  | false =>
    rw [hcell] at h
    cases hrow : table.rowOpen with
    | true =>
      rw [hrow] at h
      exact opened_push_closing h
    | false =>
      rw [hrow] at h
      exact h

theorem pushTableEnds_eq (page : Page) (table : OpenTable) :
    page.pushTableEnds table = { page with out := (page.pushTableEnds table).out } := by
  unfold pushTableEnds
  split
  · split <;> rfl
  · split <;> rfl

theorem nested_closeTable (h : Nested closed page) : Nested closed page.closeTable := by
  unfold closeTable
  split
  · rename_i table htable
    have hlist := list_eq_none h.opened.stacked_eq_true htable
    have hblock := nested_closeBlock h
    have hkept : page.closeBlock.table = some table := by rw [closeBlock_eq, htable]
    have helements := openElements_of_table hblock.opened.stacked_eq_true hkept
      (by rw [closeBlock_eq])
    have htag := opened_push_closing (opened_pushTableEnds (hblock.opened_of_eq helements))
    have hnothing : { (page.closeBlock.pushTableEnds table).push (.closing .table) with
        table := none }.openElements = [] := by
      rw [pushTableEnds_eq, closeBlock_eq]
      simp [openElements, contentElements, tableElements, push, hlist]
    refine ⟨?_, ?_⟩
    · rw [hnothing]
      exact htag
    · rw [pushTableEnds_eq]
      exact hblock.closed_eq
  · exact h

@[simp] theorem list_closeTable (page : Page) : page.closeTable.list = page.list := by
  unfold closeTable
  split
  · rename_i table _
    show (page.closeBlock.pushTableEnds table).list = page.list
    rw [pushTableEnds_eq, closeBlock_eq]
  · rfl

theorem block_closeTable (h : page.block = none) : page.closeTable.block = none := by
  unfold closeTable
  split
  · rename_i table _
    show (page.closeBlock.pushTableEnds table).block = none
    rw [pushTableEnds_eq, closeBlock_eq]
  · exact h

@[simp] theorem table_closeTable (page : Page) : page.closeTable.table = none := by
  unfold closeTable
  split
  · rfl
  · assumption

end Closing

end Page

end RichText.Html
