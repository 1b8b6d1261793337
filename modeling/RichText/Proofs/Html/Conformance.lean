import RichText.Proofs.Html.Opening
set_option autoImplicit false

namespace RichText.Html.Page

variable {closed : Bool} {page : Page}

/-! Events -/

theorem nested_fill_text (s : String) {block : Block} (h : Nested closed page)
    (hblock : page.block = some block) : Nested closed (page.fill (.text s)) :=
  ⟨opened_push_text h.opened (holdsText_of_block hblock) s, h.closed_eq⟩

theorem nested_fill_void (element : VoidElement) (attributes : List Attribute) {block : Block}
    (h : Nested closed page) (hblock : page.block = some block) :
    Nested closed (page.fill (.void element attributes)) :=
  ⟨opened_push_void h.opened (holdsText_of_block hblock) element attributes, h.closed_eq⟩

theorem nested_addText (doc : Document) (settings : RenderSettings) (style : Style) (s : String)
    (h : Nested closed page) : Nested closed (page.addText doc settings style s) := by
  unfold addText
  split
  · exact h
  · obtain ⟨hinline, block, hblock⟩ := nested_openInline doc settings style h
    obtain ⟨hspan, hblock⟩ := nested_setSpan (spanCss doc
      (page.openInline doc settings style).defaultFont style) hinline hblock
    exact nested_fill_text s hspan hblock

theorem nested_addTabs (doc : Document) (settings : RenderSettings) (style : Style) (count : Nat)
    (h : Nested closed page) : Nested closed (page.addTabs doc settings style count) := by
  obtain ⟨hinline, block, hblock⟩ := nested_openInline doc settings style h
  obtain ⟨hspan, hblock⟩ := nested_setSpan (spanCss doc
    (page.openInline doc settings style).defaultFont style) hinline hblock
  have hadmits := (Element.admits_of_holdsText (holdsText_of_block hblock)).2
  have hopened := opened_push_opening hspan.opened hadmits (by simp)
  exact ⟨opened_push_closing (hopened _), hspan.closed_eq⟩

theorem nested_endParagraph (doc : Document) (style : Style) (h : Nested closed page) :
    Nested closed (page.endParagraph doc style) := by
  obtain ⟨hopen, block, hblock⟩ := nested_openBlock doc style h
  unfold endParagraph
  dsimp only
  refine nested_closeBlock ?_
  split
  · exact ⟨opened_push_void hopen.opened (holdsText_of_block hblock) .br [], hopen.closed_eq⟩
  · exact hopen

theorem nothing_open (h : Nested closed page) :
    Nested closed page.closeBlock.closeList.closeTable ∧
      page.closeBlock.closeList.closeTable.openElements = [] := by
  have hlist := nested_closeList (nested_closeBlock h)
  have htable := nested_closeTable hlist
  have hblock : page.closeBlock.closeList.closeTable.block = none :=
    block_closeTable (block_closeList (by rw [closeBlock_eq]))
  obtain ⟨hspan, hlink⟩ := inline_eq_none htable.opened.stacked_eq_true hblock
  refine ⟨htable, ?_⟩
  simp [openElements, contentElements, tableElements, hspan, hlink, hblock]

theorem nested_addPageBreak (h : Nested closed page) : Nested closed page.addPageBreak := by
  obtain ⟨hclosed, hnothing⟩ := nothing_open h
  unfold addPageBreak
  dsimp only
  generalize page.closeBlock.closeList.closeTable = bare at hclosed hnothing
  have hdiv := opened_push_opening (e := .div) (hclosed.opened_of_eq hnothing) rfl (by decide)
  refine ⟨?_, hclosed.closed_eq⟩
  have helements : ∀ piece piece', ((bare.push piece).push piece').openElements = [] :=
    fun _ _ => hnothing
  rw [helements]
  exact opened_push_closing (hdiv _)

theorem nested_endCell (doc : Document) (style : Style) (h : Nested closed page) :
    Nested closed (page.endCell doc style) := by
  unfold endCell
  split
  · exact nested_closeBlock h
  · obtain ⟨hcell, table, htable, hopen⟩ := nested_openCell doc style h
    have hnested := nested_closeBlock hcell
    have hkept : (page.openCell doc style).closeBlock.table = some table := by
      rw [closeBlock_eq, htable]
    have hblock : (page.openCell doc style).closeBlock.block = none := by rw [closeBlock_eq]
    dsimp only
    generalize (page.openCell doc style).closeBlock = filled at hnested hkept hblock
    have hstacked := hnested.opened.stacked_eq_true
    have hrow := rowOpen_of_cellOpen hstacked hkept hopen
    have hcontent := contentElements_of_table hstacked hkept hblock
    have hbefore : table.elements = [.td, .tr, .table] := by
      simp [OpenTable.elements, hopen, hrow]
    have hafter : { table with cellOpen := false, cellIndex := table.cellIndex + 1 }.elements =
        [.tr, .table] := by
      simp [OpenTable.elements, hrow]
    have helements : { filled.push (.closing .td) with table := some { table with
        cellOpen := false, cellIndex := table.cellIndex + 1 } }.openElements =
        { table with cellOpen := false, cellIndex := table.cellIndex + 1 }.elements :=
      openElements_of_contentElements hcontent rfl
    have hopened := hnested.opened_of_eq
      ((openElements_of_table hstacked hkept hblock).trans hbefore)
    rw [hkept]
    refine ⟨?_, hnested.closed_eq⟩
    rw [helements, hafter]
    exact opened_push_closing hopened

theorem nested_endRow (h : Nested closed page) : Nested closed page.endRow := by
  have hnested := nested_closeBlock h
  have hblock : page.closeBlock.block = none := by rw [closeBlock_eq]
  unfold endRow
  dsimp only
  generalize page.closeBlock = filled at hnested hblock
  split
  · rename_i table htable
    have hstacked := hnested.opened.stacked_eq_true
    have hcontent := contentElements_of_table hstacked htable hblock
    have hends := opened_pushTableEnds
      (hnested.opened_of_eq (openElements_of_table hstacked htable hblock))
    rw [pushTableEnds_eq] at hends ⊢
    have helements : { filled with
        out := (filled.pushTableEnds table).out, table := some {} }.openElements =
        OpenTable.elements {} := openElements_of_contentElements hcontent rfl
    refine ⟨?_, hnested.closed_eq⟩
    rw [helements]
    exact hends
  · exact hnested

theorem nested_addBreaks (doc : Document) (settings : RenderSettings) (style : Style)
    (kind : BreakKind) (count : Nat) (h : Nested closed page) :
    Nested closed (page.addBreaks doc settings style kind count) := by
  cases kind with
  | tab => exact nested_addTabs doc settings style count h
  | line =>
    obtain ⟨hopen, block, hblock⟩ := nested_openBlock doc style h
    exact nested_fill_void .br [] hopen hblock
  | paragraph => exact nested_endParagraph doc style h
  | page => exact nested_addPageBreak h
  | cell => exact nested_endCell doc style h
  | row => exact nested_endRow h
  | _ => exact nested_closeBlock h

theorem nested_addPicture (doc : Document) (settings : RenderSettings) (style : Style)
    (picture : Picture) (h : Nested closed page) :
    Nested closed (page.addPicture doc settings style picture) := by
  unfold addPicture
  split
  · obtain ⟨hinline, block, hblock⟩ := nested_openInline doc settings style h
    have hbare := nested_closeSpan hinline
    have hkept : (page.openInline doc settings style).closeSpan.block = some block := by
      rw [closeSpan_eq, hblock]
    exact nested_fill_void .img _ hbare hkept
  · exact h

theorem nested_add (doc : Document) (settings : RenderSettings) {event : Event}
    (hevent : event ≠ .close) (h : Nested closed page) :
    Nested closed (page.add doc settings event) := by
  cases event with
  | defaultFont font => exact ⟨h.opened, h.closed_eq⟩
  | defaultTabWidth width =>
    show Nested closed (if 0 < width then { page with tabWidth := width } else page)
    split
    · exact ⟨h.opened, h.closed_eq⟩
    · exact h
  | text style s => exact nested_addText doc settings style s h
  | breaks style kind count => exact nested_addBreaks doc settings style kind count h
  | picture style picture => exact nested_addPicture doc settings style picture h
  | close => exact absurd rfl hevent

theorem nested_foldl (doc : Document) (settings : RenderSettings) {events : List Event}
    (hevents : Event.close ∉ events) (h : Nested closed page) :
    Nested closed (events.foldl (add doc settings) page) := by
  induction events generalizing page with
  | nil => exact h
  | cons event events ih =>
    have hevent : event ≠ .close := fun heq => hevents (heq ▸ List.mem_cons_self)
    have hrest : Event.close ∉ events := fun hmem => hevents (List.mem_cons_of_mem _ hmem)
    exact ih hrest (nested_add doc settings hevent h)

theorem nested_ofEvents (doc : Document) (settings : RenderSettings) {events : List Event}
    (hevents : Event.close ∉ events) : Nested false (ofEvents doc settings events) := by
  have hempty : Nested false {} := ⟨Opened.empty, rfl⟩
  exact nested_foldl doc settings hevents hempty

/-! The end of a page -/

theorem opened_close (settings : RenderSettings) (h : Nested false page) :
    Opened (page.close settings).lexemes [] true := by
  have hmarked : Nested true { page with closed := true } := ⟨h.opened, rfl⟩
  obtain ⟨hclosed, hnothing⟩ := nothing_open hmarked
  unfold close
  rw [h.closed_eq, if_neg Bool.false_ne_true]
  dsimp only
  generalize { page with closed := true }.closeBlock.closeList.closeTable = bare
    at hclosed hnothing
  have hopened := hclosed.opened_of_eq hnothing
  split
  · have hlexemes : ∀ attributes, { bare with
        out := #[Markup.opening .div attributes] ++ bare.out ++ #[Markup.closing .div] }.lexemes =
        .opening .div attributes :: bare.lexemes ++ [.closing .div] := by
      intro attributes
      simp [lexemes, Markup.lexemes]
    rw [hlexemes]
    exact hopened.wrapped _
  · exact hopened

/-- However events follow one another, the page that they end in reads back as the pieces that it
was written from, and these are a forest that conforms to the content model. -/
theorem close_conforms (doc : Document) (settings : RenderSettings) (events : List Event)
    (h : Event.close ∉ events) :
    let page := (ofEvents doc settings events).close settings
    read page.html.toList = some (page.out.toList.flatMap Markup.lexemes) ∧
      ∃ forest, Node.conformsAll .div false forest = true ∧
        read page.html.toList = some (Node.lexemesOfList forest) := by
  intro page
  have hread : read page.html.toList = some page.lexemes := read_write page.out
  have hopened := opened_close settings (nested_ofEvents doc settings h)
  obtain ⟨forest, hforest, hlexemes⟩ := hopened.exists_forest
  refine ⟨hread, forest, hforest, ?_⟩
  rw [hlexemes]
  exact hread

def textsAndTable : List Event :=
  [.text {} "<p>", .breaks {} .paragraph 1, .text (Style.add {} (.atom .inTable)) "b",
    .breaks {} .row 1]

theorem close_conforms_textsAndTable :
    Event.close ∉ textsAndTable ∧
      ((ofEvents {} {} textsAndTable).close {}).html = "<div><p>&lt;p&gt;</p>" ++
        "<table style=\"border-collapse:collapse\"><tr><td><p>b</p></td></tr></table></div>" ∧
      ∃ forest, Node.conformsAll .div false forest = true ∧
        read ((ofEvents {} {} textsAndTable).close {}).html.toList =
          some (Node.lexemesOfList forest) :=
  ⟨by decide, by decide, (close_conforms {} {} textsAndTable (by decide)).2⟩

end RichText.Html.Page
