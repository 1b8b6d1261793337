import RichText.Proofs.Html.Surroundings
import RichText.Proofs.Html.Runs
import RichText.Proofs.Html.Pieces
set_option autoImplicit false

namespace RichText.Html

/-! What is around a run -/

def spanTags (span : Option String) : List Tag :=
  (span.map fun value => (⟨.span, [⟨.style, value⟩]⟩ : Tag)).toList

def ownAttributes (link : Option Hyperlink) : List (List Attribute) :=
  (link.bind fun link => link.href?.map (Page.linkAttributes link)).toList

def linkTags (link : Option Hyperlink) : List Tag := (ownAttributes link).map (⟨.a, ·⟩)

def Run.placed (doc : Document) (run : Run) : Placed :=
  ⟨run.char, spanTags (Page.spanValue (spanCss doc run.defaultFont run.style)) ++
    linkTags run.link⟩

theorem ownAttributes_of_eq_none {link : Option Hyperlink}
    (h : link.bind Hyperlink.href? = none) : ownAttributes link = [] := by
  cases link with
  | none => rfl
  | some link =>
    rw [Option.bind_some] at h
    simp [ownAttributes, h]

theorem ownAttributes_of_eq_some {link : Hyperlink} {href : String} (h : link.href? = some href) :
    ownAttributes (some link) = [Page.linkAttributes link href] := by
  simp [ownAttributes, h]

theorem linkTags_of_eq_none {link : Option Hyperlink} (h : link.bind Hyperlink.href? = none) :
    linkTags link = [] := by
  rw [linkTags, ownAttributes_of_eq_none h, List.map_nil]

theorem linkTags_of_eq_some {link : Hyperlink} {href : String} (h : link.href? = some href) :
    linkTags (some link) = [⟨.a, Page.linkAttributes link href⟩] := by
  rw [linkTags, ownAttributes_of_eq_some h, List.map_singleton]

theorem Run.within_a (doc : Document) (run : Run) :
    (run.placed doc).within .a = ownAttributes run.link := by
  have hspan : ∀ span, (spanTags span).filter (fun tag => tag.element = .a) = [] := by
    intro span
    cases span <;> rfl
  have hlink : (linkTags run.link).filter (fun tag => tag.element = .a) = linkTags run.link := by
    rw [List.filter_eq_self]
    intro tag htag
    obtain ⟨attributes, _, rfl⟩ := List.mem_map.1 htag
    rfl
  rw [Placed.within, placed, List.filter_append, hspan, hlink, List.nil_append, linkTags,
    List.map_map]
  exact List.map_id _

theorem Run.within_span (doc : Document) (run : Run) :
    (run.placed doc).within .span =
      (Page.spanValue (spanCss doc run.defaultFont run.style)).toList.map fun value =>
        [⟨.style, value⟩] := by
  have hspan : ∀ span, ((spanTags span).filter (fun tag => tag.element = .span)).map
      Tag.attributes = span.toList.map fun value => [⟨.style, value⟩] := by
    intro span
    cases span <;> rfl
  have hlink : (linkTags run.link).filter (fun tag => tag.element = .span) = [] := by
    rw [List.filter_eq_nil_iff]
    intro tag htag
    obtain ⟨attributes, _, rfl⟩ := List.mem_map.1 htag
    exact Bool.false_ne_true
  rw [Placed.within, placed, List.filter_append, hlink, List.append_nil, hspan]

namespace Page

variable {doc : Document} {settings : RenderSettings} {style : Style} {page : Page} {w : Runs}

/-- The page holds the runs, and what is inline and open in it is what decides on the next ones. -/
structure Follows (doc : Document) (w : Runs) (page : Page) : Prop where
  placed_eq : page.inline.placed = w.runs.map (Run.placed doc)
  around_eq : page.inline.around = spanTags page.span ++ linkTags w.link
  link_eq : page.link = w.link.bind Hyperlink.href?
  inTable_eq : page.table.isSome = w.inTable
  bookmarks_eq : page.bookmarks = w.bookmarks
  defaultFont_eq : page.defaultFont = w.defaultFont
  closed_eq : page.closed = w.closed

namespace Follows

theorem of_eq (h : Follows doc w page) {page' : Page} (hinline : page'.inline = page.inline)
    (hspan : page'.span = page.span) (hlink : page'.link = page.link)
    (htable : page'.table.isSome = page.table.isSome)
    (hbookmarks : page'.bookmarks = page.bookmarks)
    (hfont : page'.defaultFont = page.defaultFont) (hclosed : page'.closed = page.closed) :
    Follows doc w page' :=
  ⟨hinline ▸ h.placed_eq, by rw [hinline, hspan, h.around_eq], hlink.trans h.link_eq,
    htable.trans h.inTable_eq, hbookmarks.trans h.bookmarks_eq, hfont.trans h.defaultFont_eq,
    hclosed.trans h.closed_eq⟩

theorem push (h : Follows doc w page) {piece : Markup}
    (hpiece : (page.push piece).inline = page.inline) : Follows doc w (page.push piece) :=
  h.of_eq hpiece rfl rfl rfl rfl rfl rfl

theorem withTable (h : Follows doc w page) (table : Option OpenTable) :
    Follows doc { w with inTable := table.isSome } { page with table := table } :=
  ⟨h.placed_eq, h.around_eq, h.link_eq, rfl, h.bookmarks_eq, h.defaultFont_eq, h.closed_eq⟩

theorem of_endLink (h : Follows doc w.endLink page) (hlink : w.link.bind Hyperlink.href? = none) :
    Follows doc w page := by
  refine ⟨h.placed_eq, ?_, ?_, h.inTable_eq, h.bookmarks_eq, h.defaultFont_eq, h.closed_eq⟩
  · rw [linkTags_of_eq_none hlink]
    exact h.around_eq
  · rw [hlink]
    exact h.link_eq

/-! Closing -/

theorem closeSpan (h : Follows doc w page) : Follows doc w page.closeSpan := by
  unfold Page.closeSpan
  split
  · rename_i span hspan
    have hinline := inline_push_closing page (e := .span) rfl
    have haround := h.around_eq
    rw [hspan] at haround
    refine ⟨?_, ?_, h.link_eq, h.inTable_eq, h.bookmarks_eq, h.defaultFont_eq, h.closed_eq⟩
    · exact (congrArg Placement.placed hinline).trans h.placed_eq
    · refine (congrArg Placement.around hinline).trans ?_
      rw [haround]
      rfl
  · exact h

theorem closeLink (h : Follows doc w page) (hspan : page.span = none) :
    Follows doc w.endLink page.closeLink := by
  have hlink := h.link_eq
  have haround := h.around_eq
  rw [hspan] at haround
  unfold Page.closeLink
  split
  · rename_i href hhref
    obtain ⟨link, hw, hlinked⟩ := Option.bind_eq_some_iff.1 (hlink.symm.trans hhref)
    have hinline := inline_push_closing page (e := .a) rfl
    rw [hw, linkTags_of_eq_some hlinked] at haround
    refine ⟨?_, ?_, rfl, h.inTable_eq, h.bookmarks_eq, h.defaultFont_eq, h.closed_eq⟩
    · exact (congrArg Placement.placed hinline).trans h.placed_eq
    · refine (congrArg Placement.around hinline).trans ?_
      show page.inline.around.tail = spanTags page.span ++ linkTags none
      rw [haround, hspan]
      rfl
  · rename_i hnone
    rw [linkTags_of_eq_none (hlink.symm.trans hnone)] at haround
    refine ⟨h.placed_eq, ?_, hnone, h.inTable_eq, h.bookmarks_eq, h.defaultFont_eq, h.closed_eq⟩
    rw [haround, hspan]
    rfl

theorem closeInline (h : Follows doc w page) : Follows doc w.endLink page.closeInline :=
  h.closeSpan.closeLink (by rw [closeSpan_eq])

theorem closeBlock (h : Follows doc w page) : Follows doc w.endLink page.closeBlock := by
  have hinline := h.closeInline
  unfold Page.closeBlock
  dsimp only
  split
  · rename_i block _
    have hpushed := hinline.push (inline_push_closing_of_not (isInline_block block))
    exact hpushed.of_eq rfl rfl rfl rfl rfl rfl rfl
  · exact hinline

theorem closeList (h : Follows doc w page) (hlink : page.link = none) :
    Follows doc w page.closeList := by
  have hw : w.link.bind Hyperlink.href? = none := h.link_eq.symm.trans hlink
  unfold Page.closeList
  split
  · rename_i list _
    have hpushed := (h.closeBlock.of_endLink hw).push
      (inline_push_closing_of_not (isInline_list list))
    exact hpushed.of_eq rfl rfl rfl rfl rfl rfl rfl
  · exact h

theorem pushTableEnds (h : Follows doc w page) (table : OpenTable) :
    Follows doc w (page.pushTableEnds table) := by
  unfold Page.pushTableEnds
  have hcell : Follows doc w (if table.cellOpen then page.push (.closing .td) else page) := by
    split
    · exact h.push (inline_push_closing_of_not rfl)
    · exact h
  dsimp only
  split
  · exact hcell.push (inline_push_closing_of_not rfl)
  · exact hcell

theorem closeTable (h : Follows doc w page) : Follows doc (w.place false) page.closeTable := by
  have hinTable := h.inTable_eq
  unfold Page.closeTable
  split
  · rename_i table htable
    rw [htable] at hinTable
    have hplace : w.place false = { w.endLink with inTable := false } := by
      simp [Runs.place, Runs.endLink, ← hinTable]
    have hpushed := (h.closeBlock.pushTableEnds table).push
      (inline_push_closing_of_not (e := .table) rfl)
    rw [hplace]
    exact hpushed.withTable none
  · rename_i htable
    rw [htable] at hinTable
    have hplace : w.place false = w := by simp [Runs.place, ← hinTable]
    rw [hplace]
    exact h

/-! Opening -/

theorem openTable (h : Follows doc w page) :
    Follows doc (w.place true) { page.openTable.1 with table := some page.openTable.2 } := by
  have hinTable := h.inTable_eq
  unfold Page.openTable
  split
  · rename_i table htable
    rw [htable] at hinTable
    have hplace : w.place true = w := by simp [Runs.place, ← hinTable]
    rw [hplace]
    exact h.of_eq rfl rfl rfl (congrArg Option.isSome htable.symm) rfl rfl rfl
  · rename_i htable
    rw [htable] at hinTable
    have hplace : w.place true = { w.endLink with inTable := true } := by
      simp [Runs.place, Runs.endLink, ← hinTable]
    have hpushed := (h.closeBlock.closeList (by rw [closeBlock_eq])).push
      (inline_push_opening_of_not (e := .table) rfl
        (styleAttribute [⟨.borderCollapse, "collapse"⟩]))
    rw [hplace]
    exact hpushed.withTable (some {})

theorem openRow (style : Style) {table : OpenTable}
    (h : Follows doc w { page with table := some table }) :
    Follows doc w { (page.openRow style table).1 with
      table := some (page.openRow style table).2 } := by
  unfold Page.openRow
  split
  · exact h
  · have hpushed := h.push (inline_push_opening_of_not (e := .tr) rfl
      (styleAttribute (rowCss style)))
    exact hpushed.of_eq rfl rfl rfl rfl rfl rfl rfl

theorem openCell (h : Follows doc w page) (style : Style) :
    Follows doc (w.place true) (page.openCell doc style) := by
  have hrow := h.openTable.openRow style
  unfold Page.openCell
  dsimp only
  split
  · exact hrow
  · have hpushed := hrow.push (inline_push_opening_of_not (e := .td) rfl
      (styleAttribute (columnCss doc style (page.openTable.1.openRow style
        page.openTable.2).2.cellIndex)))
    exact hpushed.of_eq rfl rfl rfl rfl rfl rfl rfl

theorem openList (h : Follows doc w page) (hlink : page.link = none) (list : ListMembership) :
    Follows doc w (page.openList list) := by
  unfold Page.openList
  split
  · exact h
  · have hpushed := (h.closeList hlink).push (inline_push_opening_of_not (isInline_list list)
      (styleAttribute [⟨.listStyleType, listMarker list.numbering⟩]))
    exact hpushed.of_eq rfl rfl rfl rfl rfl rfl rfl

theorem openBlock (h : Follows doc w page) {closed : Bool} (hnested : Nested closed page)
    (style : Style) : Follows doc (w.place style.isInTable) (page.openBlock doc style) := by
  have hplace : Follows doc (w.place style.isInTable)
      (if style.isInTable then page.openCell doc style else page.closeTable) := by
    cases style.isInTable with
    | true => exact h.openCell style
    | false => exact h.closeTable
  have hstacked : stacked (if style.isInTable then page.openCell doc style
      else page.closeTable).openElements = true := by
    split
    · exact (nested_openCell doc style hnested).1.opened.stacked_eq_true
    · exact (nested_closeTable hnested).opened.stacked_eq_true
  unfold Page.openBlock
  dsimp only
  generalize (if style.isInTable then page.openCell doc style else page.closeTable) = place
    at hplace hstacked
  split
  · exact hplace
  · rename_i hblock
    have hlink : place.link = none := (inline_eq_none hstacked hblock).2
    split
    · rename_i list _
      have hpushed := (hplace.openList hlink list).push (inline_push_opening_of_not
        (isInline_block .listItem) (styleAttribute (paragraphCss doc style)))
      exact hpushed.of_eq rfl rfl rfl rfl rfl rfl rfl
    · have hpushed := (hplace.closeList hlink).push (inline_push_opening_of_not
        (isInline_block .paragraph) (styleAttribute (paragraphCss doc style)))
      exact hpushed.of_eq rfl rfl rfl rfl rfl rfl rfl

theorem setBookmark (h : Follows doc w page) (settings : RenderSettings) (style : Style) :
    Follows doc (w.ask (style.anchorId? settings)) (page.setBookmark settings style) := by
  cases hid : style.anchorId? settings with
  | none =>
    rw [setBookmark_of_none hid]
    exact h
  | some id =>
    rw [setBookmark_of_some hid, Runs.ask, ← h.bookmarks_eq]
    split
    · exact h
    · have hinline := h.closeInline
      have hempty := inline_push_empty page.closeInline (e := .a) rfl [⟨.id, id⟩]
      refine ⟨?_, ?_, hinline.link_eq, hinline.inTable_eq, ?_, hinline.defaultFont_eq,
        hinline.closed_eq⟩
      · exact (congrArg Placement.placed hempty).trans hinline.placed_eq
      · exact (congrArg Placement.around hempty).trans hinline.around_eq
      · exact congrArg (id :: ·) (by rw [closeInline_eq])

theorem setLink (h : Follows doc w page) (link : Option Hyperlink) :
    Follows doc (w.follow link) (page.setLink link) := by
  have hspan : page.closeInline.span = none := by rw [closeInline_eq]
  have hended : Follows doc ({ w with link := link } : Runs).endLink page.closeInline :=
    h.closeInline
  have hnothing : page.closeInline.inline.around = [] := by
    rw [hended.around_eq, hspan]
    rfl
  unfold Page.setLink Runs.follow
  dsimp only
  rw [← h.link_eq]
  split
  · exact h
  · cases link with
    | none => exact hended.of_endLink rfl
    | some link =>
      rw [Option.bind_some]
      cases hhref : link.href? with
      | none => exact hended.of_endLink hhref
      | some href =>
        have hopened := inline_push_opening page.closeInline (e := .a) rfl
          (linkAttributes link href)
        refine ⟨?_, ?_, hhref.symm, hended.inTable_eq, hended.bookmarks_eq,
          hended.defaultFont_eq, hended.closed_eq⟩
        · exact (congrArg Placement.placed hopened).trans hended.placed_eq
        · refine (congrArg Placement.around hopened).trans ?_
          show _ = spanTags page.closeInline.span ++ linkTags (some link)
          rw [hnothing, hspan, linkTags_of_eq_some hhref]
          rfl

theorem setSpan (h : Follows doc w page) (css : List Declaration) :
    Follows doc w (page.setSpan css) := by
  have hclosed := h.closeSpan
  have hspan : page.closeSpan.span = none := by rw [closeSpan_eq]
  unfold Page.setSpan
  dsimp only
  generalize (if css.isEmpty then none else some (cssText css)) = wanted
  split
  · exact h
  · cases wanted with
    | none => exact hclosed
    | some value =>
      have haround := hclosed.around_eq
      rw [hspan] at haround
      have hopened := inline_push_opening page.closeSpan (e := .span) rfl
        [⟨.style, value⟩]
      refine ⟨?_, ?_, hclosed.link_eq, hclosed.inTable_eq, hclosed.bookmarks_eq,
        hclosed.defaultFont_eq, hclosed.closed_eq⟩
      · exact (congrArg Placement.placed hopened).trans hclosed.placed_eq
      · refine (congrArg Placement.around hopened).trans ?_
        rw [haround]
        rfl

theorem openInline (h : Follows doc w page) {closed : Bool} (hnested : Nested closed page)
    (settings : RenderSettings) (style : Style) :
    Follows doc (w.enter settings style) (page.openInline doc settings style) :=
  ((h.openBlock hnested style).setBookmark settings style).setLink style.hyperlink?

theorem opened (h : Follows doc w page) {closed : Bool} (hnested : Nested closed page)
    (settings : RenderSettings) (style : Style) :
    Follows doc (w.enter settings style) (page.opened doc settings style) :=
  (h.openInline hnested settings style).setSpan _

/-! Events -/

theorem fill_text (h : Follows doc w page)
    (hspan : page.span = spanValue (spanCss doc page.defaultFont style)) (s : String) :
    Follows doc (w.write style s) (page.fill (.text s)) := by
  have hinline : (page.push (.text s)).inline =
      { page.inline with
        placed := page.inline.placed ++ s.toList.map (⟨·, page.inline.around⟩) } := by
    rw [inline_push]
    exact Placement.foldl_chars page.inline s.toList
  refine ⟨?_, ?_, h.link_eq, h.inTable_eq, h.bookmarks_eq, h.defaultFont_eq, h.closed_eq⟩
  · refine (congrArg Placement.placed hinline).trans ?_
    dsimp only
    rw [h.placed_eq, h.around_eq, hspan, h.defaultFont_eq]
    simp [Runs.write, Run.placed]
  · exact (congrArg Placement.around hinline).trans h.around_eq

theorem fill (h : Follows doc w page) {piece : Markup}
    (hpiece : (page.push piece).inline = page.inline) : Follows doc w (page.fill piece) :=
  (h.push hpiece).of_eq rfl rfl rfl rfl rfl rfl rfl

theorem addText (h : Follows doc w page) {closed : Bool} (hnested : Nested closed page)
    (settings : RenderSettings) (style : Style) (s : String) :
    Follows doc (w.add settings (.text style s)) (page.addText doc settings style s) := by
  cases hs : s.isEmpty with
  | true =>
    rw [addText_isEmpty hs]
    simpa [Runs.add, hs] using h
  | false =>
    cases hhidden : style.isHidden with
    | true =>
      rw [addText_isHidden hhidden]
      simpa [Runs.add, hhidden] using h
    | false =>
      rw [addText_of_ne hs hhidden]
      have hfilled := (h.opened hnested settings style).fill_text
        (ready_opened doc settings style page).span s
      simpa [Runs.add, hs, hhidden] using hfilled

theorem addTabs (h : Follows doc w page) {closed : Bool} (hnested : Nested closed page)
    (settings : RenderSettings) (style : Style) (count : Nat) :
    Follows doc (w.enter settings style) (page.addTabs doc settings style count) := by
  have hopened := h.opened hnested settings style
  unfold Page.addTabs
  exact hopened.of_eq (inline_push_empty _ (e := .span) rfl _) rfl rfl rfl rfl rfl rfl

theorem endParagraph (h : Follows doc w page) {closed : Bool} (hnested : Nested closed page)
    (style : Style) :
    Follows doc (w.place style.isInTable).endLink (page.endParagraph doc style) := by
  have hblock := h.openBlock hnested style
  unfold Page.endParagraph
  dsimp only
  split
  · exact (hblock.push (inline_push_void .br [])).closeBlock
  · exact hblock.closeBlock

theorem closeAll (h : Follows doc w page) :
    Follows doc (w.endLink.place false) page.closeBlock.closeList.closeTable :=
  (h.closeBlock.closeList (by rw [closeBlock_eq])).closeTable

theorem addPageBreak (h : Follows doc w page) :
    Follows doc (w.endLink.place false) page.addPageBreak :=
  (h.closeAll.push (inline_push_opening_of_not (e := .div) rfl
    (styleAttribute [⟨.pageBreakAfter, "always"⟩]))).push (inline_push_closing_of_not rfl)

theorem endCell (h : Follows doc w page) (style : Style) :
    Follows doc (w.place (style.isInTable || w.inTable)).endLink (page.endCell doc style) := by
  have hinTable := h.inTable_eq
  unfold Page.endCell
  split
  · rename_i houtside
    have hplace : w.place (style.isInTable || w.inTable) = w := by
      cases htable : page.table <;> simp_all [Runs.place]
    rw [hplace]
    exact h.closeBlock
  · rename_i hinside
    have hplace : (style.isInTable || w.inTable) = true := by
      cases htable : page.table <;> simp_all
    rw [hplace]
    have hcell := (h.openCell style).closeBlock
    dsimp only
    split
    · rename_i table htable
      have hpushed := hcell.push (inline_push_closing_of_not (e := .td) rfl)
      refine hpushed.of_eq rfl rfl rfl ?_ rfl rfl rfl
      exact (congrArg Option.isSome htable).symm
    · exact hcell

theorem endRow (h : Follows doc w page) : Follows doc w.endLink page.endRow := by
  unfold Page.endRow
  dsimp only
  split
  · rename_i table htable
    have hends := h.closeBlock.pushTableEnds table
    refine hends.of_eq rfl rfl rfl ?_ rfl rfl rfl
    rw [pushTableEnds_eq, htable]
    rfl
  · exact h.closeBlock

theorem addBreaks (h : Follows doc w page) {closed : Bool} (hnested : Nested closed page)
    (settings : RenderSettings) (style : Style) (kind : BreakKind) (count : Nat) :
    Follows doc (w.addBreak settings style kind) (page.addBreaks doc settings style kind count) := by
  cases kind with
  | tab => exact h.addTabs hnested settings style count
  | line => exact (h.openBlock hnested style).fill (inline_push_void .br [])
  | paragraph => exact h.endParagraph hnested style
  | «section» => exact h.closeBlock
  | page => exact h.addPageBreak
  | cell => exact h.endCell style
  | row => exact h.endRow

theorem addPicture (h : Follows doc w page) {closed : Bool} (hnested : Nested closed page)
    (settings : RenderSettings) (style : Style) (picture : Picture) :
    Follows doc (w.add settings (.picture style picture))
      (page.addPicture doc settings style picture) := by
  unfold Page.addPicture Runs.add
  dsimp only
  split
  · exact (h.openInline hnested settings style).closeSpan.fill (inline_push_void .img _)
  · exact h

theorem close (h : Follows doc w page) (settings : RenderSettings) :
    Follows doc (w.add settings .close) (page.close settings) := by
  unfold Page.close Runs.add
  dsimp only
  rw [h.closed_eq]
  split
  · exact h
  · have hmarked : Follows doc { w with closed := true } { page with closed := true } :=
      ⟨h.placed_eq, h.around_eq, h.link_eq, h.inTable_eq, h.bookmarks_eq, h.defaultFont_eq, rfl⟩
    have hended := hmarked.closeAll
    have hplace : ({ w with closed := true } : Runs).endLink.place false =
        { w.endLink.place false with closed := true } := by
      cases hin : w.inTable <;> simp [Runs.place, Runs.endLink, hin]
    rw [hplace] at hended
    split
    · exact hended.of_eq (inline_wrapped _ _) rfl rfl rfl rfl rfl rfl
    · exact hended

theorem add (h : Follows doc w page) {closed : Bool} (hnested : Nested closed page)
    (settings : RenderSettings) (event : Event) :
    Follows doc (w.add settings event) (page.add doc settings event) := by
  cases event with
  | defaultFont font =>
    exact ⟨h.placed_eq, h.around_eq, h.link_eq, h.inTable_eq, h.bookmarks_eq, rfl, h.closed_eq⟩
  | defaultTabWidth width =>
    show Follows doc w (if 0 < width then { page with tabWidth := width } else page)
    split
    · exact h.of_eq rfl rfl rfl rfl rfl rfl rfl
    · exact h
  | text style s => exact h.addText hnested settings style s
  | breaks style kind count => exact h.addBreaks hnested settings style kind count
  | picture style picture => exact h.addPicture hnested settings style picture
  | close => exact h.close settings

theorem foldl (h : Follows doc w page) {closed : Bool} (hnested : Nested closed page)
    (settings : RenderSettings) (events : List Event) :
    Follows doc (events.foldl (Runs.add settings) w) (events.foldl (Page.add doc settings) page) := by
  induction events generalizing w page closed with
  | nil => exact h
  | cons event events ih =>
    obtain ⟨_, hadded⟩ := exists_nested_add doc settings event hnested
    exact ih (h.add hnested settings event) hadded

end Follows

/-- The page of the events holds just their runs. -/
theorem follows_ofEvents (doc : Document) (settings : RenderSettings) (events : List Event) :
    Follows doc (Runs.ofEvents settings events) (ofEvents doc settings events) := by
  have hempty : Follows doc {} {} := ⟨rfl, rfl, rfl, rfl, rfl, rfl, rfl⟩
  have hnested : Nested false {} := ⟨Opened.empty, rfl⟩
  exact hempty.foldl hnested settings events

/-- A page is read as the runs of its events, in that order. -/
theorem surrounding_ofEvents {e : Element} (h : e.isInline = true) (doc : Document)
    (settings : RenderSettings) (events : List Event) :
    surrounding e (ofEvents doc settings events).html.toList =
      some ((Runs.ofEvents settings events).runs.map fun run =>
        (run.char, (run.placed doc).within e)) := by
  obtain ⟨placed, hplaced, hinline⟩ := exists_placed doc settings events
  have hruns : placed.map Placed.inline =
      (Runs.ofEvents settings events).runs.map (Run.placed doc) :=
    hinline.trans (follows_ofEvents doc settings events).placed_eq
  have hwithin : (fun p : Placed => (p.char, p.within e)) =
      (fun p => (p.char, p.within e)) ∘ Placed.inline := by
    funext p
    exact congrArg (p.char, ·) (p.within_inline h).symm
  rw [surrounding, hplaced, Option.map_some, hwithin, ← List.map_map, hruns, List.map_map]
  rfl

end Page

end RichText.Html
