import RichText.Html.Page
set_option autoImplicit false

namespace RichText

/-- The id of the anchor that content of this style asks for. -/
def Style.anchorId? (settings : RenderSettings) (style : Style) : Option String :=
  match style.bookmark? with
  | some ⟨true, id⟩ => if settings.emitBookmarks then id else none
  | _ => none

namespace Event

def anchorId? (settings : RenderSettings) : Event → Option String
  | .text style s => if s.isEmpty || style.isHidden then none else style.anchorId? settings
  | .breaks style kind _ => if kind = .tab then style.anchorId? settings else none
  | .picture style _ => if settings.embedPictures then style.anchorId? settings else none
  | .defaultFont _ | .defaultTabWidth _ | .close => none

def shown : Event → List Html.Markup
  | .text style s => if s.isEmpty || style.isHidden then [] else [.text s]
  | .breaks _ _ _ | .picture _ _ | .defaultFont _ | .defaultTabWidth _ | .close => []

end Event

namespace Html

/-- The piece is a text or gives an id. -/
def Markup.tells : Markup → Bool
  | .text _ => true
  | .opening .a attributes => attributes.any (fun a => a.name = .id)
  | .opening _ _ | .closing _ | .void _ _ => false

theorem Markup.flatMap_filter_tells {α : Type} {f : Markup → List α}
    (h : ∀ piece : Markup, piece.tells = false → f piece = []) (pieces : List Markup) :
    (pieces.filter tells).flatMap f = pieces.flatMap f := by
  induction pieces with
  | nil => rfl
  | cons piece pieces ih =>
    cases htells : piece.tells with
    | true => simp [htells, ih]
    | false => simp [htells, ih, h piece htells]

structure Told where
  pieces : List Markup := []
  /-- The ids of the anchors, newest first. -/
  bookmarks : List String := []

namespace Told

def ask (told : Told) : Option String → Told
  | some id =>
    if id ∈ told.bookmarks then told
    else ⟨told.pieces ++ [.opening .a [⟨.id, id⟩]], id :: told.bookmarks⟩
  | none => told

def add (settings : RenderSettings) (told : Told) (event : Event) : Told :=
  ⟨(told.ask (event.anchorId? settings)).pieces ++ event.shown,
    (told.ask (event.anchorId? settings)).bookmarks⟩

end Told

namespace Page

def told (page : Page) : Told := ⟨page.out.toList.filter Markup.tells, page.bookmarks⟩

variable {page : Page} {doc : Document} {settings : RenderSettings} {style : Style}

theorem told_push (page : Page) (piece : Markup) :
    (page.push piece).told =
      { page.told with pieces := page.told.pieces ++ [piece].filter Markup.tells } := by
  simp [told, push]

theorem told_push_of_not_tells {piece : Markup} (h : piece.tells = false) :
    (page.push piece).told = page.told := by
  simp [told_push, h]

@[simp] theorem told_push_opening {element : Element} (h : element ≠ .a)
    (attributes : List Attribute) :
    (page.push (.opening element attributes)).told = page.told := by
  refine told_push_of_not_tells ?_
  cases element <;> first | rfl | exact absurd rfl h

@[simp] theorem told_push_closing (element : Element) :
    (page.push (.closing element)).told = page.told := told_push_of_not_tells rfl

@[simp] theorem told_push_void (element : VoidElement) (attributes : List Attribute) :
    (page.push (.void element attributes)).told = page.told := told_push_of_not_tells rfl

@[simp] theorem told_push_link (link : Hyperlink) (href : String) :
    (page.push (.opening .a (linkAttributes link href))).told = page.told := by
  refine told_push_of_not_tells ?_
  cases htitle : link.title <;> cases htarget : link.target <;>
    simp [Markup.tells, linkAttributes, htitle, htarget]

/-- Only what is written and the bookmarks count, whatever else the page notes. -/
@[simp] theorem told_mk (page : Page) (font : Option Font) (tabWidth : Twips)
    (table : Option OpenTable) (list : Option ListMembership) (block : Option Block)
    (blockEmpty : Bool) (link span : Option String) (closed : Bool) :
    told ⟨page.out, font, tabWidth, table, list, block, blockEmpty, link, span, page.bookmarks,
      closed⟩ = page.told := rfl

@[simp] theorem element_ne_a (block : Block) : block.element ≠ .a := by
  cases block <;> simp [Block.element]

@[simp] theorem listElement_ne_a (list : ListMembership) : list.element ≠ .a := by
  unfold ListMembership.element
  split <;> simp

/-! Closing and opening tell nothing, bookmarks apart. -/

@[simp] theorem told_closeSpan : page.closeSpan.told = page.told := by
  unfold closeSpan
  split <;> simp

@[simp] theorem told_closeLink : page.closeLink.told = page.told := by
  unfold closeLink
  split <;> simp

@[simp] theorem told_closeInline : page.closeInline.told = page.told := by
  simp [closeInline]

@[simp] theorem told_closeBlock : page.closeBlock.told = page.told := by
  simp only [closeBlock]
  split <;> simp

@[simp] theorem told_closeList : page.closeList.told = page.told := by
  unfold closeList
  split <;> simp

@[simp] theorem told_pushTableEnds (table : OpenTable) :
    (page.pushTableEnds table).told = page.told := by
  simp only [pushTableEnds]
  split <;> split <;> simp

@[simp] theorem told_closeTable : page.closeTable.told = page.told := by
  unfold closeTable
  split <;> simp

@[simp] theorem told_openList (list : ListMembership) :
    (page.openList list).told = page.told := by
  unfold openList
  split <;> simp

@[simp] theorem told_openTable : page.openTable.1.told = page.told := by
  unfold openTable
  split <;> simp

@[simp] theorem told_openRow (table : OpenTable) :
    (page.openRow style table).1.told = page.told := by
  unfold openRow
  split <;> simp

@[simp] theorem told_openCell : (page.openCell doc style).told = page.told := by
  simp only [openCell]
  split <;> simp

@[simp] theorem told_openBlock : (page.openBlock doc style).told = page.told := by
  have hplace : (if style.isInTable then page.openCell doc style
      else page.closeTable).told = page.told := by
    split <;> simp
  simp only [openBlock]
  split
  · exact hplace
  · split <;> simp [hplace]

@[simp] theorem told_setLink (link : Option Hyperlink) : (page.setLink link).told = page.told := by
  simp only [setLink]
  split
  · rfl
  · split <;> simp

@[simp] theorem told_setSpan (css : List Declaration) : (page.setSpan css).told = page.told := by
  simp only [setSpan]
  generalize (if css.isEmpty then none else some (cssText css)) = wanted
  split
  · rfl
  · split <;> simp

@[simp] theorem told_fill (piece : Markup) : (page.fill piece).told = (page.push piece).told := rfl

@[simp] theorem told_addPageBreak : page.addPageBreak.told = page.told := by
  simp [addPageBreak]

@[simp] theorem told_endParagraph : (page.endParagraph doc style).told = page.told := by
  simp only [endParagraph]
  split <;> simp

@[simp] theorem told_endCell : (page.endCell doc style).told = page.told := by
  simp only [endCell]
  split
  · simp
  · split <;> simp

@[simp] theorem told_endRow : page.endRow.told = page.told := by
  simp only [endRow]
  split <;> simp

theorem told_wrapped (attributes : List Attribute) :
    told { page with
      out := #[.opening .div attributes] ++ page.out ++ #[.closing .div] } = page.told := by
  simp [told, Markup.tells]

@[simp] theorem told_close : (page.close settings).told = page.told := by
  simp only [close]
  split
  · rfl
  split
  · rw [told_wrapped]
    simp
  · simp

/-! Events -/

theorem setBookmark_of_none (h : style.anchorId? settings = none) :
    page.setBookmark settings style = page := by
  unfold Style.anchorId? at h
  unfold setBookmark
  split
  · rename_i hbookmark
    simp_all
  · rfl

theorem setBookmark_of_some {id : String} (h : style.anchorId? settings = some id) :
    page.setBookmark settings style =
      if id ∈ page.bookmarks then page
      else { (page.closeInline.push (.opening .a [⟨.id, id⟩])).push (.closing .a) with
        bookmarks := id :: page.closeInline.bookmarks } := by
  unfold Style.anchorId? at h
  split at h
  · rename_i hbookmark
    split at h
    · subst h
      rename_i hemit
      unfold setBookmark
      rw [hbookmark]
      by_cases hid : id ∈ page.bookmarks <;> simp [hid, hemit]
    · exact absurd h (by simp)
  · exact absurd h (by simp)

theorem told_setBookmark (page : Page) (settings : RenderSettings) (style : Style) :
    (page.setBookmark settings style).told = page.told.ask (style.anchorId? settings) := by
  cases hid : style.anchorId? settings with
  | none =>
    rw [setBookmark_of_none hid]
    rfl
  | some id =>
    have hnoted : page.told.bookmarks = page.bookmarks := rfl
    have hinline : page.closeInline.bookmarks = page.bookmarks :=
      congrArg Told.bookmarks told_closeInline
    have hpieces : ((page.closeInline.push (.opening .a [⟨.id, id⟩])).push (.closing .a)).told =
        ⟨page.told.pieces ++ [.opening .a [⟨.id, id⟩]], page.told.bookmarks⟩ := by
      rw [told_push_closing, told_push, told_closeInline]
      simp [Markup.tells]
    rw [setBookmark_of_some hid, Told.ask, hnoted, hinline]
    by_cases hold : id ∈ page.bookmarks
    · rw [if_pos hold, if_pos hold]
    · rw [if_neg hold, if_neg hold]
      exact congrArg (fun told => (⟨told.pieces, id :: page.bookmarks⟩ : Told)) hpieces

theorem told_openInline (page : Page) (doc : Document) (settings : RenderSettings)
    (style : Style) :
    (page.openInline doc settings style).told = page.told.ask (style.anchorId? settings) := by
  rw [openInline, told_setLink, told_setBookmark, told_openBlock]

theorem told_push_text (page : Page) (s : String) :
    (page.push (.text s)).told = ⟨page.told.pieces ++ [.text s], page.told.bookmarks⟩ :=
  told_push page (.text s)

/-- An event tells its text, after the anchor that it asks for. -/
theorem told_add (page : Page) (doc : Document) (settings : RenderSettings) (event : Event) :
    (page.add doc settings event).told = page.told.add settings event := by
  have hquiet : ∀ event : Event, event.anchorId? settings = none → event.shown = [] →
      page.told.add settings event = page.told := by
    intro event hid hshown
    simp [Told.add, Told.ask, hid, hshown]
  have hasked : ∀ event : Event, event.shown = [] →
      page.told.add settings event = page.told.ask (event.anchorId? settings) := by
    intro event hshown
    simp [Told.add, hshown]
  cases event with
  | defaultFont font => exact (hquiet _ rfl rfl).symm
  | defaultTabWidth width =>
    rw [hquiet _ rfl rfl, Page.add]
    split <;> rfl
  | close => exact told_close.trans (hquiet _ rfl rfl).symm
  | text style s =>
    by_cases hunseen : (s.isEmpty || style.isHidden) = true
    · rw [hquiet (.text style s) (if_pos hunseen) (if_pos hunseen), Page.add, addText, if_pos hunseen]
    · rw [Page.add, addText, if_neg hunseen, told_fill, told_push_text, told_setSpan,
        told_openInline, Told.add, Event.anchorId?, Event.shown, if_neg hunseen, if_neg hunseen]
  | breaks style kind count =>
    rw [hasked _ rfl, Event.anchorId?]
    cases kind with
    | tab => simp [Page.add, addBreaks, addTabs, told_openInline]
    | _ => simp [Page.add, addBreaks, Told.ask]
  | picture style picture =>
    rw [hasked _ rfl, Event.anchorId?, Page.add, addPicture]
    by_cases hembed : settings.embedPictures = true
    · simp [hembed, told_openInline]
    · simp [hembed, Told.ask]

theorem told_foldl (page : Page) (doc : Document) (settings : RenderSettings)
    (events : List Event) :
    (events.foldl (add doc settings) page).told =
      events.foldl (Told.add settings) page.told := by
  induction events generalizing page with
  | nil => rfl
  | cons event events ih => rw [List.foldl_cons, ih, told_add, List.foldl_cons]

end Page

end Html

end RichText
