import RichText.Proofs.Html.Anchors
import RichText.Proofs.Html.Pieces
import RichText.Proofs.Html.Surroundings
set_option autoImplicit false

/-!
Where anchors stand. The first content that asks for an id finds the anchor right before it, in the
block that is opened for both. Main statement: `anchors_precede_content`.
-/
namespace RichText

open Html

def Event.content (tabWidth : Twips) : Event → List Markup
  | .text _ s => [.text s]
  | .breaks _ .tab count =>
    let width := Twips.clamp (tabWidth.toInt * (Twips.clamp count).toInt)
    let css : List Declaration := [⟨.display, "inline-block"⟩, ⟨.width, points width⟩]
    [.opening .span (styleAttribute css), .closing .span]
  | .picture _ p => [.void .img (⟨.src, p.dataUri⟩ :: styleAttribute (Page.pictureCss p))]
  | .breaks _ _ _ | .defaultFont _ | .defaultTabWidth _ | .close => []

theorem Style.anchorId?_of_not {settings : RenderSettings} (h : settings.emitBookmarks = false)
    (style : Style) : style.anchorId? settings = none := by
  unfold Style.anchorId?
  split
  · rw [h, if_neg Bool.false_ne_true]
  · rfl

theorem Event.anchorId?_of_not {settings : RenderSettings} (h : settings.emitBookmarks = false)
    (event : Event) : event.anchorId? settings = none := by
  cases event <;> simp [Event.anchorId?, Style.anchorId?_of_not h]

namespace Html

namespace Lexeme

def isTag : Lexeme → Bool
  | .opening _ _ | .closing _ => true
  | .void _ _ | .char _ => false

def opensInline : Lexeme → Bool
  | .opening e _ => e.isInline
  | .closing _ | .void _ _ | .char _ => false

def anchor (id : String) : List Lexeme := [.opening .a [⟨.id, id⟩], .closing .a]

end Lexeme

/-- The parts of a page around an anchor and the content behind it. -/
structure AnchorPlace where
  /-- The start tag of a `div` that is put around the page later. -/
  wrapper : List Lexeme
  /-- What is closed and opened to come to a block. -/
  way : List Lexeme
  block : Block
  /-- What is opened in the block between the anchor and the content. -/
  inline : List Lexeme
  rest : List Lexeme

/-- In the page comes what is `written` first. In the block that is open next stand the anchor and
the content, with start tags of links and spans alone between the two. -/
structure AnchorPlace.Holds (place : AnchorPlace) (id : String)
    (written content page : List Lexeme) : Prop where
  page_eq : page = place.wrapper ++ written ++ place.way ++ Lexeme.anchor id ++ place.inline ++
    content ++ place.rest
  wrapper_eq : place.wrapper = [] ∨ ∃ attributes, place.wrapper = [.opening .div attributes]
  isTag : ∀ l ∈ place.way, l.isTag = true
  opensInline : ∀ l ∈ place.inline, l.opensInline = true
  inBlock : ∃ p, (place.wrapper ++ written ++ place.way).foldlM Placement.step {} = some p ∧
    p.around.head?.map Tag.element = some place.block.element

/-! What is around a part of a page -/

namespace Placement

def under (outer : List Tag) (p : Placement) : Placement :=
  ⟨p.around ++ outer, p.placed.map fun c => { c with around := c.around ++ outer }⟩

theorem step_under {p q : Placement} {lexeme : Lexeme} (outer : List Tag)
    (h : p.step lexeme = some q) : (p.under outer).step lexeme = some (q.under outer) := by
  cases lexeme with
  | opening e attributes =>
    obtain rfl := Option.some.inj h
    rfl
  | closing e =>
    unfold step at h
    dsimp only at h
    split at h
    · exact absurd h (by simp)
    · rename_i tag around haround
      split at h
      · rename_i htag
        obtain rfl := Option.some.inj h
        simp [step, under, haround, htag]
      · exact absurd h (by simp)
  | void e attributes =>
    obtain rfl := Option.some.inj h
    rfl
  | char c =>
    obtain rfl := Option.some.inj h
    simp [step, under]

theorem foldlM_under {lexemes : List Lexeme} {p q : Placement} (outer : List Tag)
    (h : lexemes.foldlM step p = some q) :
    lexemes.foldlM step (p.under outer) = some (q.under outer) := by
  induction lexemes generalizing p with
  | nil =>
    obtain rfl := Option.some.inj h
    rfl
  | cons lexeme lexemes ih =>
    rw [List.foldlM_cons, Option.bind_eq_bind, Option.bind_eq_some_iff] at h
    obtain ⟨next, hnext, hrest⟩ := h
    rw [List.foldlM_cons, step_under outer hnext, Option.bind_eq_bind, Option.bind_some, ih hrest]

end Placement

theorem Opened.exists_placement_wrapped {found wrapper : List Lexeme} {e : Element}
    {es : List Element} {settled : Bool} (h : Opened found (e :: es) settled)
    (hwrapper : wrapper = [] ∨ ∃ attributes, wrapper = [.opening .div attributes]) :
    ∃ p, (wrapper ++ found).foldlM Placement.step {} = some p ∧
      p.around.head?.map Tag.element = some e := by
  obtain ⟨p, hp, hes⟩ := h.exists_placement
  have hhead : p.around.head?.map Tag.element = some e := by
    rw [← List.head?_map, hes, List.head?_cons]
  obtain rfl | ⟨attributes, rfl⟩ := hwrapper
  · exact ⟨p, hp, hhead⟩
  · refine ⟨p.under [⟨.div, attributes⟩], Placement.foldlM_under _ hp, ?_⟩
    obtain ⟨tag, htag, rfl⟩ := Option.map_eq_some_iff.1 hhead
    simp [Placement.under, htag]

namespace Page

/-! More of one sort -/

/-- `page` is `start` with more written, all of it of one sort, and tabs are as wide as before. -/
structure Adds (sort : Lexeme → Bool) (start page : Page) : Prop where
  exists_lexemes : ∃ more, page.lexemes = start.lexemes ++ more ∧ ∀ l ∈ more, sort l = true
  tabWidth_eq : page.tabWidth = start.tabWidth

namespace Adds

variable {sort : Lexeme → Bool} {start page page' : Page} {doc : Document} {style : Style}

theorem refl (sort : Lexeme → Bool) (page : Page) : Adds sort page page :=
  ⟨⟨[], by simp, by simp⟩, rfl⟩

theorem trans (h : Adds sort start page) (h' : Adds sort page page') : Adds sort start page' := by
  obtain ⟨more, hmore, hsort⟩ := h.exists_lexemes
  obtain ⟨more', hmore', hsort'⟩ := h'.exists_lexemes
  refine ⟨⟨more ++ more', ?_, List.forall_mem_append.2 ⟨hsort, hsort'⟩⟩,
    h'.tabWidth_eq.trans h.tabWidth_eq⟩
  rw [hmore', hmore, List.append_assoc]

theorem push (h : Adds sort start page) (piece : Markup)
    (hpiece : ∀ l ∈ piece.lexemes, sort l = true) : Adds sort start (page.push piece) :=
  h.trans ⟨⟨piece.lexemes, lexemes_push page piece, hpiece⟩, rfl⟩

theorem opening (h : Adds Lexeme.isTag start page) (e : Element) (attributes : List Attribute) :
    Adds Lexeme.isTag start (page.push (.opening e attributes)) :=
  h.push _ (List.forall_mem_singleton.2 rfl)

theorem closing (h : Adds Lexeme.isTag start page) (e : Element) :
    Adds Lexeme.isTag start (page.push (.closing e)) :=
  h.push _ (List.forall_mem_singleton.2 rfl)

theorem of_eq (h : Adds sort start page) (hlexemes : page'.lexemes = page.lexemes)
    (hwidth : page'.tabWidth = page.tabWidth) : Adds sort start page' := by
  obtain ⟨more, hmore, hsort⟩ := h.exists_lexemes
  exact ⟨⟨more, hlexemes.trans hmore, hsort⟩, hwidth.trans h.tabWidth_eq⟩

/-! Closing and opening -/

theorem closeSpan (h : Adds Lexeme.isTag start page) : Adds Lexeme.isTag start page.closeSpan := by
  unfold Page.closeSpan
  split
  · exact (h.closing .span).of_eq rfl rfl
  · exact h

theorem closeLink (h : Adds Lexeme.isTag start page) : Adds Lexeme.isTag start page.closeLink := by
  unfold Page.closeLink
  split
  · exact (h.closing .a).of_eq rfl rfl
  · exact h

theorem closeInline (h : Adds Lexeme.isTag start page) :
    Adds Lexeme.isTag start page.closeInline :=
  h.closeSpan.closeLink

theorem closeBlock (h : Adds Lexeme.isTag start page) :
    Adds Lexeme.isTag start page.closeBlock := by
  unfold Page.closeBlock
  dsimp only
  split
  · rename_i block _
    exact (h.closeInline.closing block.element).of_eq rfl rfl
  · exact h.closeInline

theorem closeList (h : Adds Lexeme.isTag start page) : Adds Lexeme.isTag start page.closeList := by
  unfold Page.closeList
  split
  · rename_i list _
    exact (h.closeBlock.closing list.element).of_eq rfl rfl
  · exact h

theorem pushTableEnds (h : Adds Lexeme.isTag start page) (table : OpenTable) :
    Adds Lexeme.isTag start (page.pushTableEnds table) := by
  unfold Page.pushTableEnds
  split
  · split
    · exact (h.closing .td).closing .tr
    · exact h.closing .td
  · split
    · exact h.closing .tr
    · exact h

theorem closeTable (h : Adds Lexeme.isTag start page) :
    Adds Lexeme.isTag start page.closeTable := by
  unfold Page.closeTable
  split
  · rename_i table _
    exact ((h.closeBlock.pushTableEnds table).closing .table).of_eq rfl rfl
  · exact h

theorem openList (h : Adds Lexeme.isTag start page) (list : ListMembership) :
    Adds Lexeme.isTag start (page.openList list) := by
  unfold Page.openList
  split
  · exact h
  · exact (h.closeList.opening list.element _).of_eq rfl rfl

theorem openTable (h : Adds Lexeme.isTag start page) :
    Adds Lexeme.isTag start page.openTable.1 := by
  unfold Page.openTable
  split
  · exact h
  · exact h.closeBlock.closeList.opening .table _

theorem openRow (h : Adds Lexeme.isTag start page) (style : Style) (table : OpenTable) :
    Adds Lexeme.isTag start (page.openRow style table).1 := by
  unfold Page.openRow
  split
  · exact h
  · exact h.opening .tr _

theorem openCell (h : Adds Lexeme.isTag start page) (doc : Document) (style : Style) :
    Adds Lexeme.isTag start (page.openCell doc style) := by
  have hrow := h.openTable.openRow style page.openTable.2
  unfold Page.openCell
  dsimp only
  split
  · exact hrow.of_eq rfl rfl
  · exact (hrow.opening .td _).of_eq rfl rfl

theorem openBlock (h : Adds Lexeme.isTag start page) (doc : Document) (style : Style) :
    Adds Lexeme.isTag start (page.openBlock doc style) := by
  have hplace : Adds Lexeme.isTag start
      (if style.isInTable then page.openCell doc style else page.closeTable) := by
    split
    · exact h.openCell doc style
    · exact h.closeTable
  unfold Page.openBlock
  dsimp only
  generalize (if style.isInTable then page.openCell doc style else page.closeTable) = place
    at hplace
  split
  · exact hplace
  · split
    · rename_i list _
      exact ((hplace.openList list).opening (Block.element .listItem) _).of_eq rfl rfl
    · exact (hplace.closeList.opening (Block.element .paragraph) _).of_eq rfl rfl

end Adds

section Events

variable {page : Page} {doc : Document} {settings : RenderSettings} {style : Style}
  {event : Event} {id : String} {closed : Bool}

/-! Inline elements -/

theorem closeSpan_of_none (hspan : page.span = none) : page.closeSpan = page := by
  rw [closeSpan, hspan]

theorem closeInline_of_none (hspan : page.span = none) (hlink : page.link = none) :
    page.closeInline = page := by
  rw [closeInline, closeSpan_of_none hspan, closeLink, hlink]

theorem adds_setLink (hspan : page.span = none) (hlink : page.link = none)
    (link : Option Hyperlink) :
    Adds Lexeme.opensInline page (page.setLink link) ∧ (page.setLink link).span = none := by
  have hsame := Adds.refl Lexeme.opensInline page
  unfold setLink
  dsimp only
  rw [closeInline_of_none hspan hlink]
  split
  · exact ⟨hsame, hspan⟩
  · split
    · rename_i link href _ _
      have htag := hsame.push (.opening .a (linkAttributes link href))
        (List.forall_mem_singleton.2 rfl)
      exact ⟨htag.of_eq rfl rfl, hspan⟩
    · exact ⟨hsame, hspan⟩

theorem adds_setSpan (hspan : page.span = none) (css : List Declaration) :
    Adds Lexeme.opensInline page (page.setSpan css) := by
  have hsame := Adds.refl Lexeme.opensInline page
  unfold setSpan
  dsimp only
  rw [closeSpan_of_none hspan]
  generalize (if css.isEmpty then none else some (cssText css)) = wanted
  split
  · exact hsame
  · split
    · rename_i value _
      have htag := hsame.push (.opening .span [⟨.style, value⟩]) (List.forall_mem_singleton.2 rfl)
      exact htag.of_eq rfl rfl
    · exact hsame

/-! Content with an anchor -/

def anchored (id : String) (page : Page) : Page :=
  { (page.push (.opening .a [⟨.id, id⟩])).push (.closing .a) with
    bookmarks := id :: page.bookmarks }

theorem lexemes_foldl_push (page : Page) (pieces : List Markup) :
    (pieces.foldl push page).lexemes = page.lexemes ++ pieces.flatMap Markup.lexemes := by
  induction pieces generalizing page with
  | nil => simp
  | cons piece pieces ih =>
    rw [List.foldl_cons, ih, lexemes_push, List.append_assoc, List.flatMap_cons]

theorem lexemes_anchored (id : String) (page : Page) :
    (page.anchored id).lexemes = page.lexemes ++ Lexeme.anchor id :=
  lexemes_foldl_push page [.opening .a [⟨.id, id⟩], .closing .a]

/-- Where an anchor comes to stand: in a block, outside of links and spans. -/
def openAnchor (doc : Document) (page : Page) (style : Style) : Page :=
  (page.openBlock doc style).closeInline

theorem adds_openAnchor (doc : Document) (page : Page) (style : Style) :
    Adds Lexeme.isTag page (page.openAnchor doc style) :=
  ((Adds.refl _ page).openBlock doc style).closeInline

theorem nested_openAnchor (doc : Document) (style : Style) (h : Nested closed page) :
    ∃ block : Block, ∃ es,
      Opened (page.openAnchor doc style).lexemes (block.element :: es) true := by
  obtain ⟨hopen, block, hblock⟩ := nested_openBlock doc style h
  have hnested := nested_closeInline hopen
  have helements : (page.openAnchor doc style).openElements =
      block.element :: ((page.openAnchor doc style).list.map ListMembership.element).toList ++
        (page.openAnchor doc style).tableElements := by
    rw [openAnchor, closeInline_eq]
    simp [openElements, contentElements, hblock]
  exact ⟨block, _, hnested.opened_of_eq helements⟩

theorem adds_openInline (doc : Document) (hid : style.anchorId? settings = some id)
    (hnew : id ∉ page.bookmarks) :
    Adds Lexeme.opensInline ((page.openAnchor doc style).anchored id)
        (page.openInline doc settings style) ∧
      (page.openInline doc settings style).span = none := by
  have hkept : (page.openBlock doc style).bookmarks = page.bookmarks :=
    congrArg Told.bookmarks told_openBlock
  have hmark : (page.openBlock doc style).setBookmark settings style =
      (page.openAnchor doc style).anchored id := by
    rw [setBookmark_of_some hid, hkept, if_neg hnew]
    rfl
  have hspan : ((page.openAnchor doc style).anchored id).span = none := by
    show (page.openBlock doc style).closeInline.span = none
    rw [closeInline_eq]
  have hlink : ((page.openAnchor doc style).anchored id).link = none := by
    show (page.openBlock doc style).closeInline.link = none
    rw [closeInline_eq]
  rw [openInline, hmark]
  exact adds_setLink hspan hlink style.hyperlink?

theorem adds_opened (doc : Document) (hid : style.anchorId? settings = some id)
    (hnew : id ∉ page.bookmarks) :
    Adds Lexeme.opensInline ((page.openAnchor doc style).anchored id)
      (page.opened doc settings style) := by
  obtain ⟨hinline, hspan⟩ := adds_openInline doc hid hnew
  exact hinline.trans (adds_setSpan hspan _)

theorem exists_add (doc : Document) (hid : event.anchorId? settings = some id)
    (hnew : id ∉ page.bookmarks) :
    ∃ style inner, Adds Lexeme.opensInline ((page.openAnchor doc style).anchored id) inner ∧
      (page.add doc settings event).lexemes =
        ((event.content inner.tabWidth).foldl push inner).lexemes := by
  cases event with
  | text style s =>
    obtain ⟨hseen, hid⟩ := Option.ite_none_left_eq_some.1 hid
    refine ⟨style, page.opened doc settings style, adds_opened doc hid hnew, ?_⟩
    rw [add, addText, if_neg hseen]
    rfl
  | breaks style kind count =>
    cases kind with
    | tab => exact ⟨style, page.opened doc settings style, adds_opened doc hid hnew, rfl⟩
    | _ => exact absurd hid (by simp [Event.anchorId?])
  | picture style picture =>
    obtain ⟨hembed, hid⟩ := Option.ite_none_right_eq_some.1 hid
    obtain ⟨hinline, hspan⟩ := adds_openInline doc hid hnew
    refine ⟨style, page.openInline doc settings style, hinline, ?_⟩
    rw [add, addPicture, if_pos hembed, closeSpan_of_none hspan]
    rfl
  | defaultFont _ | defaultTabWidth _ | close => exact absurd hid (by simp [Event.anchorId?])

/-! What comes later -/

def IsWrapper (closed : Bool) (wrapper : List Lexeme) : Prop :=
  wrapper = [] ∨ closed = false ∧ ∃ attributes, wrapper = [.opening .div attributes]

theorem exists_lexemes_of_behind {f : Page → Page}
    (hf : ∀ page front, f (page.behind front) = (f page).behind front) (page : Page) :
    ∃ back, (f page).lexemes = page.lexemes ++ back := by
  refine ⟨(f { page with out := #[] }).lexemes, ?_⟩
  rw [eq_behind hf]
  simp [lexemes, behind]

theorem exists_lexemes_close (settings : RenderSettings) (page : Page) :
    ∃ wrapper back, (page.close settings).lexemes = wrapper ++ page.lexemes ++ back ∧
      IsWrapper page.closed wrapper := by
  unfold close
  split
  · exact ⟨[], [], by simp, .inl rfl⟩
  · rename_i hopen
    obtain ⟨back, hback⟩ := exists_lexemes_of_behind
      (f := fun page => { page with closed := true }.closeBlock.closeList.closeTable)
      (fun _ _ => closeAll_behind) page
    dsimp only at hback ⊢
    generalize { page with closed := true }.closeBlock.closeList.closeTable = ended at hback ⊢
    split
    · refine ⟨[.opening .div (styleAttribute (ended.defaultFont.toList.map fontDeclaration))],
        back ++ [.closing .div], ?_, .inr ⟨by simpa using hopen, _, rfl⟩⟩
      rw [List.append_assoc, ← List.append_assoc page.lexemes, ← hback]
      simp [lexemes, Markup.lexemes]
    · exact ⟨[], back, hback, .inl rfl⟩

/-- Later events leave what is written in one piece. -/
theorem exists_lexemes_foldl (doc : Document) (settings : RenderSettings) (events : List Event)
    (h : Nested closed page) :
    ∃ wrapper back, (events.foldl (add doc settings) page).lexemes =
      wrapper ++ page.lexemes ++ back ∧ IsWrapper closed wrapper := by
  induction events generalizing page closed with
  | nil => exact ⟨[], [], by simp, .inl rfl⟩
  | cons event events ih =>
    by_cases hclose : event = .close
    · subst hclose
      obtain ⟨first, last, hpage, hfirst⟩ := exists_lexemes_close settings page
      obtain ⟨wrapper, back, hlater, hwrapper⟩ := ih (nested_close settings h)
      obtain rfl : wrapper = [] := hwrapper.resolve_right fun hopen => Bool.noConfusion hopen.1
      refine ⟨first, last ++ back, ?_, h.closed_eq ▸ hfirst⟩
      rw [List.foldl_cons, add, hlater, hpage, List.nil_append, List.append_assoc]
    · obtain ⟨more, hmore⟩ := exists_lexemes_of_behind
        (f := fun page => page.add doc settings event) (fun _ _ => add_behind hclose) page
      obtain ⟨wrapper, back, hlater, hwrapper⟩ := ih (nested_add doc settings hclose h)
      refine ⟨wrapper, more ++ back, ?_, hwrapper⟩
      rw [List.foldl_cons, hlater, hmore]
      simp only [List.append_assoc]

end Events

/-- The first event that asks for an id finds its anchor in its block and right before it. -/
theorem exists_anchorPlace (doc : Document) (settings : RenderSettings)
    (before after : List Event) {event : Event} {id : String}
    (hid : event.anchorId? settings = some id)
    (hnew : id ∉ before.filterMap (Event.anchorId? settings)) :
    ∃ place : AnchorPlace, place.Holds id (ofEvents doc settings before).lexemes
      ((event.content (ofEvents doc settings before).tabWidth).flatMap Markup.lexemes)
      (ofEvents doc settings (before ++ event :: after)).lexemes := by
  obtain ⟨closed, hnested⟩ := exists_nested_ofEvents doc settings before
  have hnoted : id ∉ (ofEvents doc settings before).told.bookmarks := by
    rw [(anchored_ofEvents doc settings before).bookmarks_eq, List.mem_reverse, List.mem_eraseDups]
    exact hnew
  rw [ofEvents_append, List.foldl_cons]
  generalize ofEvents doc settings before = page at hnested hnoted ⊢
  obtain ⟨style, inner, hinner, hadd⟩ := exists_add doc hid hnoted
  obtain ⟨block, es, hblock⟩ := nested_openAnchor doc style hnested
  have hopen := adds_openAnchor doc page style
  obtain ⟨way, hway, hisTag⟩ := hopen.exists_lexemes
  obtain ⟨inline, hinline, hopens⟩ := hinner.exists_lexemes
  have hwidth : inner.tabWidth = page.tabWidth := hinner.tabWidth_eq.trans hopen.tabWidth_eq
  obtain ⟨closed', hnested'⟩ := exists_nested_add doc settings event hnested
  obtain ⟨wrapper, rest, hlater, hwrapper⟩ := exists_lexemes_foldl doc settings after hnested'
  have hdiv : wrapper = [] ∨ ∃ attributes, wrapper = [.opening .div attributes] :=
    hwrapper.imp_right And.right
  rw [lexemes_foldl_push, hinline, lexemes_anchored, hway, hwidth] at hadd
  rw [hadd] at hlater
  refine ⟨⟨wrapper, way, block, inline, rest⟩, ?_, hdiv, hisTag, hopens, ?_⟩
  · rw [hlater]
    simp only [List.append_assoc]
  · rw [List.append_assoc, ← hway]
    exact hblock.exists_placement_wrapped hdiv

/-- The anchors of a page are those that its content asks for, each once and in the order in which
they are first asked for; where bookmarks are not wanted there is none. Each stands before the
content that asks for it first, in the same block. -/
theorem anchors_precede_content (doc : Document) (settings : RenderSettings)
    (events : List Event) :
    let page := (ofEvents doc settings events).html.toList
    anchors page = some (events.filterMap (Event.anchorId? settings)).eraseDups ∧
    (settings.emitBookmarks = false → anchors page = some []) ∧
    ∀ before event after id, events = before ++ event :: after →
      event.anchorId? settings = some id → id ∉ before.filterMap (Event.anchorId? settings) →
      ∃ (written lexemes : List Lexeme) (place : AnchorPlace),
        read (ofEvents doc settings before).html.toList = some written ∧
        read page = some lexemes ∧
        place.Holds id written
          ((event.content (ofEvents doc settings before).tabWidth).flatMap Markup.lexemes)
          lexemes := by
  intro page
  have hanchors := anchors_ofEvents doc settings events
  refine ⟨hanchors, ?_, ?_⟩
  · intro hoff
    have hnone : events.filterMap (Event.anchorId? settings) = [] := by
      rw [List.filterMap_eq_nil_iff]
      exact fun event _ => Event.anchorId?_of_not hoff event
    rw [hanchors, hnone]
    rfl
  · intro before event after id hevents hid hnew
    obtain ⟨place, hplace⟩ := exists_anchorPlace doc settings before after hid hnew
    rw [← hevents] at hplace
    exact ⟨_, _, place, read_write _, read_write _, hplace⟩

def bookmarkedStyle : Style := Style.add {} (.bookmark ⟨true, some "A"⟩)

def hiddenBookmark : List Event :=
  [.text (bookmarkedStyle.add (.atom (.hidden true))) "h"] ++
    .breaks bookmarkedStyle .tab 1 :: [.text bookmarkedStyle "x", .close]

theorem anchors_precede_content_hiddenBookmark :
    (ofEvents {} {} hiddenBookmark).html = "<div><p><a id=\"A\"></a>" ++
      "<span style=\"display:inline-block;width:36pt\"></span>x</p></div>" ∧
    (∃ (written lexemes : List Lexeme) (place : AnchorPlace),
      read (ofEvents {} {} [.text (bookmarkedStyle.add (.atom (.hidden true))) "h"]).html.toList =
        some written ∧
      read (ofEvents {} {} hiddenBookmark).html.toList = some lexemes ∧
      place.Holds "A" written
        ((Event.content 720 (.breaks bookmarkedStyle .tab 1)).flatMap Markup.lexemes) lexemes) ∧
    anchors (ofEvents {} { emitBookmarks := false } hiddenBookmark).html.toList = some [] :=
  ⟨by decide,
    (anchors_precede_content {} {} hiddenBookmark).2.2 _ _ _ "A" rfl (by decide) (by decide),
    (anchors_precede_content {} { emitBookmarks := false } hiddenBookmark).2.1 rfl⟩

end Page

end Html

end RichText
