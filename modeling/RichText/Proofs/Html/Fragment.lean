import RichText.Proofs.Html.Pieces
import RichText.Proofs.Html.Surroundings
import RichText.Proofs.Html.VisibleText
set_option autoImplicit false

namespace RichText

/-- The event leaves something to be seen: a visible text, a tab, the end of a line or of a
paragraph, or a picture that is embedded. -/
def Event.writes (settings : RenderSettings) : Event → Bool
  | .text style s => !(s.isEmpty || style.isHidden)
  | .breaks _ kind _ => kind ∈ [BreakKind.tab, .line, .paragraph]
  | .picture _ _ => settings.embedPictures
  | .defaultFont _ | .defaultTabWidth _ | .close => false

namespace Html

def Markup.element? : Markup → Option Element
  | .opening e _ | .closing e => some e
  | .void _ _ | .text _ => none

def Markup.isWithin (inner : Element → Bool) (piece : Markup) : Bool := piece.element?.all inner

/-- What is written into one block or one cell, and the style of the content that it was opened
for. -/
structure Fragment where
  style : Style
  content : List Markup
deriving DecidableEq

/-- The fragment is what is written of these events: their texts, and tags of no other elements. -/
structure Fragment.Shows (inner : Element → Bool) (events : List Event) (fragment : Fragment) :
    Prop where
  isWithin : ∀ piece ∈ fragment.content, piece.isWithin inner = true
  visibleText_eq : fragment.content.flatMap Markup.visibleText = events.flatMap Event.visibleText

namespace Page

theorem html_of_out {start page : Page} {pieces : List Markup}
    (h : page.out.toList = start.out.toList ++ pieces) :
    page.html = start.html ++ Markup.write pieces.toArray := by
  rw [html, html, Markup.write, Markup.write, Markup.write, h, List.flatMap_append,
    String.ofList_append]

/-- `page` is `start` with more pieces, of which `s` is seen. -/
def Grows (inner : Element → Bool) (s : List Char) (start page : Page) : Prop :=
  ∃ pieces, page.out.toList = start.out.toList ++ pieces ∧
    (∀ piece ∈ pieces, piece.isWithin inner = true) ∧ pieces.flatMap Markup.visibleText = s

namespace Grows

variable {inner : Element → Bool} {s s' : List Char} {start page page' : Page}

theorem refl (inner : Element → Bool) (page : Page) : Grows inner [] page page :=
  ⟨[], by simp, by simp, rfl⟩

theorem trans (h : Grows inner s start page) (h' : Grows inner s' page page') :
    Grows inner (s ++ s') start page' := by
  obtain ⟨pieces, hout, hwithin, hs⟩ := h
  obtain ⟨pieces', hout', hwithin', hs'⟩ := h'
  exact ⟨pieces ++ pieces', by rw [hout', hout, List.append_assoc],
    List.forall_mem_append.2 ⟨hwithin, hwithin'⟩, by simp [hs, hs']⟩

theorem trans_nil (h : Grows inner s start page) (h' : Grows inner [] page page') :
    Grows inner s start page' := by
  have hboth := h.trans h'
  rwa [List.append_nil] at hboth

theorem push {piece : Markup} (h : Grows inner s start page)
    (hpiece : piece.isWithin inner = true) :
    Grows inner (s ++ piece.visibleText) start (page.push piece) :=
  h.trans ⟨[piece], by simp [Page.push], by simpa using hpiece, by simp⟩

theorem push_tag {piece : Markup} (h : Grows inner s start page)
    (hpiece : piece.isWithin inner = true) (hnothing : piece.visibleText = []) :
    Grows inner s start (page.push piece) := by
  have hpush := h.push hpiece
  rwa [hnothing, List.append_nil] at hpush

theorem of_out_eq (h : Grows inner s start page) (hout : page'.out = page.out) :
    Grows inner s start page' := by
  obtain ⟨pieces, hpieces, hrest⟩ := h
  exact ⟨pieces, by rw [hout, hpieces], hrest⟩

theorem mono {inner' : Element → Bool} (h : Grows inner s start page)
    (hinner : ∀ e, inner e = true → inner' e = true) : Grows inner' s start page := by
  obtain ⟨pieces, hout, hwithin, hs⟩ := h
  refine ⟨pieces, hout, ?_, hs⟩
  intro piece hpiece
  have htag := hwithin piece hpiece
  unfold Markup.isWithin at htag ⊢
  cases he : piece.element? with
  | none => rfl
  | some e =>
    rw [he] at htag
    exact hinner e htag

end Grows

/-! Inline elements -/

/-- `page` goes on from `start` with inline content, of which `s` is seen. -/
structure Continues (s : List Char) (start page : Page) : Prop where
  grows : Grows Element.isInline s start page
  table_eq : page.table = start.table
  list_eq : page.list = start.list
  block_eq : page.block = start.block

namespace Continues

variable {s s' : List Char} {start page page' : Page}

theorem refl (page : Page) : Continues [] page page := ⟨.refl _ page, rfl, rfl, rfl⟩

theorem trans (h : Continues s start page) (h' : Continues s' page page') :
    Continues (s ++ s') start page' :=
  ⟨h.grows.trans h'.grows, h'.table_eq.trans h.table_eq, h'.list_eq.trans h.list_eq,
    h'.block_eq.trans h.block_eq⟩

theorem push {piece : Markup} (h : Continues s start page)
    (hpiece : piece.isWithin Element.isInline = true) :
    Continues (s ++ piece.visibleText) start (page.push piece) :=
  ⟨h.grows.push hpiece, h.table_eq, h.list_eq, h.block_eq⟩

theorem push_tag {piece : Markup} (h : Continues s start page)
    (hpiece : piece.isWithin Element.isInline = true) (hnothing : piece.visibleText = []) :
    Continues s start (page.push piece) :=
  ⟨h.grows.push_tag hpiece hnothing, h.table_eq, h.list_eq, h.block_eq⟩

theorem note (h : Continues s start page) (link span : Option String) (bookmarks : List String)
    (blockEmpty : Bool) :
    Continues s start { page with
      link := link
      span := span
      bookmarks := bookmarks
      blockEmpty := blockEmpty } :=
  ⟨h.grows.of_out_eq rfl, h.table_eq, h.list_eq, h.block_eq⟩

theorem closeSpan (h : Continues s start page) : Continues s start page.closeSpan := by
  unfold Page.closeSpan
  split
  · exact (h.push_tag rfl rfl).note ..
  · exact h

theorem closeLink (h : Continues s start page) : Continues s start page.closeLink := by
  unfold Page.closeLink
  split
  · exact (h.push_tag rfl rfl).note ..
  · exact h

theorem closeInline (h : Continues s start page) : Continues s start page.closeInline :=
  h.closeSpan.closeLink

theorem setBookmark (h : Continues s start page) (settings : RenderSettings) (style : Style) :
    Continues s start (page.setBookmark settings style) := by
  unfold Page.setBookmark
  split
  · split
    · exact ((h.closeInline.push_tag rfl rfl).push_tag rfl rfl).note ..
    · exact h
  · exact h

theorem setLink (h : Continues s start page) (link : Option Hyperlink) :
    Continues s start (page.setLink link) := by
  unfold Page.setLink
  dsimp only
  split
  · exact h
  · split
    · exact (h.closeInline.push_tag rfl rfl).note ..
    · exact h.closeInline

theorem setSpan (h : Continues s start page) (css : List Declaration) :
    Continues s start (page.setSpan css) := by
  unfold Page.setSpan
  dsimp only
  generalize (if css.isEmpty then none else some (cssText css)) = wanted
  split
  · exact h
  · split
    · exact (h.closeSpan.push_tag rfl rfl).note ..
    · exact h.closeSpan

theorem openInline (doc : Document) (settings : RenderSettings) (page : Page) (style : Style) :
    Continues [] (page.openBlock doc style) (page.openInline doc settings style) :=
  ((refl _).setBookmark settings style).setLink style.hyperlink?

end Continues

/-! Content -/

/-- `page` is `start` with content in its block, of which `s` is seen. -/
structure Fills (s : List Char) (start page : Page) : Prop extends Continues s start page where
  blockEmpty_eq : page.blockEmpty = false

theorem Fills.trans {s s' : List Char} {start page page' : Page} (h : Fills s start page)
    (h' : Fills s' page page') : Fills (s ++ s') start page' :=
  ⟨h.toContinues.trans h'.toContinues, h'.blockEmpty_eq⟩

section Content

variable {doc : Document} {settings : RenderSettings} {style : Style} {page : Page}

theorem fills_text {s : String} (h : (s.isEmpty || style.isHidden) = false) :
    Fills s.toList (page.openBlock doc style) (page.addText doc settings style s) := by
  have hinline := Continues.openInline doc settings page style
  have hpiece : (Markup.text s).isWithin Element.isInline = true := rfl
  unfold addText
  rw [h, if_neg Bool.false_ne_true]
  exact ⟨((hinline.setSpan _).push hpiece).note .., rfl⟩

theorem fills_tabs (count : Nat) :
    Fills [] (page.openBlock doc style) (page.addTabs doc settings style count) := by
  have hinline := Continues.openInline doc settings page style
  exact ⟨(((hinline.setSpan _).push_tag rfl rfl).push_tag rfl rfl).note .., rfl⟩

theorem fills_picture (h : settings.embedPictures = true) (picture : Picture) :
    Fills [] (page.openBlock doc style) (page.addPicture doc settings style picture) := by
  have hinline := Continues.openInline doc settings page style
  unfold addPicture
  rw [if_pos h]
  exact ⟨(hinline.closeSpan.push_tag rfl rfl).note .., rfl⟩

theorem fills_line (page : Page) : Fills [] page (page.fill (.void .br [])) :=
  ⟨((Continues.refl page).push_tag rfl rfl).note .., rfl⟩

/-- Content other than the end of a paragraph goes into the block that is opened for it. -/
theorem fills_add (doc : Document) (page : Page) {e : Event} (h : e.writes settings = true)
    (hstyle : e.style? = some style)
    (hparagraph : ∀ style count, e ≠ .breaks style .paragraph count) :
    Fills e.visibleText (page.openBlock doc style) (page.add doc settings e) := by
  cases e with
  | text style' s =>
    obtain rfl := Option.some.inj hstyle
    have hvisible : (s.isEmpty || style'.isHidden) = false := by
      simpa only [Event.writes, Bool.not_eq_true'] using h
    have hhidden : style'.isHidden = false := (Bool.or_eq_false_iff.1 hvisible).2
    rw [Event.visibleText, hhidden, if_neg Bool.false_ne_true]
    exact fills_text hvisible
  | breaks style' kind count =>
    obtain rfl := Option.some.inj hstyle
    cases kind with
    | tab => exact fills_tabs count
    | line => exact fills_line _
    | paragraph => exact absurd rfl (hparagraph style' count)
    | «section» | page | cell | row => exact Bool.noConfusion h
  | picture style' picture =>
    obtain rfl := Option.some.inj hstyle
    exact fills_picture h picture
  | defaultFont _ | defaultTabWidth _ | close => exact absurd h Bool.false_ne_true

theorem add_of_not_writes {e : Event} (h : e.writes settings = false)
    (hbreak : ∀ style kind count, e ≠ .breaks style kind count) {style : Style}
    (hstyle : e.style? = some style) : page.add doc settings e = page := by
  cases e with
  | text style s =>
    have hvisible : (s.isEmpty || style.isHidden) = true := by
      simpa only [Event.writes, Bool.not_eq_false'] using h
    exact if_pos hvisible
  | picture style picture =>
    have hembed : ¬settings.embedPictures = true := by
      simpa only [Event.writes, Bool.not_eq_true] using h
    exact if_neg hembed
  | breaks style kind count => exact absurd rfl (hbreak style kind count)
  | defaultFont _ | defaultTabWidth _ | close => exact absurd hstyle (by simp [Event.style?])

theorem visibleText_of_not_writes {e : Event} (h : e.writes settings = false) :
    e.visibleText = [] := by
  cases e with
  | text style s =>
    have hvisible : s.isEmpty = true ∨ style.isHidden = true := by
      simpa only [Event.writes, Bool.not_eq_false', Bool.or_eq_true] using h
    obtain hs | hhidden := hvisible
    · simp [Event.visibleText, String.isEmpty_iff.1 hs]
    · simp [Event.visibleText, hhidden]
  | _ => rfl

theorem flatMap_visibleText_of_not_writes {events : List Event}
    (h : ∀ e ∈ events, e.writes settings = false) : events.flatMap Event.visibleText = [] :=
  List.flatMap_eq_nil_iff.2 fun e he => visibleText_of_not_writes (h e he)

end Content

end Page

end Html

end RichText
