import RichText.Proofs.Html.Nesting
import RichText.Proofs.Html.Written
import RichText.Proofs.Style.Outline
set_option autoImplicit false

/-!
Texts that come in pieces. What a text needs around it is open when it has been written, so another
one of the same style goes right behind it. Main statement: `sameText_addText_join`.
-/
namespace RichText.Html.Page

variable {doc : Document} {settings : RenderSettings} {style : Style} {page : Page}

def spanValue (css : List Declaration) : Option String :=
  if css.isEmpty then none else some (cssText css)

/-- All that a text of this style needs around it is open, and its bookmark has an anchor. -/
structure Ready (doc : Document) (settings : RenderSettings) (style : Style) (page : Page) :
    Prop where
  block : page.block.isSome = true
  table : if style.isInTable then ∃ column, page.table = some ⟨true, true, column⟩
    else page.table = none
  bookmark : ∀ id, style.bookmark? = some ⟨true, some id⟩ → settings.emitBookmarks = true →
    page.bookmarks.contains id = true
  link : page.link = style.hyperlink?.bind Hyperlink.href?
  span : page.span = spanValue (spanCss doc page.defaultFont style)

/-! A page that is ready stays as it is -/

namespace Ready

theorem openBlock (h : Ready doc settings style page) : page.openBlock doc style = page := by
  have hplace : (if style.isInTable then page.openCell doc style else page.closeTable) = page := by
    have htable := h.table
    split
    · rename_i hin
      rw [if_pos hin] at htable
      obtain ⟨column, htable⟩ := htable
      simp only [openCell, openTable, openRow, htable, if_true]
      rw [← htable]
    · rename_i hin
      rw [if_neg hin] at htable
      simp [closeTable, htable]
  obtain ⟨block, hblock⟩ := Option.isSome_iff_exists.1 h.block
  unfold Page.openBlock
  rw [hplace]
  simp [hblock]

theorem setBookmark (h : Ready doc settings style page) :
    page.setBookmark settings style = page := by
  unfold Page.setBookmark
  split
  · rename_i id hbookmark
    refine if_neg ?_
    intro hnew
    obtain ⟨hemit, hnot⟩ := Bool.and_eq_true_iff.1 hnew
    rw [h.bookmark id hbookmark hemit] at hnot
    exact Bool.noConfusion hnot
  · rfl

theorem openInline (h : Ready doc settings style page) :
    page.openInline doc settings style = page := by
  unfold Page.openInline
  rw [h.openBlock, h.setBookmark]
  exact if_pos h.link

theorem setSpan (h : Ready doc settings style page) :
    page.setSpan (spanCss doc page.defaultFont style) = page :=
  if_pos h.span

end Ready

/-! What opens makes the page ready -/

theorem table_openCell (doc : Document) (page : Page) (style : Style) :
    ∃ column, (page.openCell doc style).table = some ⟨true, true, column⟩ := by
  have hrow : (page.openTable.1.openRow style page.openTable.2).2.rowOpen = true := by
    unfold openRow
    split
    · assumption
    · rfl
  unfold openCell
  dsimp only
  generalize (page.openTable.1.openRow style page.openTable.2).2 = table at hrow
  obtain ⟨rowOpen, cellOpen, column⟩ := table
  obtain rfl : rowOpen = true := hrow
  split
  · rename_i hcell
    obtain rfl : cellOpen = true := hcell
    exact ⟨column, rfl⟩
  · exact ⟨column, rfl⟩

theorem table_openList (list : ListMembership) : (page.openList list).table = page.table := by
  unfold openList
  split
  · rfl
  · exact table_closeList page

theorem table_openBlock (doc : Document) (page : Page) (style : Style) :
    if style.isInTable then ∃ column, (page.openBlock doc style).table = some ⟨true, true, column⟩
      else (page.openBlock doc style).table = none := by
  have hplace : (page.openBlock doc style).table =
      (if style.isInTable then page.openCell doc style else page.closeTable).table := by
    unfold openBlock
    generalize (if style.isInTable then page.openCell doc style else page.closeTable) = place
    dsimp only
    split
    · rfl
    · split
      · exact table_openList _
      · exact table_closeList place
  rw [hplace]
  split
  · exact table_openCell doc page style
  · exact table_closeTable page

theorem block_openBlock (doc : Document) (page : Page) (style : Style) :
    (page.openBlock doc style).block.isSome = true := by
  unfold openBlock
  dsimp only
  split
  · rename_i hblock
    rw [hblock]
    rfl
  · rfl

theorem setBookmark_eq (settings : RenderSettings) (page : Page) (style : Style) :
    page.setBookmark settings style =
      { page with
        out := (page.setBookmark settings style).out
        span := (page.setBookmark settings style).span
        link := (page.setBookmark settings style).link
        bookmarks := (page.setBookmark settings style).bookmarks } := by
  unfold setBookmark
  split
  · split
    · rw [closeInline_eq]
      rfl
    · rfl
  · rfl

theorem contains_setBookmark {id : String} (h : style.bookmark? = some ⟨true, some id⟩)
    (hemit : settings.emitBookmarks = true) (page : Page) :
    (page.setBookmark settings style).bookmarks.contains id = true := by
  unfold setBookmark
  rw [h]
  dsimp only
  split
  · simp
  · rename_i hold
    simpa [hemit] using hold

theorem setLink_eq (page : Page) (link : Option Hyperlink) :
    page.setLink link =
      { page with
        out := (page.setLink link).out
        span := (page.setLink link).span
        link := link.bind Hyperlink.href? } := by
  unfold setLink
  dsimp only
  split
  · rename_i hsame
    rw [← hsame]
  · rw [closeInline_eq]
    cases link with
    | none => rfl
    | some link =>
      simp only [Option.bind_some]
      cases link.href? with
      | none => rfl
      | some href => rfl

theorem setSpan_eq (page : Page) (css : List Declaration) :
    page.setSpan css = { page with out := (page.setSpan css).out, span := spanValue css } := by
  have hwanted : (if css.isEmpty then none else some (cssText css)) = spanValue css := rfl
  unfold setSpan
  rw [hwanted]
  dsimp only
  split
  · rename_i hsame
    rw [← hsame]
  · rw [closeSpan_eq]
    split
    · rename_i hvalue
      rw [hvalue]
      rfl
    · rename_i hvalue
      rw [hvalue]

def opened (doc : Document) (settings : RenderSettings) (style : Style) (page : Page) : Page :=
  let page := page.openInline doc settings style
  page.setSpan (spanCss doc page.defaultFont style)

theorem ready_opened (doc : Document) (settings : RenderSettings) (style : Style) (page : Page) :
    Ready doc settings style (page.opened doc settings style) := by
  have hblock := block_openBlock doc page style
  have htable := table_openBlock doc page style
  unfold opened openInline
  generalize page.openBlock doc style = page at hblock htable
  have hbookmark : ∀ id, style.bookmark? = some ⟨true, some id⟩ → settings.emitBookmarks = true →
      (page.setBookmark settings style).bookmarks.contains id = true :=
    fun _ h hemit => contains_setBookmark h hemit page
  rw [setSpan_eq, setLink_eq, setBookmark_eq]
  exact ⟨hblock, htable, hbookmark, rfl, rfl⟩

theorem addText_of_ne {s : String} (hs : s.isEmpty = false) (hhidden : style.isHidden = false) :
    page.addText doc settings style s = (page.opened doc settings style).fill (.text s) := by
  simp [addText, hs, hhidden, opened]

theorem addText_isEmpty {s : String} (hs : s.isEmpty = true) :
    page.addText doc settings style s = page := by
  simp [addText, hs]

theorem addText_isHidden (hhidden : style.isHidden = true) (s : String) :
    page.addText doc settings style s = page := by
  simp [addText, hhidden]

/-- On a page that is ready a text goes right behind what is there. -/
theorem Ready.addText {s : String} (h : Ready doc settings style page) (hs : s.isEmpty = false)
    (hhidden : style.isHidden = false) :
    page.addText doc settings style s = page.fill (.text s) := by
  rw [addText_of_ne hs hhidden, opened, h.openInline, h.setSpan]

theorem Ready.fill (h : Ready doc settings style page) (piece : Markup) :
    Ready doc settings style (page.fill piece) :=
  ⟨h.block, h.table, h.bookmark, h.link, h.span⟩

theorem SameText.fill_append (page : Page) (a b : String) :
    SameText (page.fill (.text (a ++ b))) ((page.fill (.text a)).fill (.text b)) := by
  refine ⟨rfl, ?_⟩
  simp [fill, push, Markup.chars, escapeText]

/-- A text is written like its two parts one after the other. -/
theorem SameText.addText_append (doc : Document) (settings : RenderSettings) (style : Style)
    (page : Page) (a b : String) :
    SameText (page.addText doc settings style (a ++ b))
      ((page.addText doc settings style a).addText doc settings style b) := by
  cases hhidden : style.isHidden with
  | true =>
    simp only [addText_isHidden hhidden]
    exact .refl page
  | false =>
    cases ha : a.isEmpty with
    | true =>
      rw [addText_isEmpty ha, String.isEmpty_iff.1 ha, String.empty_append]
      exact .refl _
    | false =>
      cases hb : b.isEmpty with
      | true =>
        rw [addText_isEmpty hb, String.isEmpty_iff.1 hb, String.append_empty]
        exact .refl _
      | false =>
        have hab : (a ++ b).isEmpty = false := by
          simp_all [String.isEmpty_eq_false_iff]
        have hready := (ready_opened doc settings style page).fill (.text a)
        rw [addText_of_ne hab hhidden, addText_of_ne ha hhidden, hready.addText hb hhidden]
        exact fill_append _ a b

theorem SameText.addText_join (doc : Document) (settings : RenderSettings) (style : Style)
    (page : Page) (ss : List String) :
    SameText (page.addText doc settings style (String.join ss))
      (ss.foldl (fun page s => page.addText doc settings style s) page) := by
  induction ss generalizing page with
  | nil =>
    rw [addText_isEmpty (by rfl)]
    exact .refl page
  | cons s ss ih =>
    rw [String.join_cons]
    exact (addText_append doc settings style page s (String.join ss)).trans (ih _)

end RichText.Html.Page
