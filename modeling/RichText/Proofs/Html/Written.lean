import RichText.Html.Page
set_option autoImplicit false

/-!
What is written of a page is never read again: every event adds the same to a page whatever stands
before it. Main statement: `SameText.add`, pages in the same state with the same text stay so.
-/
namespace RichText.Html.Page

def behind (page : Page) (front : Array Markup) : Page := { page with out := front ++ page.out }

section Behind

variable {doc : Document} {settings : RenderSettings} {style : Style} {page : Page}
  {front : Array Markup}

@[simp] theorem push_behind (piece : Markup) :
    (page.behind front).push piece = (page.push piece).behind front := by
  simp [push, behind]

@[simp] theorem fill_behind (piece : Markup) :
    (page.behind front).fill piece = (page.fill piece).behind front := by
  simp [fill, push, behind]

@[simp] theorem closeSpan_behind : (page.behind front).closeSpan = page.closeSpan.behind front := by
  have hspan : (page.behind front).span = page.span := rfl
  unfold closeSpan
  rw [hspan]
  split
  · rw [push_behind]
    rfl
  · rfl

@[simp] theorem closeLink_behind : (page.behind front).closeLink = page.closeLink.behind front := by
  have hlink : (page.behind front).link = page.link := rfl
  unfold closeLink
  rw [hlink]
  split
  · rw [push_behind]
    rfl
  · rfl

@[simp] theorem closeInline_behind :
    (page.behind front).closeInline = page.closeInline.behind front := by
  simp [closeInline]

@[simp] theorem closeBlock_behind :
    (page.behind front).closeBlock = page.closeBlock.behind front := by
  have hblock : (page.closeInline.behind front).block = page.closeInline.block := rfl
  unfold closeBlock
  dsimp only
  rw [closeInline_behind, hblock]
  split
  · rw [push_behind]
    rfl
  · rfl

@[simp] theorem closeList_behind : (page.behind front).closeList = page.closeList.behind front := by
  have hlist : (page.behind front).list = page.list := rfl
  unfold closeList
  rw [hlist]
  split
  · rw [closeBlock_behind, push_behind]
    rfl
  · rfl

@[simp] theorem pushTableEnds_behind (table : OpenTable) :
    (page.behind front).pushTableEnds table = (page.pushTableEnds table).behind front := by
  unfold pushTableEnds
  split
  · split <;> simp
  · split <;> simp

@[simp] theorem closeTable_behind :
    (page.behind front).closeTable = page.closeTable.behind front := by
  have htable : (page.behind front).table = page.table := rfl
  unfold closeTable
  rw [htable]
  split
  · rw [closeBlock_behind, pushTableEnds_behind, push_behind]
    rfl
  · rfl

@[simp] theorem openList_behind (list : ListMembership) :
    (page.behind front).openList list = (page.openList list).behind front := by
  have hlist : (page.behind front).list = page.list := rfl
  unfold openList
  dsimp only
  rw [hlist, closeList_behind, push_behind]
  split <;> rfl

theorem openTable_behind :
    (page.behind front).openTable = (page.openTable.1.behind front, page.openTable.2) := by
  have htable : (page.behind front).table = page.table := rfl
  unfold openTable
  rw [htable]
  split
  · rfl
  · simp only [closeBlock_behind, closeList_behind, push_behind]

theorem openRow_behind (table : OpenTable) :
    (page.behind front).openRow style table =
      ((page.openRow style table).1.behind front, (page.openRow style table).2) := by
  unfold openRow
  split
  · rfl
  · rw [push_behind]

@[simp] theorem openCell_behind :
    (page.behind front).openCell doc style = (page.openCell doc style).behind front := by
  unfold openCell
  rw [openTable_behind]
  dsimp only
  rw [openRow_behind]
  dsimp only
  split
  · rfl
  · rw [push_behind]
    rfl

@[simp] theorem openBlock_behind :
    (page.behind front).openBlock doc style = (page.openBlock doc style).behind front := by
  have hplace : (if style.isInTable then (page.behind front).openCell doc style
      else (page.behind front).closeTable) =
        (if style.isInTable then page.openCell doc style else page.closeTable).behind front := by
    split <;> simp
  unfold openBlock
  rw [hplace]
  dsimp only
  generalize (if style.isInTable then page.openCell doc style else page.closeTable) = place
  have hblock : (place.behind front).block = place.block := rfl
  rw [hblock]
  split
  · rfl
  · split
    · rw [openList_behind, push_behind]
      rfl
    · rw [closeList_behind, push_behind]
      rfl

@[simp] theorem setLink_behind (link : Option Hyperlink) :
    (page.behind front).setLink link = (page.setLink link).behind front := by
  have hlink : (page.behind front).link = page.link := rfl
  unfold setLink
  dsimp only
  rw [hlink, closeInline_behind]
  split
  · rfl
  · split
    · rw [push_behind]
      rfl
    · rfl

@[simp] theorem setSpan_behind (css : List Declaration) :
    (page.behind front).setSpan css = (page.setSpan css).behind front := by
  have hspan : (page.behind front).span = page.span := rfl
  unfold setSpan
  dsimp only
  rw [hspan, closeSpan_behind]
  generalize (if css.isEmpty then none else some (cssText css)) = wanted
  split
  · rfl
  · split
    · rw [push_behind]
      rfl
    · rfl

@[simp] theorem setBookmark_behind :
    (page.behind front).setBookmark settings style =
      (page.setBookmark settings style).behind front := by
  have hbookmarks : (page.behind front).bookmarks = page.bookmarks := rfl
  unfold setBookmark
  rw [hbookmarks, closeInline_behind]
  split
  · split
    · dsimp only
      rw [push_behind, push_behind]
      rfl
    · rfl
  · rfl

@[simp] theorem openInline_behind :
    (page.behind front).openInline doc settings style =
      (page.openInline doc settings style).behind front := by
  simp [openInline]

theorem defaultFont_behind : (page.behind front).defaultFont = page.defaultFont := rfl

@[simp] theorem addText_behind (s : String) :
    (page.behind front).addText doc settings style s =
      (page.addText doc settings style s).behind front := by
  unfold addText
  split
  · rfl
  · dsimp only
    rw [openInline_behind, defaultFont_behind, setSpan_behind, fill_behind]

@[simp] theorem addTabs_behind (count : Nat) :
    (page.behind front).addTabs doc settings style count =
      (page.addTabs doc settings style count).behind front := by
  unfold addTabs
  dsimp only
  rw [openInline_behind, defaultFont_behind, setSpan_behind, push_behind, fill_behind]
  rfl

@[simp] theorem endParagraph_behind :
    (page.behind front).endParagraph doc style = (page.endParagraph doc style).behind front := by
  have hempty : ((page.openBlock doc style).behind front).blockEmpty =
      (page.openBlock doc style).blockEmpty := rfl
  unfold endParagraph
  rw [openBlock_behind]
  dsimp only
  rw [hempty]
  split
  · rw [push_behind, closeBlock_behind]
  · rw [closeBlock_behind]

@[simp] theorem addPageBreak_behind :
    (page.behind front).addPageBreak = page.addPageBreak.behind front := by
  simp [addPageBreak]

@[simp] theorem endCell_behind :
    (page.behind front).endCell doc style = (page.endCell doc style).behind front := by
  have htable : (page.behind front).table = page.table := rfl
  have hopened : ((page.openCell doc style).closeBlock.behind front).table =
      (page.openCell doc style).closeBlock.table := rfl
  unfold endCell
  rw [htable, closeBlock_behind, openCell_behind, closeBlock_behind]
  dsimp only
  rw [hopened]
  split
  · rfl
  · split
    · rw [push_behind]
      rfl
    · rfl

@[simp] theorem endRow_behind : (page.behind front).endRow = page.endRow.behind front := by
  have htable : (page.closeBlock.behind front).table = page.closeBlock.table := rfl
  unfold endRow
  rw [closeBlock_behind]
  dsimp only
  rw [htable]
  split
  · rw [pushTableEnds_behind]
    rfl
  · rfl

@[simp] theorem addBreaks_behind (kind : BreakKind) (count : Nat) :
    (page.behind front).addBreaks doc settings style kind count =
      (page.addBreaks doc settings style kind count).behind front := by
  cases kind <;> simp [addBreaks]

@[simp] theorem addPicture_behind (picture : Picture) :
    (page.behind front).addPicture doc settings style picture =
      (page.addPicture doc settings style picture).behind front := by
  unfold addPicture
  split
  · simp
  · rfl

/-- Every event but the end of the page adds the same behind everything. -/
theorem add_behind {event : Event} (hevent : event ≠ .close) :
    (page.behind front).add doc settings event = (page.add doc settings event).behind front := by
  cases event with
  | close => exact absurd rfl hevent
  | defaultFont font => rfl
  | defaultTabWidth width =>
    simp only [add]
    split <;> rfl
  | text style s => exact addText_behind s
  | breaks style kind count => exact addBreaks_behind kind count
  | picture style picture => exact addPicture_behind picture

theorem closeAll_behind :
    { page.behind front with closed := true }.closeBlock.closeList.closeTable =
      { page with closed := true }.closeBlock.closeList.closeTable.behind front := by
  have hmark : { page.behind front with closed := true } =
      { page with closed := true }.behind front := rfl
  simp only [hmark, closeBlock_behind, closeList_behind, closeTable_behind]

end Behind

theorem eq_behind {f : Page → Page}
    (hf : ∀ page front, f (page.behind front) = (f page).behind front) (page : Page) :
    f page = (f { page with out := #[] }).behind page.out := by
  rw [← hf]
  simp [behind]

/-- The pages are in the same state, and what is written of them is the same text. -/
structure SameText (page page' : Page) : Prop where
  state_eq : { page with out := #[] } = { page' with out := #[] }
  chars_eq : page.out.toList.flatMap Markup.chars = page'.out.toList.flatMap Markup.chars

namespace SameText

variable {page page' page'' : Page}

theorem refl (page : Page) : SameText page page := ⟨rfl, rfl⟩

theorem trans (h : SameText page page') (h' : SameText page' page'') : SameText page page'' :=
  ⟨h.state_eq.trans h'.state_eq, h.chars_eq.trans h'.chars_eq⟩

theorem html_eq (h : SameText page page') : page.html = page'.html :=
  congrArg String.ofList h.chars_eq

theorem closed_eq (h : SameText page page') : page.closed = page'.closed := by
  have hclosed := congrArg Page.closed h.state_eq
  exact hclosed

theorem defaultFont_eq (h : SameText page page') : page.defaultFont = page'.defaultFont := by
  have hfont := congrArg Page.defaultFont h.state_eq
  exact hfont

theorem map (h : SameText page page') {f : Page → Page}
    (hf : ∀ page front, f (page.behind front) = (f page).behind front) :
    SameText (f page) (f page') := by
  rw [eq_behind hf page, eq_behind hf page', h.state_eq]
  refine ⟨rfl, ?_⟩
  simp only [behind, Array.toList_append, List.flatMap_append, h.chars_eq]

theorem wrapped (h : SameText page page') (first last : Markup) :
    SameText { page with out := #[first] ++ page.out ++ #[last] }
      { page' with out := #[first] ++ page'.out ++ #[last] } := by
  refine ⟨h.state_eq, ?_⟩
  simp only [Array.toList_append, List.flatMap_append, h.chars_eq]

theorem close (h : SameText page page') (settings : RenderSettings) :
    SameText (page.close settings) (page'.close settings) := by
  have hends : SameText ({ page with closed := true }.closeBlock.closeList.closeTable)
      ({ page' with closed := true }.closeBlock.closeList.closeTable) := by
    exact h.map (f := fun page => { page with closed := true }.closeBlock.closeList.closeTable)
      (fun _ _ => closeAll_behind)
  unfold Page.close
  rw [← h.closed_eq]
  split
  · exact h
  · generalize { page with closed := true }.closeBlock.closeList.closeTable = ended at hends ⊢
    generalize { page' with closed := true }.closeBlock.closeList.closeTable = ended' at hends ⊢
    have hcss : ended.defaultFont.toList.map fontDeclaration =
        ended'.defaultFont.toList.map fontDeclaration := by
      rw [hends.defaultFont_eq]
    dsimp only
    rw [hcss]
    split
    · exact hends.wrapped _ _
    · exact hends

theorem add (h : SameText page page') (doc : Document) (settings : RenderSettings) (e : Event) :
    SameText (page.add doc settings e) (page'.add doc settings e) := by
  by_cases hclose : e = .close
  · rw [hclose]
    exact h.close settings
  · exact h.map (f := fun page => page.add doc settings e) (fun _ _ => add_behind hclose)

end SameText

end RichText.Html.Page
