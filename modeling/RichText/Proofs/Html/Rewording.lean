import RichText.Render
import RichText.Proofs.Html.Pieces
import RichText.Proofs.Walk.Simulation
set_option autoImplicit false

/-!
Events that say the same in other pieces give the same markup. Of a style only its outline is
written, and of a document only its fonts and colours. Main statement: `html_eq_of_reworded`.
-/
namespace RichText

/-- Every text that is replaced is cut into the pieces that stand for it. -/
def Joins (d : List (String × List String)) : Prop := ∀ p ∈ d, p.1 = String.join p.2

namespace Html

/-! Of a style only its outline is written -/

theorem filterMap_outline {α : Type} {f : Entry → Option α} (h : ∀ e, f e.outline = f e)
    (style : Style) : style.outline.entries.filterMap f = style.entries.filterMap f := by
  simp [Style.outline, List.filterMap_map, h]

@[simp] theorem paragraphCss_outline (doc : Document) (style : Style) :
    paragraphCss doc style.outline = paragraphCss doc style := by
  have hentries := filterMap_outline (f := paragraphDeclaration?) (fun e => by cases e <;> rfl) style
  simp only [paragraphCss, hentries, Style.border?_outline]

@[simp] theorem spanCss_outline (doc : Document) (font : Option Font) (style : Style) :
    spanCss doc font style.outline = spanCss doc font style := by
  have hentries := filterMap_outline (f := spanDeclaration? doc font)
    (fun e => by cases e <;> rfl) style
  have hlines := filterMap_outline (f := decoration?) (fun e => by cases e <;> rfl) style
  simp only [spanCss, decorationCss, hentries, hlines]

@[simp] theorem cellCss_outline (doc : Document) (chain : CellChain) :
    cellCss doc chain.outline = cellCss doc chain := by
  unfold cellCss
  rw [CellChain.width?_outline]
  rfl

@[simp] theorem rowCss_outline (style : Style) : rowCss style.outline = rowCss style := by
  unfold rowCss
  rw [Style.find?_outline]
  cases style.find? .rowHeight with
  | none => rfl
  | some e => cases e <;> rfl

@[simp] theorem ListMembership.ofStyle?_outline (style : Style) :
    ofStyle? style.outline = ofStyle? style := by
  simp only [ofStyle?, Style.listStyleId?_outline, Style.numbering?_outline, Style.listLevel_outline]

namespace Page

variable (doc : Document) (settings : RenderSettings) (page : Page) (style : Style)

@[simp] theorem columnCss_outline (column : Nat) :
    columnCss doc style.outline column = columnCss doc style column := by
  have hchain : style.outline.cellChain?.bind (fun chain => chain.initialChains[column]?) =
      (style.cellChain?.bind (fun chain => chain.initialChains[column]?)).map
        CellChain.outline := by
    rw [Style.cellChain?_outline]
    cases style.cellChain? with
    | none => rfl
    | some chain => simp
  unfold columnCss
  rw [hchain]
  cases style.cellChain?.bind (fun chain => chain.initialChains[column]?) with
  | none => rfl
  | some chain => exact cellCss_outline doc chain

@[simp] theorem openRow_outline (table : OpenTable) :
    page.openRow style.outline table = page.openRow style table := by
  simp only [openRow, rowCss_outline]

@[simp] theorem openCell_outline :
    page.openCell doc style.outline = page.openCell doc style := by
  simp only [openCell, openRow_outline, columnCss_outline]

@[simp] theorem openBlock_outline :
    page.openBlock doc style.outline = page.openBlock doc style := by
  simp only [openBlock, Style.isInTable_outline, openCell_outline,
    ListMembership.ofStyle?_outline, paragraphCss_outline]

@[simp] theorem openInline_outline :
    page.openInline doc settings style.outline = page.openInline doc settings style := by
  simp only [openInline, setBookmark, openBlock_outline, Style.bookmark?_outline,
    Style.hyperlink?_outline]

theorem add_outline (e : Event) : page.add doc settings e.outline = page.add doc settings e := by
  cases e with
  | text style s => simp [Event.outline, add, addText]
  | breaks style kind count =>
    cases kind <;> simp [Event.outline, add, addBreaks, addTabs, endParagraph, endCell]
  | picture style p => simp [Event.outline, add, addPicture]
  | _ => rfl

theorem add_congr {doc doc' : Document} (hfonts : doc.fonts = doc'.fonts)
    (hcolors : doc.colors = doc'.colors) : add doc settings = add doc' settings := by
  have hwritten : ∀ doc : Document, add doc settings =
      add { fonts := doc.fonts, colors := doc.colors } settings := fun _ => rfl
  rw [hwritten doc, hwritten doc', hfonts, hcolors]

theorem add_text_outline {style style' : Style} (h : style.outline = style'.outline) (s : String) :
    page.add doc settings (.text style s) = page.add doc settings (.text style' s) := by
  rw [← add_outline, Event.outline, h, ← Event.outline, add_outline]

theorem sameText_foldl {d : List (String × List String)} {es es' : List Event}
    (h : Event.Reworded d es es') (hd : Joins d) {page page' : Page} (hpage : SameText page page') :
    SameText (es.foldl (add doc settings) page) (es'.foldl (add doc settings) page') := by
  induction h generalizing page page' with
  | nil => exact hpage
  | @same d e e' es es' houtline _ ih =>
    have he : page'.add doc settings e' = page'.add doc settings e := by
      rw [← add_outline, ← houtline, add_outline]
    rw [List.foldl_cons, List.foldl_cons, he]
    exact ih hd (hpage.add doc settings e)
  | @text d style style' s ss es es' houtline _ ih =>
    obtain rfl : s = String.join ss := hd _ List.mem_cons_self
    have hrest : Joins d := fun p hp => hd p (List.mem_cons_of_mem _ hp)
    rw [List.foldl_cons, List.foldl_append, List.foldl_map, add_text_outline doc settings page houtline]
    have hpieces := SameText.addText_join doc settings style' page' ss
    exact ih hrest ((hpage.add doc settings (.text style' (String.join ss))).trans hpieces)

end Page

namespace Encapsulated

theorem chars_outline (settings : RenderSettings) (e : Event) :
    chars settings e.outline = chars settings e := by
  cases e with
  | text style s => simp [Event.outline, chars]
  | breaks style kind count => cases kind <;> rfl
  | _ => rfl

theorem flatMap_chars_pieces (settings : RenderSettings) (style : Style) (ss : List String) :
    (ss.map (Event.text style)).flatMap (chars settings) =
      chars settings (.text style (String.join ss)) := by
  induction ss with
  | nil => simp [chars, escapeText]
  | cons s ss ih =>
    rw [List.map_cons, List.flatMap_cons, ih, String.join_cons]
    simp only [chars, String.toList_append, escapeText, List.flatMap_append]
    split
    · rfl
    · split <;> rfl

theorem write_reworded {d : List (String × List String)} {es es' : List Event}
    (h : Event.Reworded d es es') (hd : Joins d) (settings : RenderSettings) :
    write settings es = write settings es' := by
  refine congrArg String.ofList ?_
  induction h with
  | nil => rfl
  | same houtline _ ih =>
    rw [List.flatMap_cons, List.flatMap_cons, ← chars_outline, houtline, chars_outline, ih hd]
  | @text d style style' s ss es es' houtline _ ih =>
    obtain rfl : s = String.join ss := hd _ List.mem_cons_self
    have hrest : Joins d := fun p hp => hd p (List.mem_cons_of_mem _ hp)
    rw [List.flatMap_cons, List.flatMap_append, flatMap_chars_pieces, ih hrest, ← chars_outline,
      Event.outline, houtline, ← Event.outline, chars_outline]

end Encapsulated

end Html

/-- What tells of the same in other pieces is rendered alike. -/
theorem Document.html_eq_of_reworded {doc doc' : Document} (hfonts : doc.fonts = doc'.fonts)
    (hcolors : doc.colors = doc'.colors) (hhtml : doc.hasHtml = doc'.hasHtml)
    {d : List (String × List String)} (hd : Joins d) (h : Event.Reworded d doc.events doc'.events)
    (settings : RenderSettings) : doc.html settings = doc'.html settings := by
  have hpage : Html.Page.ofEvents doc settings doc.events =
      doc.events.foldl (Html.Page.add doc' settings) {} := by
    rw [Html.Page.ofEvents, Html.Page.add_congr settings hfonts hcolors]
  unfold Document.html
  rw [hhtml, Html.Encapsulated.write_reworded h hd settings, hpage]
  rw [(Html.Page.sameText_foldl doc' settings h hd (.refl {})).html_eq]
  rfl

end RichText
