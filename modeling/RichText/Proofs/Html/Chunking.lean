import RichText.Proofs.Html.Rewording
import RichText.Proofs.Walk.Rephrasing
set_option autoImplicit false

/-!
Chunking: it does not matter for the markup where texts are cut into tokens. Only fields and
bookmarks take the first text of their groups for the whole. Main statement: `html_of_chunked`.
-/
namespace RichText

/-- Groups of this destination are read by the first text in them. -/
def Destination.readsFirstText : Destination → Bool
  | .fieldInstructions | .bookmarkStart | .bookmarkEnd => true
  | _ => false

def Group.readsFirstText (contents : List Token) : Bool :=
  (destination? contents).any Destination.readsFirstText

namespace Token

/-- The lists hold the same tokens, but texts of the first may be cut in two in the second, at any
depth outside of groups that are read by their first text. -/
inductive Chunked : List Token → List Token → Prop where
  | nil : Chunked [] []
  | keep (t : Token) {ts us : List Token} (h : Chunked ts us) : Chunked (t :: ts) (t :: us)
  | cut (a b : String) {ts us : List Token} (h : Chunked ts us) :
      Chunked (.text (a ++ b) :: ts) (.text a :: .text b :: us)
  | group {contents contents' ts us : List Token}
      (hreads : Group.readsFirstText contents = false) (hcontents : Chunked contents contents')
      (h : Chunked ts us) : Chunked (.group contents :: ts) (.group contents' :: us)

namespace Chunked

variable {ts us : List Token}

theorem rephrased (h : Chunked ts us) : Rephrased ts us := by
  induction h with
  | nil => exact .nil
  | keep t _ ih =>
    cases t with
    | atom a => exact .atom a ih
    | group contents => exact .group contents contents ih
  | cut a b _ ih => exact .text (a ++ b) (List.cons_ne_nil a [b]) ih
  | @group contents contents' _ _ _ _ _ _ ih => exact .group contents contents' ih

/-! Groups that are read as a whole -/

theorem ofGroup_eq_picture (h : Chunked ts us) : Picture.ofGroup ts = Picture.ofGroup us := by
  have hdescribe : ∀ p, ts.foldl Picture.describe p = us.foldl Picture.describe p := by
    induction h with
    | nil => exact fun _ => rfl
    | keep t _ ih => exact fun p => ih (p.describe t)
    | cut a b _ ih => exact ih
    | group _ _ _ _ ih => exact ih
  have hbinary : ts.flatMap Picture.binary = us.flatMap Picture.binary := by
    clear hdescribe
    induction h with
    | nil => rfl
    | keep t _ ih => rw [List.flatMap_cons, List.flatMap_cons, ih]
    | cut a b _ ih => exact ih
    | group _ _ _ _ ih => exact ih
  have hspelling : ts.flatMap Picture.spelling = us.flatMap Picture.spelling := by
    clear hdescribe hbinary
    induction h with
    | nil => rfl
    | keep t _ ih => rw [List.flatMap_cons, List.flatMap_cons, ih]
    | cut a b _ ih => simp [Picture.spelling, ih]
    | group _ _ _ _ ih => exact ih
  rw [Picture.ofGroup, Picture.ofGroup, Picture.payload, Picture.payload, hdescribe, hbinary,
    hspelling]

theorem ofGroup_eq (h : Chunked ts us) (hreads : Group.readsFirstText ts = false) {d : Destination}
    (hd : Group.destination? ts = some d) (hwhole : d.isReadAsWhole = true) :
    Action.ofGroup ts = Action.ofGroup us := by
  have hd' := h.rephrased.destination?_eq.symm.trans hd
  rw [Group.readsFirstText, hd] at hreads
  cases d with
  | picture =>
    unfold Action.ofGroup
    rw [hd, hd', h.ofGroup_eq_picture]
  | fieldInstructions | bookmarkStart | bookmarkEnd => exact Bool.noConfusion hreads
  | _ => exact Bool.noConfusion hwhole

theorem reworded (h : Chunked ts us) (p : Position) :
    ∃ d, Joins d ∧ RewordedList p d ts us := by
  induction h generalizing p with
  | nil => exact ⟨[], by simp [Joins], .nil⟩
  | keep t _ ih =>
    obtain ⟨d, hd, hrest⟩ := ih (p.after t)
    exact ⟨d, hd, .cons (.refl p t) hrest⟩
  | cut a b _ ih =>
    obtain ⟨d, hd, hrest⟩ := ih (p.after (.text (a ++ b)))
    have hjoin : a ++ b = String.join [a, b] := by simp
    have htext : Reworded p (if p.reports then [(a ++ b, [a, b])] else []) (.text (a ++ b))
        [.text a, .text b] := .text (List.cons_ne_nil a [b])
    refine ⟨_, ?_, .cons htext hrest⟩
    intro q hq
    obtain hq | hq := List.mem_append.1 hq
    · split at hq
      · obtain rfl := List.mem_singleton.1 hq
        exact hjoin
      · exact absurd hq List.not_mem_nil
    · exact hd q hq
  | group hreads hcontents _ ih ih' =>
    obtain ⟨d, hd, hrest⟩ := ih' (p.after (.group _))
    obtain h | ⟨_, _, h⟩ := hcontents.rephrased.reworded p
      (fun _ _ hdest hwhole => hcontents.ofGroup_eq hreads hdest hwhole)
    · exact ⟨d, hd, .cons h hrest⟩
    · obtain ⟨d', hd', hinside⟩ := ih p.inside
      refine ⟨d' ++ d, ?_, .cons (h d' hinside) hrest⟩
      intro q hq
      exact (List.mem_append.1 hq).elim (hd' q) (hd q)

/-! The top of a document -/

theorem filter_isBody (h : Chunked ts us) :
    Chunked (ts.filter Document.isBody) (us.filter Document.isBody) := by
  induction h with
  | nil => exact .nil
  | keep t _ ih =>
    rw [List.filter_cons, List.filter_cons]
    split
    · exact .keep t ih
    · exact ih
  | cut a b _ ih =>
    simp only [List.filter_cons, Document.isBody_text, if_true]
    exact .cut a b ih
  | @group contents contents' ts us hreads hcontents _ _ ih =>
    have hheader : Document.isBody (.group contents') = Document.isBody (.group contents) := by
      rw [Document.isBody, Group.isHeader, ← hcontents.rephrased.destination?_eq]
      rfl
    rw [List.filter_cons, List.filter_cons, hheader]
    split
    · exact .group hreads hcontents ih
    · exact ih

theorem filterMap_default? (h : Chunked ts us) (doc : Document) :
    ts.filterMap doc.default? = us.filterMap doc.default? := by
  induction h with
  | nil => rfl
  | keep t _ ih => rw [List.filterMap_cons, List.filterMap_cons, ih]
  | cut a b _ ih => exact ih
  | group _ _ _ _ ih => exact ih

end Chunked

end Token

/-! List styles -/

def ListStyle.Chunked (style style' : ListStyle) : Prop :=
  List.Forall₂ (fun level level' => Token.Chunked level.tokens level'.tokens) style.levels
    style'.levels

structure Document.Chunked (doc doc' : Document) : Prop where
  contents : Token.Chunked doc.contents doc'.contents
  listStyles : List.Forall₂ (fun e e' => e.1 = e'.1 ∧ e.2.Chunked e'.2) doc.listStyles.entries
    doc'.listStyles.entries
  fonts_eq : doc.fonts = doc'.fonts
  colors_eq : doc.colors = doc'.colors
  hasHtml_eq : doc.hasHtml = doc'.hasHtml

namespace ListStyle.Chunked

variable {definition definition' : ListStyle}

theorem map_formats (h : definition.Chunked definition') :
    definition.levels.map ListLevel.formats = definition'.levels.map ListLevel.formats := by
  unfold ListStyle.Chunked at h
  generalize definition.levels = levels at h ⊢
  generalize definition'.levels = levels' at h ⊢
  induction h with
  | nil => rfl
  | @cons level level' _ _ hlevel _ ih =>
    have hformats : level.formats = level'.formats :=
      congrArg (List.map Entry.token) hlevel.rephrased.paragraphFormats_eq
    rw [List.map_cons, List.map_cons, hformats, ih]

theorem mergeLevel_eq (h : definition.Chunked definition') (style : Style) (level : UInt64) :
    style.mergeLevel definition level = style.mergeLevel definition' level := by
  have hlevel : (definition.level? level).map ListLevel.formats =
      (definition'.level? level).map ListLevel.formats := by
    rw [ListStyle.level?, ListStyle.level?, ← List.getElem?_map, ← List.getElem?_map, h.map_formats]
  unfold Style.mergeLevel
  cases hfound : definition.level? level with
  | none =>
    rw [hfound] at hlevel
    rw [Option.map_eq_none_iff.1 hlevel.symm]
  | some found =>
    rw [hfound] at hlevel
    obtain ⟨found', hfound', hformats⟩ := Option.map_eq_some_iff.1 hlevel.symm
    rw [hfound']
    dsimp only
    rw [hformats]

end ListStyle.Chunked

namespace Document.Chunked

variable {doc doc' : Document}

theorem get? (h : doc.Chunked doc') (id : Int32) :
    Option.Rel ListStyle.Chunked (doc.listStyles.get? id) (doc'.listStyles.get? id) := by
  have hstyles := h.listStyles
  unfold ListStyles.get?
  generalize doc.listStyles.entries = entries at hstyles ⊢
  generalize doc'.listStyles.entries = entries' at hstyles ⊢
  induction hstyles with
  | nil => exact .none
  | @cons e e' _ _ he _ ih =>
    obtain ⟨hid, hstyle⟩ := he
    rw [List.find?_cons, List.find?_cons, ← hid]
    split
    · exact .some hstyle
    · exact ih

theorem resolveList_eq (h : doc.Chunked doc') (style : Style) :
    style.resolveList doc = style.resolveList doc' := by
  unfold Style.resolveList
  split
  · rfl
  · rename_i id rest _
    have hget := h.get? id
    generalize doc.listStyles.get? id = found at hget ⊢
    generalize doc'.listStyles.get? id = found' at hget ⊢
    cases hget with
    | none => rfl
    | some hdefinition =>
      dsimp only
      rw [hdefinition.mergeLevel_eq]
  · rfl

theorem defaults_eq (h : doc.Chunked doc') :
    doc.contents.filterMap doc.default? = doc'.contents.filterMap doc'.default? := by
  have hdefault : doc.default? = doc'.default? := by
    funext t
    unfold default?
    rw [h.fonts_eq]
  rw [← hdefault]
  exact h.contents.filterMap_default? doc

theorem events_reworded (h : doc.Chunked doc') :
    ∃ d, Joins d ∧ Event.Reworded d doc.events doc'.events := by
  have hbody : Token.Chunked doc.body doc'.body := h.contents.filter_isBody
  have hign := hbody.rephrased.isIgnorable_eq
  cases hdropped : Group.isIgnorable doc.body with
  | true =>
    refine ⟨[], by simp [Joins], Document.events_reworded h.resolveList_eq h.defaults_eq hign ?_
      (fun _ => rfl)⟩
    intro hkept
    exact absurd (hdropped.symm.trans hkept) (by decide)
  | false =>
    obtain ⟨d, hd, hwords⟩ := hbody.reworded {}
    refine ⟨d, hd, Document.events_reworded h.resolveList_eq h.defaults_eq hign (fun _ => hwords) ?_⟩
    intro hign
    exact absurd (hdropped.symm.trans hign) (by decide)

end Document.Chunked

namespace Document

/-- Where the texts of a document are cut does not show in its markup. -/
theorem html_of_chunked {doc doc' : Document} (h : doc.Chunked doc') (settings : RenderSettings) :
    doc.html settings = doc'.html settings := by
  obtain ⟨d, hd, hevents⟩ := h.events_reworded
  exact html_eq_of_reworded h.fonts_eq h.colors_eq h.hasHtml_eq hd hevents settings

def boldWord (word : List Token) : Document where
  contents := [.atom (.breakMark .tab), .group (.atom (.bold true) :: word),
    .atom (.breakMark .paragraph)]

theorem html_of_chunked_boldWord :
    (boldWord [.text ("wo" ++ "rd")]).Chunked (boldWord [.text "wo", .text "rd"]) ∧
      (boldWord [.text ("wo" ++ "rd")]).html {} = (boldWord [.text "wo", .text "rd"]).html {} := by
  have hword : Token.Chunked [.text ("wo" ++ "rd")] [.text "wo", .text "rd"] :=
    .cut "wo" "rd" .nil
  have hchunked : (boldWord [.text ("wo" ++ "rd")]).Chunked (boldWord [.text "wo", .text "rd"]) :=
    { contents := .keep _ (.group rfl (.keep _ hword) (.keep _ .nil))
      listStyles := .nil
      fonts_eq := rfl
      colors_eq := rfl
      hasHtml_eq := rfl }
  exact ⟨hchunked, html_of_chunked hchunked {}⟩

end Document

end RichText
