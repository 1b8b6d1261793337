import RichText.Style.ListResolution
import RichText.Event
set_option autoImplicit false

/-!
Outlines: what can be seen of a style. A cell keeps the row that it belongs to with all of its
tokens, but no more is read of it than its index and its left offset. Main statement:
`outline_resolveList`.
-/
namespace RichText

def Row.outline (row : Row) : Row := ⟨row.index, [.atom (.rowLeftOffset row.leftOffset)]⟩

def Cell.outline (cell : Cell) : Cell := { cell with row := cell.row.map Row.outline }

def CellChain.outline (chain : CellChain) : CellChain :=
  ⟨chain.last.outline, chain.previous.map Cell.outline⟩

def Entry.outline : Entry → Entry
  | .cell chain => .cell chain.outline
  | entry => entry

def Style.outline (style : Style) : Style := ⟨style.entries.map Entry.outline⟩

def Event.outline : Event → Event
  | .text style s => .text style.outline s
  | .breaks style kind count => .breaks style.outline kind count
  | .picture style p => .picture style.outline p
  | event => event

/-! Cells -/

namespace CellChain

theorem leftEdge_outline (cell : Cell) (cells : List Cell) :
    leftEdge cell.outline (cells.map Cell.outline) = leftEdge cell cells := by
  induction cells generalizing cell with
  | nil =>
    simp only [leftEdge, List.map_nil, Cell.outline]
    cases cell.row <;> rfl
  | cons p ps ih =>
    simp only [leftEdge, List.map_cons, ih]
    rfl

@[simp] theorem leftBoundary_outline (chain : CellChain) :
    chain.outline.leftBoundary = chain.leftBoundary :=
  leftEdge_outline chain.last chain.previous

@[simp] theorem width?_outline (chain : CellChain) : chain.outline.width? = chain.width? := by
  simp only [width?, leftBoundary_outline]
  rfl

theorem ofList_map_outline (cells : List Cell) :
    ofList (cells.map Cell.outline) = (ofList cells).map outline := by
  induction cells with
  | nil => rfl
  | cons c cs ih => simp [ofList, ih, outline]

@[simp] theorem initialChains_outline (chain : CellChain) :
    chain.outline.initialChains = chain.initialChains.map outline :=
  ofList_map_outline (chain.last :: chain.previous)

theorem extend_outline (chain : Option CellChain) (cell : Cell) :
    (extend chain cell).outline = extend (chain.map outline) cell.outline := by
  cases chain <;> rfl

end CellChain

namespace Entry

@[simp] theorem kind_outline (e : Entry) : e.outline.kind = e.kind := by cases e <;> rfl

@[simp] theorem category_outline (e : Entry) : e.outline.category = e.category := by
  cases e <;> rfl

@[simp] theorem clears_outline (e : Entry) : e.outline.clears = e.clears := by cases e <;> rfl

@[simp] theorem outline_eq_token_iff {e : Entry} {t : Token} :
    e.outline = .token t ↔ e = .token t := by
  cases e <;> simp [outline]

end Entry

/-! Operations on styles -/

namespace Style

theorem outline_erase (style : Style) (kind : Kind) :
    (style.erase kind).outline = style.outline.erase kind := by
  simp [erase, outline, List.filter_map, Function.comp_def]

theorem outline_clear (style : Style) (categories : List Category) :
    (style.clear categories).outline = style.outline.clear categories := by
  simp [clear, outline, List.filter_map, Function.comp_def]

theorem outline_add (style : Style) (e : Entry) :
    (style.add e).outline = style.outline.add e.outline := by
  unfold add
  rw [Entry.clears_outline, Entry.kind_outline, ← outline_erase]
  split
  · simp [outline]
  · exact style.outline_clear e.clears

theorem outline_addAll (style : Style) (entries : List Entry) :
    (style.addAll entries).outline = style.outline.addAll (entries.map Entry.outline) := by
  induction entries generalizing style with
  | nil => rfl
  | cons e entries ih =>
    change ((style.add e).addAll entries).outline = _
    rw [ih, outline_add]
    rfl

theorem find?_outline (style : Style) (kind : Kind) :
    style.outline.find? kind = (style.find? kind).map Entry.outline := by
  have hkind : (fun e : Entry => decide (e.kind = kind)) ∘ Entry.outline =
      fun e => decide (e.kind = kind) := by
    funext e
    rw [Function.comp_apply, Entry.kind_outline]
  rw [find?, find?, outline, ← List.map_reverse, List.find?_map, hkind]

@[simp] theorem contains_outline (style : Style) (kind : Kind) :
    style.outline.contains kind = style.contains kind := by
  simp [contains, find?_outline]

theorem outline_addNew (style : Style) (entries : List Entry) (excluded : List Kind) :
    (style.addNew entries excluded).outline =
      style.outline.addNew (entries.map Entry.outline) excluded := by
  induction entries generalizing style with
  | nil => rfl
  | cons e entries ih =>
    change Style.outline ((if excluded.contains e.kind || style.contains e.kind then style
      else style.add e).addNew entries excluded) = _
    rw [ih]
    simp only [addNew, List.map_cons, List.foldl_cons, Entry.kind_outline, contains_outline]
    split
    · rfl
    · rw [outline_add]

theorem removeLast_outline (style : Style) (kind : Kind) :
    style.outline.removeLast kind =
      ((style.removeLast kind).1.map Entry.outline, (style.removeLast kind).2.outline) := by
  simp [removeLast, outline, ← List.map_reverse, List.find?_map, List.eraseP_map,
    Function.comp_def]

theorem outline_setInTable (style : Style) (inTable : Bool) :
    (style.setInTable inTable).outline = style.outline.setInTable inTable := by
  unfold setInTable
  split
  · exact style.outline_add _
  · simp [outline, List.filter_map, Function.comp_def]

/-! Resolving -/

theorem levelOf_outline (e : Option Entry) : levelOf (e.map Entry.outline) = levelOf e := by
  cases e with
  | none => rfl
  | some e => cases e <;> rfl

theorem map_outline_formats (level : ListLevel) : level.formats.map Entry.outline = level.formats := by
  simp [ListLevel.formats, Entry.outline]

theorem outline_mergeLevel (style : Style) (definition : ListStyle) (level : UInt64) :
    (style.mergeLevel definition level).outline = style.outline.mergeLevel definition level := by
  unfold mergeLevel
  split
  · rw [outline_addNew, map_outline_formats]
  · rfl

/-- Resolving looks at no more of a style than its outline. -/
theorem outline_resolveList (doc : Document) (style : Style) :
    (style.resolveList doc).outline = style.outline.resolveList doc := by
  unfold resolveList
  rw [removeLast_outline]
  generalize style.removeLast .listStyleId = removed
  obtain ⟨e?, rest⟩ := removed
  cases e? with
  | none => rfl
  | some e =>
    by_cases hid : ∃ id, e = .atom (.listStyleId id)
    · obtain ⟨id, rfl⟩ := hid
      simp only [Option.map_some, Entry.outline, removeLast_outline, levelOf_outline]
      cases doc.listStyles.get? id with
      | none => exact outline_add rest _
      | some definition =>
        dsimp only
        rw [outline_addAll, outline_mergeLevel]
        rfl
    · have hother : ∀ id, e ≠ .atom (.listStyleId id) := fun id he => hid ⟨id, he⟩
      have houtline : ∀ id, e.outline ≠ .atom (.listStyleId id) := by
        intro id he
        exact hother id (Entry.outline_eq_token_iff.1 he)
      simp only [Option.map_some]
      exact outline_add rest e

/-! What is read of a style -/

theorem findMap?_outline {α : Type} {f : Entry → Option α} (h : ∀ e, f e.outline = f e)
    (style : Style) : style.outline.findMap? f = style.findMap? f := by
  simp [findMap?, outline, ← List.map_reverse, List.findSome?_map, Function.comp_def, h]

@[simp] theorem isInTable_outline (style : Style) : style.outline.isInTable = style.isInTable :=
  style.contains_outline .inTable

theorem cellChain?_outline (style : Style) :
    style.outline.cellChain? = style.cellChain?.map CellChain.outline := by
  unfold cellChain? findMap? outline
  rw [← List.map_reverse]
  induction style.entries.reverse with
  | nil => rfl
  | cons e entries ih =>
    rw [List.map_cons, List.findSome?_cons, List.findSome?_cons]
    cases e with
    | cell chain => rfl
    | _ => exact ih

@[simp] theorem hyperlink?_outline (style : Style) : style.outline.hyperlink? = style.hyperlink? :=
  findMap?_outline (fun e => by cases e <;> rfl) style

@[simp] theorem bookmark?_outline (style : Style) : style.outline.bookmark? = style.bookmark? :=
  findMap?_outline (fun e => by cases e <;> rfl) style

@[simp] theorem border?_outline (style : Style) (side : BorderSide) :
    style.outline.border? side = style.border? side :=
  findMap?_outline (fun e => by cases e <;> rfl) style

@[simp] theorem listStyleId?_outline (style : Style) :
    style.outline.listStyleId? = style.listStyleId? :=
  findMap?_outline (fun e => by cases e <;> rfl) style

@[simp] theorem listLevel_outline (style : Style) : style.outline.listLevel = style.listLevel :=
  congrArg (fun level => Option.getD level 0)
    (findMap?_outline (fun e => by cases e <;> rfl) style)

theorem find?_eq_token_outline_iff (style : Style) (kind : Kind) (t : Token) :
    style.outline.find? kind = some (.token t) ↔ style.find? kind = some (.token t) := by
  rw [find?_outline]
  cases style.find? kind <;> simp

@[simp] theorem isHidden_outline (style : Style) : style.outline.isHidden = style.isHidden := by
  simp only [isHidden, find?_eq_token_outline_iff]

@[simp] theorem isHtmlTag_outline (style : Style) : style.outline.isHtmlTag = style.isHtmlTag := by
  simp [isHtmlTag, outline, List.any_map, Function.comp_def]

@[simp] theorem numbering?_outline (style : Style) :
    style.outline.numbering? = style.numbering? := by
  unfold numbering?
  rw [find?_outline]
  cases style.find? .numberingType with
  | none => rfl
  | some e => cases e <;> rfl

end Style

end RichText
