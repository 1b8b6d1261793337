import RichText.Proofs.Html.PlacedRuns
import RichText.Proofs.Style.Reachable
set_option autoImplicit false

/-!
Spans around text. In a style with one entry of a kind each property is declared once, with the
value that the entry in effect of its kind gives. Main statement: `spans_ofEvents`.
-/
namespace RichText

namespace Html

/-- The kind that decides on a property of text; lines are decided on by two. -/
def Property.kind? : Property → Option Kind
  | .fontWeight => some .bold
  | .fontStyle => some .italic
  | .fontFamily => some .fontRef
  | .fontSize => some .fontSize
  | .color => some .foregroundColor
  | .backgroundColor => some .backgroundColor
  | .verticalAlign => some .script
  | _ => none

def Property.value? (doc : Document) (defaultFont : Option Font) : Property → Entry → Option String
  | .fontWeight, .atom (.bold true) => some "bold"
  | .fontStyle, .atom (.italic true) => some "italic"
  | .fontFamily, .atom (.fontRef id) =>
    ((doc.fonts.get? id).filter (fun font => some font ≠ defaultFont)).map fontFamilies
  | .fontSize, .atom (.fontSize size) => some (Number.halfPointsText size ++ "pt")
  | .color, .atom (.foregroundColor index) => (doc.color? index).map Color.css
  | .backgroundColor, .atom (.backgroundColor index) => (doc.color? index).map Color.css
  | .verticalAlign, .atom (.script .superscript) => some "super"
  | .verticalAlign, .atom (.script .subscript) => some "sub"
  | _, _ => none

end Html

def Style.lines (style : Style) : List String :=
  (if style.find? .underline = some (.atom (.underline true)) then ["underline"] else []) ++
    (if style.find? .strike = some (.atom (.strike true)) then ["line-through"] else [])

/-- The value of a property of text in a style whose lines are drawn in this order. -/
def Style.declared? (doc : Document) (defaultFont : Option Font) (style : Style)
    (lines : List String) : Html.Property → Option String
  | .textDecoration => if lines = [] then none else some (" ".intercalate lines)
  | property => property.kind?.bind fun kind =>
      (style.find? kind).bind (property.value? doc defaultFont)

theorem Style.declared?_of_ne {property : Html.Property} (h : property ≠ .textDecoration)
    (doc : Document) (defaultFont : Option Font) (style : Style) (lines : List String) :
    style.declared? doc defaultFont lines property =
      property.kind?.bind fun kind => (style.find? kind).bind (property.value? doc defaultFont) := by
  cases property <;> first | rfl | exact absurd rfl h

namespace Html

variable {doc : Document} {defaultFont : Option Font} {style : Style} {d : Declaration}

def Property.ofKind? : Kind → Option Property
  | .bold => some .fontWeight
  | .italic => some .fontStyle
  | .fontRef => some .fontFamily
  | .fontSize => some .fontSize
  | .foregroundColor => some .color
  | .backgroundColor => some .backgroundColor
  | .script => some .verticalAlign
  | _ => none

theorem Property.ofKind?_of_kind? {property : Property} {kind : Kind}
    (h : property.kind? = some kind) : ofKind? kind = some property := by
  cases property <;> cases h <;> rfl

def DeclaresOwn (doc : Document) (defaultFont : Option Font) (e : Entry) : Prop :=
  ∀ d, spanDeclaration? doc defaultFont e = some d ↔
    d.property.kind? = some e.kind ∧ d.property.value? doc defaultFont e = some d.value

theorem declaresOwn_of_none {e : Entry} (h : spanDeclaration? doc defaultFont e = none)
    (hkind : Property.ofKind? e.kind = none) : DeclaresOwn doc defaultFont e := by
  intro d
  refine iff_of_false (by simp [h]) ?_
  rintro ⟨hproperty, -⟩
  rw [Property.ofKind?_of_kind? hproperty] at hkind
  exact absurd hkind (by simp)

theorem declaresOwn_of_map {e : Entry} (property : Property) (hkind : property.kind? = some e.kind)
    (h : spanDeclaration? doc defaultFont e =
      (property.value? doc defaultFont e).map (⟨property, ·⟩)) : DeclaresOwn doc defaultFont e := by
  intro d
  rw [h, Option.map_eq_some_iff]
  constructor
  · rintro ⟨value, hvalue, rfl⟩
    exact ⟨hkind, hvalue⟩
  · rintro ⟨hown, hvalue⟩
    have hsame := (Property.ofKind?_of_kind? hkind).symm.trans (Property.ofKind?_of_kind? hown)
    obtain rfl := Option.some.inj hsame
    exact ⟨d.value, hvalue, rfl⟩

theorem declaresOwn (doc : Document) (defaultFont : Option Font) (e : Entry) :
    DeclaresOwn doc defaultFont e := by
  cases e with
  | token t =>
    cases t with
    | atom a =>
      cases a with
      | bold on => exact declaresOwn_of_map .fontWeight rfl (by cases on <;> rfl)
      | italic on => exact declaresOwn_of_map .fontStyle rfl (by cases on <;> rfl)
      | fontRef id =>
        refine declaresOwn_of_map .fontFamily rfl ?_
        show (if doc.fonts.get? id = defaultFont then none
            else (doc.fonts.get? id).map fontDeclaration) =
          (((doc.fonts.get? id).filter (fun font => some font ≠ defaultFont)).map fontFamilies).map
            (⟨.fontFamily, ·⟩)
        cases doc.fonts.get? id with
        | none => simp
        | some font =>
          rw [Option.filter_some]
          by_cases hfont : some font = defaultFont
          · rw [if_pos hfont, if_neg (by simpa using hfont)]
            rfl
          · rw [if_neg hfont, if_pos (by simpa using hfont)]
            rfl
      | fontSize size => exact declaresOwn_of_map .fontSize rfl rfl
      | foregroundColor index =>
        exact declaresOwn_of_map .color rfl (Option.map_map _ _ _).symm
      | backgroundColor index =>
        exact declaresOwn_of_map .backgroundColor rfl (Option.map_map _ _ _).symm
      | script position => exact declaresOwn_of_map .verticalAlign rfl (by cases position <;> rfl)
      | _ => exact declaresOwn_of_none rfl rfl
    | group g => exact declaresOwn_of_none rfl rfl
  | _ => exact declaresOwn_of_none rfl rfl

theorem nodup_spanDeclarations (h : style.Unique) :
    ((style.entries.filterMap (spanDeclaration? doc defaultFont)).map
      Declaration.property).Nodup := by
  have hkinds : style.entries.Pairwise fun e e' => e.kind ≠ e'.kind := List.pairwise_map.1 h
  refine List.pairwise_map.2 (hkinds.filterMap _ ?_)
  intro e e' hne d hd d' hd' hproperty
  obtain ⟨hkind, -⟩ := (declaresOwn doc defaultFont _ _).1 hd
  obtain ⟨hkind', -⟩ := (declaresOwn doc defaultFont _ _).1 hd'
  rw [hproperty, hkind'] at hkind
  exact hne (Option.some.inj hkind).symm

theorem mem_spanDeclarations_iff (h : style.Unique) :
    d ∈ style.entries.filterMap (spanDeclaration? doc defaultFont) ↔
      d.property.kind?.bind (fun kind =>
        (style.find? kind).bind (d.property.value? doc defaultFont)) = some d.value := by
  rw [List.mem_filterMap]
  constructor
  · rintro ⟨e, hmem, hd⟩
    obtain ⟨hkind, hvalue⟩ := (declaresOwn doc defaultFont _ _).1 hd
    have hfind : style.find? e.kind = some e := (Style.find?_eq_some_iff h).2 ⟨hmem, rfl⟩
    rw [hkind, Option.bind_some, hfind, Option.bind_some, hvalue]
  · intro hvalue
    obtain ⟨kind, hkind, hrest⟩ := Option.bind_eq_some_iff.1 hvalue
    obtain ⟨e, hfind, hvalue⟩ := Option.bind_eq_some_iff.1 hrest
    obtain ⟨hmem, rfl⟩ := (Style.find?_eq_some_iff h).1 hfind
    exact ⟨e, hmem, (declaresOwn doc defaultFont e _).2 ⟨hkind, hvalue⟩⟩

theorem decoration?_eq_some_iff {e : Entry} {line : String} :
    decoration? e = some line ↔
      e = .atom (.underline true) ∧ line = "underline" ∨
        e = .atom (.strike true) ∧ line = "line-through" := by
  constructor
  · intro h
    unfold decoration? at h
    split at h
    · exact .inl ⟨rfl, (Option.some.inj h).symm⟩
    · exact .inr ⟨rfl, (Option.some.inj h).symm⟩
    · exact absurd h (by simp)
  · rintro (⟨rfl, rfl⟩ | ⟨rfl, rfl⟩)
    · rfl
    · rfl

/-- The lines that are drawn are those that the style has, in the order of its entries. -/
theorem perm_lines (h : style.Unique) :
    (style.entries.filterMap decoration?).Perm style.lines := by
  have hkinds : style.entries.Pairwise fun e e' => e.kind ≠ e'.kind := List.pairwise_map.1 h
  have hnodup : (style.entries.filterMap decoration?).Nodup := by
    refine hkinds.filterMap _ ?_
    intro e e' hne line hline line' hline' heq
    subst heq
    rw [decoration?_eq_some_iff] at hline hline'
    obtain ⟨rfl, rfl⟩ | ⟨rfl, rfl⟩ := hline
    · obtain ⟨rfl, -⟩ | ⟨-, hline⟩ := hline'
      · exact hne rfl
      · exact absurd hline (by decide)
    · obtain ⟨-, hline⟩ | ⟨rfl, -⟩ := hline'
      · exact absurd hline (by decide)
      · exact hne rfl
  have hlines : style.lines.Nodup := by
    unfold Style.lines
    split <;> split <;> decide
  refine (List.perm_ext_iff_of_nodup hnodup hlines).2 ?_
  intro line
  rw [List.mem_filterMap]
  simp only [decoration?_eq_some_iff, Style.lines, List.mem_append, Style.find?_eq_some_iff h]
  constructor
  · rintro ⟨e, hmem, ⟨rfl, rfl⟩ | ⟨rfl, rfl⟩⟩
    · left
      rw [if_pos ⟨hmem, rfl⟩]
      exact List.mem_cons_self
    · right
      rw [if_pos ⟨hmem, rfl⟩]
      exact List.mem_cons_self
  · rintro (hline | hline)
    · split at hline
      · rename_i hin
        exact ⟨_, hin.1, .inl ⟨rfl, List.mem_singleton.1 hline⟩⟩
      · exact absurd hline (by simp)
    · split at hline
      · rename_i hin
        exact ⟨_, hin.1, .inr ⟨rfl, List.mem_singleton.1 hline⟩⟩
      · exact absurd hline (by simp)

theorem decorationCss_eq (style : Style) :
    decorationCss style = if style.entries.filterMap decoration? = [] then [] else
      [⟨.textDecoration, " ".intercalate (style.entries.filterMap decoration?)⟩] := by
  unfold decorationCss
  split
  · rename_i hlines
    rw [if_pos hlines]
  · rename_i hlines
    rw [if_neg hlines]

theorem property_ne_of_mem (hd : d ∈ style.entries.filterMap (spanDeclaration? doc defaultFont)) :
    d.property ≠ .textDecoration := by
  obtain ⟨e, -, he⟩ := List.mem_filterMap.1 hd
  intro hproperty
  obtain ⟨hkind, -⟩ := (declaresOwn doc defaultFont _ _).1 he
  rw [hproperty] at hkind
  exact absurd hkind (by simp [Property.kind?])

theorem nodup_spanCss (h : style.Unique) :
    ((spanCss doc defaultFont style).map Declaration.property).Nodup := by
  rw [spanCss, List.map_append, List.nodup_append]
  refine ⟨nodup_spanDeclarations h, ?_, ?_⟩
  · rw [decorationCss_eq]
    split <;> simp
  · intro property hproperty property' hdecoration
    obtain ⟨d, hd, rfl⟩ := List.mem_map.1 hproperty
    obtain ⟨d', hd', rfl⟩ := List.mem_map.1 hdecoration
    rw [decorationCss_eq] at hd'
    split at hd'
    · exact absurd hd' (by simp)
    · rw [List.mem_singleton.1 hd']
      exact property_ne_of_mem hd

/-- What is declared for a text is what the entries in effect give. -/
theorem mem_spanCss_iff (h : style.Unique) :
    d ∈ spanCss doc defaultFont style ↔
      style.declared? doc defaultFont (style.entries.filterMap decoration?) d.property =
        some d.value := by
  rw [spanCss, List.mem_append, decorationCss_eq]
  by_cases hproperty : d.property = .textDecoration
  · have hother : d ∉ style.entries.filterMap (spanDeclaration? doc defaultFont) :=
      fun hd => property_ne_of_mem hd hproperty
    obtain ⟨property, value⟩ := d
    obtain rfl : property = .textDecoration := hproperty
    rw [or_iff_right hother, Style.declared?]
    split
    · simp
    · simp [eq_comm]
  · have hline : d ∉ if style.entries.filterMap decoration? = [] then [] else
        [(⟨.textDecoration, " ".intercalate (style.entries.filterMap decoration?)⟩ :
          Declaration)] := by
      split
      · simp
      · rw [List.mem_singleton]
        exact fun hd => hproperty (congrArg Declaration.property hd)
    rw [or_iff_left hline, Style.declared?_of_ne hproperty, mem_spanDeclarations_iff h]

/-! The spans of a page -/

/-- The attributes of the spans that a character is to stand in: of one, if its style declares
anything. -/
def ownSpans (doc : Document) (w : Written) : List (List Attribute) :=
  match spanCss doc w.defaultFont w.style with
  | [] => []
  | css => [[⟨.style, cssText css⟩]]

theorem Run.within_span_eq (doc : Document) (run : Run) :
    (run.placed doc).within .span = ownSpans doc run.toWritten := by
  rw [within_span, Page.spanValue, ownSpans]
  cases spanCss doc run.defaultFont run.style with
  | nil => rfl
  | cons d css => rfl

theorem style_of_mem_written {events : List Event} {font : Option Font} {w : Written}
    (h : w ∈ written font events) : ∃ s, .text w.style s ∈ events := by
  induction events generalizing font with
  | nil => exact absurd h (by simp [written])
  | cons event events ih =>
    have hrest : ∀ font, w ∈ written font events → ∃ s, .text w.style s ∈ event :: events := by
      intro font hmem
      obtain ⟨s, hs⟩ := ih hmem
      exact ⟨s, List.mem_cons_of_mem _ hs⟩
    cases event with
    | text style s =>
      obtain hown | hmem := List.mem_append.1 h
      · split at hown
        · exact absurd hown (by simp)
        · obtain ⟨c, _, rfl⟩ := List.mem_map.1 hown
          exact ⟨s, List.mem_cons_self⟩
      · exact hrest _ hmem
    | _ => exact hrest _ h

namespace Page

/-- Every visible character stands in one span, whose style attribute is the declarations of its
own style, or in none if there are no declarations. Each property is declared once at most, and
with just the value that the entry in effect of its kind gives; the lines are one declaration. -/
theorem spans_ofEvents (doc : Document) (settings : RenderSettings) {events : List Event}
    (h : ∀ event ∈ events, ∀ style ∈ event.style?, style.Reachable) :
    surrounding .span (ofEvents doc settings events).html.toList =
        some ((written none events).map fun w => (w.char, ownSpans doc w)) ∧
      ∀ w ∈ written none events,
        ((spanCss doc w.defaultFont w.style).map Declaration.property).Nodup ∧
        ∃ lines : List String, lines.Perm w.style.lines ∧
          ∀ d, d ∈ spanCss doc w.defaultFont w.style ↔
            w.style.declared? doc w.defaultFont lines d.property = some d.value := by
  constructor
  · obtain ⟨hwritten, -⟩ := Runs.runs_ofEvents settings events
    rw [surrounding_ofEvents (e := .span) rfl, ← hwritten, List.map_map]
    simp only [Run.within_span_eq]
    rfl
  · intro w hw
    obtain ⟨s, hs⟩ := style_of_mem_written hw
    have hunique : w.style.Unique := (h _ hs w.style rfl).wellFormed.unique
    exact ⟨nodup_spanCss hunique, _, perm_lines hunique, fun _ => mem_spanCss_iff hunique⟩

def struckWord : List Event :=
  [.text (.ofList [.atom (.strike true), .atom (.bold true), .atom (.underline true)]) "a",
    .text {} "b"]

theorem spans_struckWord :
    (∀ event ∈ struckWord, ∀ style ∈ event.style?, style.Reachable) ∧
      surrounding .span (ofEvents {} {} struckWord).html.toList =
        some [('a', [[⟨.style, "font-weight:bold;text-decoration:line-through underline"⟩]]),
          ('b', [])] := by
  have hreachable : ∀ event ∈ struckWord, ∀ style ∈ event.style?, style.Reachable := by
    intro event hevent style hstyle
    rw [struckWord, List.mem_cons, List.mem_singleton] at hevent
    obtain rfl | rfl := hevent
    · obtain rfl := Option.some.inj hstyle
      exact Style.reachable_ofList _
    · obtain rfl := Option.some.inj hstyle
      exact .empty
  exact ⟨hreachable, (spans_ofEvents {} {} hreachable).1.trans (by decide)⟩

end Page

end Html

end RichText
