import RichText.Proofs.Html.Conformance
set_option autoImplicit false

/-!
What surrounds the characters of a page. A page is read with the elements that are open at each
character, and an end tag that does not close the innermost one is an error. Main statement:
`exists_placed`.
-/
namespace RichText.Html

structure Tag where
  element : Element
  attributes : List Attribute
deriving DecidableEq

/-- A character of a page with the elements around it, innermost first. -/
structure Placed where
  char : Char
  around : List Tag
deriving DecidableEq

def Placed.within (p : Placed) (e : Element) : List (List Attribute) :=
  (p.around.filter (fun tag => tag.element = e)).map Tag.attributes

structure Placement where
  around : List Tag := []
  placed : List Placed := []
deriving DecidableEq

namespace Placement

def step (p : Placement) : Lexeme → Option Placement
  | .opening e attributes => some { p with around := ⟨e, attributes⟩ :: p.around }
  | .closing e =>
    match p.around with
    | [] => none
    | tag :: around => if tag.element = e then some { p with around := around } else none
  | .void _ _ => some p
  | .char c => some { p with placed := p.placed ++ [⟨c, p.around⟩] }

end Placement

/-- The characters of a page with what is around them, if all end tags are in place. -/
def placed? (page : List Char) : Option (List Placed) :=
  (read page).bind fun lexemes => (lexemes.foldlM Placement.step {}).map Placement.placed

/-- The characters of a page with the elements of one name around them. -/
def surrounding (e : Element) (page : List Char) : Option (List (Char × List (List Attribute))) :=
  (placed? page).map (List.map fun p => (p.char, p.within e))

/-! Every page can be read so -/

mutual

theorem Node.exists_placement (node : Node) (p : Placement) :
    ∃ placed, node.lexemes.foldlM Placement.step p = some { p with placed := placed } := by
  match node with
  | .void e attributes => exact ⟨p.placed, rfl⟩
  | .char c => exact ⟨_, rfl⟩
  | .element e attributes children =>
    obtain ⟨placed, hplaced⟩ := Node.exists_placementOfList children
      { p with around := ⟨e, attributes⟩ :: p.around }
    refine ⟨placed, ?_⟩
    rw [Node.lexemes, List.cons_append, List.foldlM_cons]
    simp only [Placement.step, Option.bind_eq_bind, Option.bind_some, List.foldlM_append, hplaced,
      List.foldlM_cons, List.foldlM_nil, if_true, Option.pure_def]

theorem Node.exists_placementOfList (nodes : List Node) (p : Placement) :
    ∃ placed, (Node.lexemesOfList nodes).foldlM Placement.step p =
      some { p with placed := placed } := by
  match nodes with
  | [] => exact ⟨p.placed, rfl⟩
  | node :: nodes =>
    obtain ⟨first, hfirst⟩ := Node.exists_placement node p
    obtain ⟨placed, hplaced⟩ := Node.exists_placementOfList nodes { p with placed := first }
    refine ⟨placed, ?_⟩
    rw [Node.lexemesOfList, List.foldlM_append, hfirst]
    exact hplaced

end

theorem Opened.exists_placement {found : List Lexeme} {es : List Element} {settled : Bool}
    (h : Opened found es settled) :
    ∃ p, found.foldlM Placement.step {} = some p ∧ p.around.map Tag.element = es := by
  induction h with
  | root h =>
    obtain ⟨placed, hplaced⟩ := Node.exists_placementOfList _ {}
    exact ⟨_, hplaced, rfl⟩
  | @inside found es settled e attributes children outer hadmits hlink hchildren ih =>
    obtain ⟨p, hp, hes⟩ := ih
    obtain ⟨placed, hplaced⟩ := Node.exists_placementOfList children
      { p with around := ⟨e, attributes⟩ :: p.around }
    have hrest : (Lexeme.opening e attributes :: Node.lexemesOfList children).foldlM
        Placement.step p = some { p with around := ⟨e, attributes⟩ :: p.around, placed := placed } :=
      hplaced
    refine ⟨{ p with around := ⟨e, attributes⟩ :: p.around, placed := placed }, ?_, ?_⟩
    · rw [List.foldlM_append, hp, Option.bind_eq_bind, Option.bind_some, hrest]
    · rw [List.map_cons, hes]

namespace Page

theorem nested_close (settings : RenderSettings) {closed : Bool} {page : Page}
    (h : Nested closed page) : Nested true (page.close settings) := by
  cases closed with
  | true =>
    have hpage : page.close settings = page := by
      unfold close
      rw [if_pos h.closed_eq]
    rw [hpage]
    exact h
  | false =>
    have hopened := opened_close settings h
    have hmarked : Nested true { page with closed := true } := ⟨h.opened, rfl⟩
    obtain ⟨hclosed, hnothing⟩ := nothing_open hmarked
    have hend : (page.close settings).openElements = [] ∧ (page.close settings).closed = true := by
      unfold close
      rw [h.closed_eq, if_neg Bool.false_ne_true]
      dsimp only
      split
      · exact ⟨hnothing, hclosed.closed_eq⟩
      · exact ⟨hnothing, hclosed.closed_eq⟩
    rw [← hend.1] at hopened
    exact ⟨hopened, hend.2⟩

theorem exists_nested_add (doc : Document) (settings : RenderSettings) (event : Event)
    {closed : Bool} {page : Page} (h : Nested closed page) :
    ∃ closed, Nested closed (page.add doc settings event) := by
  by_cases hevent : event = .close
  · rw [hevent]
    exact ⟨true, nested_close settings h⟩
  · exact ⟨closed, nested_add doc settings hevent h⟩

theorem exists_nested_ofEvents (doc : Document) (settings : RenderSettings)
    (events : List Event) : ∃ closed, Nested closed (ofEvents doc settings events) := by
  have hrun : ∀ (events : List Event) (page : Page), (∃ closed, Nested closed page) →
      ∃ closed, Nested closed (events.foldl (add doc settings) page) := by
    intro events
    induction events with
    | nil => exact fun page h => h
    | cons event events ih =>
      rintro page ⟨closed, h⟩
      exact ih _ (exists_nested_add doc settings event h)
  exact hrun events {} ⟨false, Opened.empty, rfl⟩

theorem exists_placement (doc : Document) (settings : RenderSettings) (events : List Event) :
    ∃ p, (ofEvents doc settings events).lexemes.foldlM Placement.step {} = some p := by
  obtain ⟨closed, hnested⟩ := exists_nested_ofEvents doc settings events
  obtain ⟨p, hp, _⟩ := hnested.opened.exists_placement
  exact ⟨p, hp⟩

end Page

/-! Inline elements -/

def Element.isInline (e : Element) : Bool := e = .a || e = .span

/-- The character with the inline elements around it alone. -/
def Placed.inline (p : Placed) : Placed :=
  { p with around := p.around.filter (fun tag => tag.element.isInline) }

theorem Placed.within_inline (p : Placed) {e : Element} (h : e.isInline = true) :
    p.inline.within e = p.within e := by
  have hboth : ∀ tag : Tag, (decide (tag.element = e) && tag.element.isInline) =
      decide (tag.element = e) := by
    intro tag
    by_cases htag : tag.element = e
    · simp [htag, h]
    · simp [htag]
  simp only [within, inline, List.filter_filter, hboth]

namespace Placement

def inline (p : Placement) : Placement :=
  ⟨p.around.filter (fun tag => tag.element.isInline), p.placed.map Placed.inline⟩

def stepInline (p : Placement) : Lexeme → Placement
  | .opening e attributes =>
    if e.isInline then { p with around := ⟨e, attributes⟩ :: p.around } else p
  | .closing e => if e.isInline then { p with around := p.around.tail } else p
  | .void _ _ => p
  | .char c => { p with placed := p.placed ++ [⟨c, p.around⟩] }

theorem inline_step {p q : Placement} {lexeme : Lexeme} (h : p.step lexeme = some q) :
    q.inline = p.inline.stepInline lexeme := by
  cases lexeme with
  | opening e attributes =>
    obtain rfl := Option.some.inj h
    cases hinline : e.isInline <;> simp [inline, stepInline, hinline]
  | closing e =>
    unfold step at h
    dsimp only at h
    split at h
    · exact absurd h (by simp)
    · rename_i tag around haround
      split at h
      · rename_i htag
        obtain rfl := Option.some.inj h
        cases hinline : e.isInline <;> simp [inline, stepInline, haround, htag, hinline]
      · exact absurd h (by simp)
  | void e attributes =>
    obtain rfl := Option.some.inj h
    rfl
  | char c =>
    obtain rfl := Option.some.inj h
    simp [inline, stepInline, Placed.inline]

theorem inline_foldlM {lexemes : List Lexeme} {p q : Placement}
    (h : lexemes.foldlM step p = some q) : q.inline = lexemes.foldl stepInline p.inline := by
  induction lexemes generalizing p with
  | nil =>
    obtain rfl := Option.some.inj h
    rfl
  | cons lexeme lexemes ih =>
    rw [List.foldlM_cons, Option.bind_eq_bind, Option.bind_eq_some_iff] at h
    obtain ⟨next, hnext, hrest⟩ := h
    rw [ih hrest, inline_step hnext, List.foldl_cons]

theorem foldl_chars (p : Placement) (cs : List Char) :
    (cs.map Lexeme.char).foldl stepInline p =
      { p with placed := p.placed ++ cs.map (⟨·, p.around⟩) } := by
  induction cs generalizing p with
  | nil => simp
  | cons c cs ih =>
    rw [List.map_cons, List.foldl_cons, ih]
    simp [stepInline]

end Placement

namespace Page

def inline (page : Page) : Placement := page.lexemes.foldl Placement.stepInline {}

variable {page : Page}

theorem inline_push (page : Page) (piece : Markup) :
    (page.push piece).inline = piece.lexemes.foldl Placement.stepInline page.inline := by
  rw [inline, lexemes_push, List.foldl_append, inline]

@[simp] theorem inline_push_void (element : VoidElement) (attributes : List Attribute) :
    (page.push (.void element attributes)).inline = page.inline := by
  rw [inline_push]
  rfl

@[simp] theorem inline_push_opening_of_not {e : Element} (h : e.isInline = false)
    (attributes : List Attribute) : (page.push (.opening e attributes)).inline = page.inline := by
  rw [inline_push]
  simp [Markup.lexemes, Placement.stepInline, h]

@[simp] theorem inline_push_closing_of_not {e : Element} (h : e.isInline = false) :
    (page.push (.closing e)).inline = page.inline := by
  rw [inline_push]
  simp [Markup.lexemes, Placement.stepInline, h]

theorem inline_push_opening (page : Page) {e : Element} (h : e.isInline = true)
    (attributes : List Attribute) :
    (page.push (.opening e attributes)).inline =
      { page.inline with around := ⟨e, attributes⟩ :: page.inline.around } := by
  rw [inline_push]
  simp [Markup.lexemes, Placement.stepInline, h]

theorem inline_push_closing (page : Page) {e : Element} (h : e.isInline = true) :
    (page.push (.closing e)).inline =
      { page.inline with around := page.inline.around.tail } := by
  rw [inline_push]
  simp [Markup.lexemes, Placement.stepInline, h]

theorem inline_push_empty (page : Page) {e : Element} (h : e.isInline = true)
    (attributes : List Attribute) :
    ((page.push (.opening e attributes)).push (.closing e)).inline = page.inline := by
  rw [inline_push_closing _ h, inline_push_opening _ h]
  rfl

@[simp] theorem isInline_block (block : Block) : block.element.isInline = false := by
  cases block <;> rfl

@[simp] theorem isInline_list (list : ListMembership) : list.element.isInline = false := by
  obtain h | h := list.element_cases
  · rw [h]
    rfl
  · rw [h]
    rfl

theorem inline_wrapped (page : Page) (attributes : List Attribute) :
    inline { page with
      out := #[.opening .div attributes] ++ page.out ++ #[.closing .div] } = page.inline := by
  simp [inline, lexemes, Markup.lexemes, Placement.stepInline, Element.isInline]

/-- Every page can be read with what surrounds its characters, and the inline elements around them
are those that their own tags tell. -/
theorem exists_placed (doc : Document) (settings : RenderSettings) (events : List Event) :
    ∃ placed, placed? (ofEvents doc settings events).html.toList = some placed ∧
      placed.map Placed.inline = (ofEvents doc settings events).inline.placed := by
  obtain ⟨p, hp⟩ := exists_placement doc settings events
  have hread : read (ofEvents doc settings events).html.toList =
      some (ofEvents doc settings events).lexemes := read_write _
  refine ⟨p.placed, ?_, ?_⟩
  · rw [placed?, hread, Option.bind_some, hp, Option.map_some]
  · exact congrArg Placement.placed (Placement.inline_foldlM hp)

end Page

end RichText.Html
