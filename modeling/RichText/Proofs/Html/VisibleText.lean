import RichText.Proofs.Html.Told
set_option autoImplicit false

namespace RichText

/-- What is to be seen of an event: a text that is not hidden. -/
def Event.visibleText : Event → List Char
  | .text style s => if style.isHidden then [] else s.toList
  | .breaks _ _ _ | .picture _ _ | .defaultFont _ | .defaultTabWidth _ | .close => []

namespace Html

/-- Deletes every stretch from an opening bracket through the next closing one. The characters of
the stretch that is being read are kept, last one first, for it may not end. -/
def deleteTags : Option (List Char) → List Char → List Char
  | none, [] => []
  | some tag, [] => tag.reverse
  | none, c :: cs => if c = '<' then deleteTags (some [c]) cs else c :: deleteTags none cs
  | some tag, c :: cs => if c = '>' then deleteTags none cs else deleteTags (some (c :: tag)) cs

def decodeText : List Char → List Char
  | '&' :: 'l' :: 't' :: ';' :: rest => '<' :: decodeText rest
  | '&' :: 'g' :: 't' :: ';' :: rest => '>' :: decodeText rest
  | '&' :: 'a' :: 'm' :: 'p' :: ';' :: rest => '&' :: decodeText rest
  | c :: rest => c :: decodeText rest
  | [] => []

def visibleText (page : List Char) : List Char := decodeText (deleteTags none page)

theorem decodeText_cons {c : Char} (h : c ≠ '&') (s : List Char) :
    decodeText (c :: s) = c :: decodeText s := by
  rw [decodeText] <;> simp_all

theorem decodeText_escapeTextChar (c : Char) (s : List Char) :
    decodeText (escapeTextChar c ++ s) = c :: decodeText s := by
  unfold escapeTextChar
  split
  · simp [decodeText, *]
  split
  · simp [decodeText, *]
  split
  · simp [decodeText, *]
  · rename_i hamp _ _
    simp [decodeText_cons hamp]

theorem decodeText_escapeText (s : List Char) : decodeText (escapeText s) = s := by
  induction s with
  | nil => rfl
  | cons c s ih => rw [escapeText, List.flatMap_cons, decodeText_escapeTextChar, ← escapeText, ih]

theorem deleteTags_append {cs : List Char} (h : '<' ∉ cs) (rest : List Char) :
    deleteTags none (cs ++ rest) = cs ++ deleteTags none rest := by
  induction cs with
  | nil => rfl
  | cons c cs ih =>
    have hc : c ≠ '<' := by rintro rfl; simp at h
    simp [deleteTags, hc, ih (fun hcs => h (List.mem_cons_of_mem _ hcs))]

theorem deleteTags_inside {body : List Char} (h : '>' ∉ body) (tag rest : List Char) :
    deleteTags (some tag) (body ++ '>' :: rest) = deleteTags none rest := by
  induction body generalizing tag with
  | nil => simp [deleteTags]
  | cons c body ih =>
    have hc : c ≠ '>' := by rintro rfl; simp at h
    simp [deleteTags, hc, ih (fun hbody => h (List.mem_cons_of_mem _ hbody))]

theorem deleteTags_tag {body : List Char} (h : '>' ∉ body) (rest : List Char) :
    deleteTags none ('<' :: body ++ ['>'] ++ rest) = deleteTags none rest := by
  simpa [deleteTags] using deleteTags_inside h ['<'] rest

namespace Markup

def visibleText : Markup → List Char
  | .text s => s.toList
  | .opening _ _ | .closing _ | .void _ _ => []

theorem deleteTags_chars (piece : Markup) (rest : List Char) :
    deleteTags none (piece.chars ++ rest) =
      escapeText piece.visibleText ++ deleteTags none rest := by
  cases piece with
  | opening element attributes =>
    have hname : '<' ∉ element.name.toList ∧ '>' ∉ element.name.toList := by
      cases element <;> decide
    exact deleteTags_tag (bracket_notMem_tagBody hname attributes).2 rest
  | closing element =>
    have hbody : '>' ∉ '/' :: element.name.toList := by cases element <;> decide
    exact deleteTags_tag hbody rest
  | void element attributes =>
    have hname : '<' ∉ element.name.toList ∧ '>' ∉ element.name.toList := by
      cases element <;> decide
    exact deleteTags_tag (bracket_notMem_tagBody hname attributes).2 rest
  | text s => exact deleteTags_append (bracket_notMem_escapeText s.toList).1 rest

theorem deleteTags_flatMap_chars (pieces : List Markup) :
    deleteTags none (pieces.flatMap chars) = escapeText (pieces.flatMap visibleText) := by
  induction pieces with
  | nil => rfl
  | cons piece pieces ih =>
    rw [List.flatMap_cons, deleteTags_chars, ih]
    simp [escapeText]

theorem visibleText_write (pieces : Array Markup) :
    Html.visibleText (write pieces).toList = pieces.toList.flatMap visibleText := by
  rw [Html.visibleText, write, String.toList_ofList, deleteTags_flatMap_chars,
    decodeText_escapeText]

end Markup

namespace Page

def visibleText (page : Page) : List Char := page.out.toList.flatMap Markup.visibleText

theorem visibleText_html (page : Page) :
    Html.visibleText page.html.toList = page.visibleText :=
  Markup.visibleText_write page.out

theorem visibleText_eq_told (page : Page) :
    page.visibleText = page.told.pieces.flatMap Markup.visibleText := by
  have hnone : ∀ piece : Markup, piece.tells = false → piece.visibleText = [] := by
    intro piece htells
    cases piece with
    | text s => exact Bool.noConfusion htells
    | _ => rfl
  exact (Markup.flatMap_filter_tells hnone page.out.toList).symm

theorem visibleText_close (page : Page) (settings : RenderSettings) :
    (page.close settings).visibleText = page.visibleText := by
  rw [visibleText_eq_told, told_close, visibleText_eq_told]

theorem visibleText_add (doc : Document) (settings : RenderSettings) (page : Page)
    (event : Event) :
    (page.add doc settings event).visibleText = page.visibleText ++ event.visibleText := by
  have hask : ∀ (told : Told) (id? : Option String),
      (told.ask id?).pieces.flatMap Markup.visibleText =
        told.pieces.flatMap Markup.visibleText := by
    intro told id?
    cases id? with
    | none => rfl
    | some id =>
      rw [Told.ask]
      split <;> simp [Markup.visibleText]
  have hshown : event.shown.flatMap Markup.visibleText = event.visibleText := by
    cases event with
    | text style s =>
      by_cases hidden : style.isHidden <;> by_cases empty : s = "" <;>
        simp [Event.shown, Event.visibleText, Markup.visibleText, hidden, empty]
    | _ => rfl
  rw [visibleText_eq_told, told_add, Told.add, List.flatMap_append, hask, hshown,
    visibleText_eq_told]

theorem visibleText_foldl (doc : Document) (settings : RenderSettings) (events : List Event)
    (page : Page) :
    (events.foldl (add doc settings) page).visibleText =
      page.visibleText ++ events.flatMap Event.visibleText := by
  induction events generalizing page with
  | nil => simp
  | cons event events ih => simp [ih, visibleText_add]

/-- However events follow one another, even after the end of the page, the reader sees the texts
that are not hidden, each once and unaltered, in the order in which they came. -/
theorem visibleText_ofEvents (doc : Document) (settings : RenderSettings) (events : List Event) :
    Html.visibleText ((ofEvents doc settings events).close settings).html.toList =
      events.flatMap Event.visibleText := by
  have hevents := visibleText_foldl doc settings events {}
  have hempty : visibleText {} = [] := rfl
  rw [visibleText_html, visibleText_close, ofEvents, hevents, hempty, List.nil_append]

end Page

end Html

end RichText
