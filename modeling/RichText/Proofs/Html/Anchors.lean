import Mathlib.Data.List.Induction
import RichText.Proofs.Html.Told
import RichText.Proofs.Html.Reading
set_option autoImplicit false

namespace RichText.Html

section Distinct

variable {α : Type} [DecidableEq α]

theorem eraseDups_concat (items : List α) (item : α) :
    (items ++ [item]).eraseDups =
      if item ∈ items then items.eraseDups else items.eraseDups ++ [item] := by
  rw [List.eraseDups_append]
  split <;> simp [List.removeAll, List.eraseDups_cons, *]

theorem eraseDups_append_eraseDups (before items : List α) :
    (before ++ items.eraseDups).eraseDups = (before ++ items).eraseDups := by
  induction items using List.reverseRecOn with
  | nil => rfl
  | append_singleton items item ih =>
    rw [eraseDups_concat items, ← List.append_assoc, eraseDups_concat]
    by_cases hitem : item ∈ items
    · simp [hitem, ih]
    · rw [if_neg hitem, ← List.append_assoc, eraseDups_concat, ih]
      simp [hitem]

end Distinct

def Lexeme.anchorId? : Lexeme → Option String
  | .opening .a attributes =>
    (attributes.find? (fun a => a.name = .id)).map Attribute.value
  | .opening _ _ | .closing _ | .void _ _ | .char _ => none

def anchors (page : List Char) : Option (List String) :=
  (read page).map (List.filterMap Lexeme.anchorId?)

def Markup.anchors (piece : Markup) : List String := piece.lexemes.filterMap Lexeme.anchorId?

theorem Markup.anchors_eq_nil {piece : Markup} (h : piece.tells = false) : piece.anchors = [] := by
  cases piece with
  | text s => exact Bool.noConfusion h
  | closing element => rfl
  | void element attributes => rfl
  | opening element attributes =>
    cases element with
    | a =>
      have hid : attributes.find? (fun a => a.name = .id) = none := by
        rw [List.find?_eq_none]
        exact List.any_eq_false.1 h
      simp [anchors, lexemes, Lexeme.anchorId?, hid]
    | _ => rfl

def Told.anchors (told : Told) : List String := told.pieces.flatMap Markup.anchors

theorem Page.anchors_html (page : Page) :
    Html.anchors page.html.toList = some page.told.anchors := by
  rw [Html.anchors, html, read_write, Option.map_some, Told.anchors, told,
    Markup.flatMap_filter_tells (fun _ => Markup.anchors_eq_nil), List.filterMap_flatMap]
  rfl

/-! Asking for anchors -/

namespace Told

variable {told : Told} {ids : List String}

/-- There is an anchor for each id that was asked for, the first asked for first. -/
structure Anchored (told : Told) (ids : List String) : Prop where
  anchors_eq : told.anchors = ids.eraseDups
  bookmarks_eq : told.bookmarks = ids.eraseDups.reverse

theorem Anchored.ask (h : told.Anchored ids) (id? : Option String) :
    (told.ask id?).Anchored (ids ++ id?.toList) := by
  cases id? with
  | none => simpa [Told.ask] using h
  | some id =>
    have hnoted : id ∈ told.bookmarks ↔ id ∈ ids := by
      rw [h.bookmarks_eq, List.mem_reverse, List.mem_eraseDups]
    rw [Told.ask, Option.toList_some]
    by_cases hmem : id ∈ ids
    · have hold : (ids ++ [id]).eraseDups = ids.eraseDups := by
        rw [eraseDups_concat, if_pos hmem]
      rw [if_pos (hnoted.2 hmem)]
      exact ⟨h.anchors_eq.trans hold.symm, by rw [h.bookmarks_eq, hold]⟩
    · have hnew : (ids ++ [id]).eraseDups = ids.eraseDups ++ [id] := by
        rw [eraseDups_concat, if_neg hmem]
      have hanchor : Markup.anchors (.opening .a [⟨.id, id⟩]) = [id] := rfl
      rw [if_neg (fun hold => hmem (hnoted.1 hold))]
      constructor
      · rw [hnew, ← h.anchors_eq]
        simp [anchors, hanchor]
      · rw [hnew, List.reverse_append, ← h.bookmarks_eq]
        rfl

theorem Anchored.add (h : told.Anchored ids) (settings : RenderSettings) (event : Event) :
    (told.add settings event).Anchored (ids ++ (event.anchorId? settings).toList) := by
  have hshown : event.shown.flatMap Markup.anchors = [] := by
    cases event with
    | text style s =>
      rw [Event.shown]
      split
      · rfl
      · simp [Markup.anchors, Markup.lexemes, Lexeme.anchorId?]
    | _ => rfl
  have hasked := h.ask (event.anchorId? settings)
  refine ⟨?_, hasked.bookmarks_eq⟩
  rw [← hasked.anchors_eq, anchors, Told.add, List.flatMap_append, hshown, List.append_nil,
    anchors]

theorem Anchored.foldl (h : told.Anchored ids) (settings : RenderSettings)
    (events : List Event) :
    (events.foldl (Told.add settings) told).Anchored
      (ids ++ events.filterMap (Event.anchorId? settings)) := by
  induction events generalizing told ids with
  | nil => simpa using h
  | cons event events ih =>
    have htail := ih (h.add settings event)
    rw [List.append_assoc] at htail
    cases hid : event.anchorId? settings <;> simpa [hid] using htail

end Told

namespace Page

theorem anchored_ofEvents (doc : Document) (settings : RenderSettings) (events : List Event) :
    (ofEvents doc settings events).told.Anchored
      (events.filterMap (Event.anchorId? settings)) := by
  have hempty : Told.Anchored {} [] := ⟨rfl, rfl⟩
  have htold : (ofEvents doc settings events).told = events.foldl (Told.add settings) {} :=
    told_foldl {} doc settings events
  rw [htold]
  exact hempty.foldl settings events

/-- However events follow one another, the anchors of the page are those that the content asked
for, each once, in the order in which they were first asked for. -/
theorem anchors_ofEvents (doc : Document) (settings : RenderSettings) (events : List Event) :
    Html.anchors (ofEvents doc settings events).html.toList =
      some (events.filterMap (Event.anchorId? settings)).eraseDups := by
  rw [anchors_html, (anchored_ofEvents doc settings events).anchors_eq]

end Page

end RichText.Html
