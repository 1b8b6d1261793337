import RichText.Render
import RichText.Proofs.Walk.Order
set_option autoImplicit false

/-!
De-encapsulation. HTML that was carried in a document as markup groups, texts and breaks comes out
again as it went in, whatever stands between the fences for readers of the rest. Main statement:
`html_ofItems`.
-/
namespace RichText

namespace Html.Encapsulated

/-- Atoms that may stand between two fences. -/
structure Fenced where
  atoms : List Atom
  fenceless : ∀ a ∈ atoms, ∀ on, a ≠ .htmlRtf on

def Fenced.filter (fenced : Fenced) (p : Atom → Bool) : Fenced where
  atoms := fenced.atoms.filter p
  fenceless a ha := fenced.fenceless a (List.mem_filter.1 ha).1

inductive Item where
  | markup (s : String)
  | text (tabs : Nat) (s : String)
  | line
  | paragraph
  | fence (fenced : Fenced)

namespace Item

def tokens : Item → List Token
  | .markup s => [.group [.atom .ignoreUnrecognized, .atom (.destination .htmlTag), .text s]]
  | .text tabs s => List.replicate tabs (.atom (.breakMark .tab)) ++ [.text s]
  | .line => [.atom (.breakMark .line)]
  | .paragraph => [.atom (.breakMark .paragraph)]
  | .fence fenced =>
    .atom (.htmlRtf true) :: (fenced.atoms.map Token.atom ++ [.atom (.htmlRtf false)])

def html : Item → List Char
  | .markup s => s.toList
  | .text tabs s => List.replicate tabs '\t' ++ escapeText s.toList
  | .line | .paragraph => ['\n']
  | .fence _ => []

def markupStyle : Style := ⟨[.atom (.destination .htmlTag)]⟩

def events : Item → List Event
  | .markup s => [.text markupStyle s]
  | .text tabs s => (if tabs = 0 then [] else [.breaks {} .tab tabs]) ++ [.text {} s]
  | .line => [.breaks {} .line 1]
  | .paragraph => [.breaks {} .paragraph 1]
  | .fence _ => []

theorem flatMap_chars_events (settings : RenderSettings) (item : Item) :
    item.events.flatMap (chars settings) = item.html := by
  cases item with
  | markup s => simp [events, html, chars, markupStyle, Style.isHtmlTag]
  | text tabs s =>
    have htext : chars settings (.text {} s) = escapeText s.toList := rfl
    by_cases htabs : tabs = 0
    · simp [events, html, htabs, htext]
    · have htab : chars settings (.breaks {} .tab tabs) = List.replicate tabs '\t' := rfl
      simp [events, html, htabs, htext, htab]
  | line => rfl
  | paragraph => rfl
  | fence fenced => rfl

/-- The item without the tokens that are not part of a body. -/
def trimmed : Item → Item
  | .fence fenced => .fence (fenced.filter (fun a => Document.isBody (.atom a)))
  | item => item

theorem filter_isBody_tokens (item : Item) :
    item.tokens.filter Document.isBody = item.trimmed.tokens := by
  cases item with
  | text tabs s =>
    have htab : Document.isBody (.atom (.breakMark .tab)) = true := by decide
    simp [tokens, trimmed, List.filter_append, Document.isBody_text, htab]
  | fence fenced =>
    have hfence : ∀ on, Document.isBody (.atom (.htmlRtf on)) = true := by decide
    simp only [tokens, trimmed, Fenced.filter, List.filter_cons, hfence, if_true,
      List.filter_append, List.filter_nil, List.filter_map]
    rfl
  | _ => rfl

theorem isIgnorable_tokens (items : List Item) :
    Group.isIgnorable (items.flatMap tokens) = false := by
  cases items with
  | nil => rfl
  | cons item items =>
    cases item with
    | text tabs s => cases tabs <;> rfl
    | _ => rfl

theorem events_trimmed (item : Item) : item.trimmed.events = item.events := by
  cases item <;> rfl

end Item

end Html.Encapsulated

/-! The walk over the items -/

namespace Walk

open Html.Encapsulated

variable {doc : Document} {rest : List Token} {w : Walk}

theorem run_tabs (n : Nat) (hactive : w.active = true) :
    run doc none (List.replicate n (.atom (.breakMark .tab)) ++ rest) w =
      run doc none rest { w with tabs := w.tabs + n } := by
  induction n generalizing w with
  | zero => rfl
  | succ n ih =>
    have hreads : Action.Reads none w.active (.atom (.breakMark .tab))
        (List.replicate n (.atom (.breakMark .tab)) ++ rest) .tab
        (List.replicate n (.atom (.breakMark .tab)) ++ rest) := by
      rw [hactive]
      exact .tab
    rw [List.replicate_succ, List.cons_append, run_perform hreads (by simp) (by simp),
      ih (w := w.perform doc .tab) hactive]
    simp only [perform, Nat.add_assoc, Nat.add_comm 1]

theorem run_fenced (fenced : List Atom) (hfenced : ∀ a ∈ fenced, ∀ on, a ≠ .htmlRtf on)
    (hactive : w.active = false) :
    run doc none (fenced.map Token.atom ++ rest) w = run doc none rest w := by
  induction fenced with
  | nil => rfl
  | cons a atoms ih =>
    have hreads : Action.Reads none w.active (.atom a) (atoms.map Token.atom ++ rest) .pass
        (atoms.map Token.atom ++ rest) := by
      rw [hactive]
      exact .skipped (hfenced a List.mem_cons_self)
    rw [List.map_cons, List.cons_append, run_perform hreads (by simp) (by simp)]
    exact ih (fun b hb => hfenced b (List.mem_cons_of_mem a hb))

theorem run_markup (s : String) (hactive : w.active = true) (hstyle : w.style = {}) :
    run doc none ((Item.markup s).tokens ++ rest) w =
      run doc none rest (w.report (Item.markup s).events) := by
  let contents : List Token := [.atom .ignoreUnrecognized, .atom (.destination .htmlTag), .text s]
  have hgroup : Action.Reads none w.active (.group contents) rest (.scope contents) rest := by
    rw [hactive]
    exact .group contents
  have hignore : Action.Reads none w.enter.active (.atom .ignoreUnrecognized)
      [.atom (.destination .htmlTag), .text s] .pass [.atom (.destination .htmlTag), .text s] := by
    rw [enter, hactive]
    exact Action.reads_ofAtom (by simp) (by decide) (by simp) (by simp)
  have htag : Action.Reads none w.enter.active (.atom (.destination .htmlTag)) [.text s]
      (.record [.atom (.destination .htmlTag)]) [.text s] := by
    rw [enter, hactive]
    exact .format (by decide) (by decide) (by simp) (by simp)
  have htext : Action.Reads none w.enter.active (.text s) [] (.text s) [] := by
    rw [enter, hactive]
    exact .text s
  have hinner : run doc none contents w.enter =
      ((w.enter.perform doc (.record [.atom (.destination .htmlTag)])).perform doc (.text s)) := by
    rw [run_perform hignore (by simp) (by simp),
      run_perform (w := w.enter.perform doc .pass) htag (by simp) (by simp),
      run_perform (w := (w.enter.perform doc .pass).perform doc _) htext (by simp) (by simp), run]
    rfl
  rw [Item.tokens, List.singleton_append, run_scope hgroup, hinner]
  cases w
  subst hstyle
  rfl

theorem run_item (item : Item) (hactive : w.active = true) (htabs : w.tabs = 0)
    (hstyle : w.style = {}) :
    run doc none (item.tokens ++ rest) w = run doc none rest (w.report item.events) := by
  have hresolve : Style.resolveList doc {} = {} := rfl
  have hbreak : ∀ kind, kind ≠ .tab → kind ≠ .row →
      run doc none (.atom (.breakMark kind) :: rest) w =
        run doc none rest (w.report [.breaks {} kind 1]) := by
    intro kind htab hrow
    have hreads : Action.Reads none w.active (.atom (.breakMark kind)) rest (.breakMark kind)
        rest := by
      rw [hactive]
      exact .breakMark htab
    rw [run_perform hreads (by simp) (by simp)]
    simp [perform, reportBreak, resolve, hstyle, hresolve, emit, hrow, report, htabs]
  cases item with
  | markup s => exact run_markup s hactive hstyle
  | text n s =>
    let due := { w with tabs := w.tabs + n }
    have hreads : Action.Reads none due.active (.text s) rest (.text s) rest := by
      rw [show due.active = true from hactive]
      exact .text s
    have htext : due.perform doc (.text s) = w.report (Item.text n s).events := by
      by_cases hn : n = 0
      · simp [due, perform, resolve, hstyle, hresolve, flushTabs, htabs, hn, emit, report,
          Item.events]
      · simp [due, perform, resolve, hstyle, hresolve, flushTabs, htabs, hn, emit, report,
          Item.events]
    rw [Item.tokens, List.append_assoc, run_tabs n hactive, List.singleton_append,
      run_perform hreads (by simp) (by simp), htext]
  | line => exact hbreak .line (by decide) (by decide)
  | paragraph => exact hbreak .paragraph (by decide) (by decide)
  | fence fenced =>
    rw [Item.tokens, List.cons_append, List.append_assoc,
      run_perform (.fence true) (by simp) (by simp)]
    change run doc none _ (w.perform doc (.activate false)) = _
    rw [run_fenced (w := w.perform doc (.activate false)) fenced.atoms fenced.fenceless rfl,
      List.singleton_append, run_perform (.fence false) (by simp) (by simp)]
    cases w
    subst hactive
    simp [perform, Item.events]

theorem run_items (items : List Item) (hactive : w.active = true) (htabs : w.tabs = 0)
    (hstyle : w.style = {}) :
    run doc none (items.flatMap Item.tokens) w = w.report (items.flatMap Item.events) := by
  induction items generalizing w with
  | nil => simp [run]
  | cons item items ih =>
    rw [List.flatMap_cons, run_item item hactive htabs hstyle,
      ih (w := w.report item.events) hactive htabs hstyle, report_report, List.flatMap_cons]

end Walk

namespace Document

open Html.Encapsulated

def ofItems (doc : Document) (items : List Item) : Document :=
  { doc with contents := items.flatMap Item.tokens, hasHtml := true }

theorem body_ofItems (doc : Document) (items : List Item) :
    (doc.ofItems items).body = (items.map Item.trimmed).flatMap Item.tokens := by
  rw [body, ofItems, List.filter_flatMap, List.flatMap_map]
  simp only [Item.filter_isBody_tokens]

theorem walk_ofItems (doc : Document) (items : List Item) :
    (doc.ofItems items).walk.events.toList = items.flatMap Item.events := by
  have hevents : (items.map Item.trimmed).flatMap Item.events = items.flatMap Item.events := by
    rw [List.flatMap_map]
    simp only [Item.events_trimmed]
  rw [walk, body_ofItems, Item.isIgnorable_tokens, if_neg Bool.false_ne_true,
    Walk.run_items _ rfl rfl rfl, hevents]
  simp [Walk.report]

theorem flatMap_chars_defaults (doc : Document) (settings : RenderSettings) :
    (doc.contents.filterMap doc.default?).flatMap (chars settings) = [] := by
  rw [List.flatMap_eq_nil_iff]
  intro e he
  obtain ⟨font, rfl⟩ | ⟨width, rfl⟩ := mem_defaults he
  · rfl
  · rfl

/-- Markup comes out as it is, texts are escaped after their tabs, breaks are new lines, and
nothing comes of what is fenced. -/
theorem html_ofItems (doc : Document) (items : List Item) (settings : RenderSettings) :
    (doc.ofItems items).html settings = String.ofList (items.flatMap Item.html) := by
  have hitems : (items.flatMap Item.events).flatMap (chars settings) = items.flatMap Item.html := by
    rw [List.flatMap_assoc]
    simp only [Item.flatMap_chars_events]
  have hclose : chars settings .close = [] := rfl
  have hhtml : (doc.ofItems items).hasHtml = true := rfl
  rw [html, hhtml, if_pos rfl, Html.Encapsulated.write, events, List.flatMap_append, List.flatMap_append,
    flatMap_chars_defaults, walk_ofItems, hitems, List.flatMap_singleton, hclose,
    List.nil_append, List.append_nil]

end Document

end RichText
