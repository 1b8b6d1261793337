import RichText.Render
import RichText.Proofs.Html.Anchors
import RichText.Proofs.Walk.Induction
set_option autoImplicit false

/-!
Bookmarks among texts. The last bookmark group before a text is all that the text knows of, so the
start of a bookmark has an anchor only if some text follows it before the next bookmark group.
Main statement: `anchors_ofBookmarked`.
-/
namespace RichText

structure BookmarkGroup where
  start : Bool
  contents : List Token
  destination_eq :
    Group.destination? contents = some (if start then .bookmarkStart else .bookmarkEnd)

namespace BookmarkGroup

def bookmark (g : BookmarkGroup) : Bookmark := Field.bookmark g.contents g.start

def startId? (g : BookmarkGroup) : Option String := if g.start then g.bookmark.id else none

theorem ofGroup_contents (g : BookmarkGroup) :
    Action.ofGroup g.contents = .record [.bookmark g.bookmark] := by
  unfold Action.ofGroup
  rw [g.destination_eq]
  cases hstart : g.start <;> simp [bookmark, hstart]

theorem isBody_group (g : BookmarkGroup) : Document.isBody (.group g.contents) = true := by
  rw [Document.isBody, Group.isHeader, g.destination_eq]
  cases g.start <;> rfl

end BookmarkGroup

inductive BookmarkedPiece where
  | text (s : String)
  | group (g : BookmarkGroup)

namespace BookmarkedPiece

def token : BookmarkedPiece → Token
  | .text s => .text s
  | .group g => .group g.contents

def startId? : BookmarkedPiece → Option String
  | .text _ => none
  | .group g => g.startId?

def starts (pieces : List BookmarkedPiece) : List String := pieces.filterMap startId?

/-- Some text is to be seen before the next bookmark group. -/
def meetsText : List BookmarkedPiece → Bool
  | [] => false
  | .text s :: pieces => !s.isEmpty || meetsText pieces
  | .group _ :: _ => false

/-- The ids of the bookmarks that start where a text follows before the next bookmark group. -/
def met : List BookmarkedPiece → List String
  | [] => []
  | .text _ :: pieces => met pieces
  | .group g :: pieces => (if meetsText pieces then g.startId?.toList else []) ++ met pieces

def marked (last : Option Bookmark) : Style := ⟨last.toList.map .bookmark⟩

def reported : Option Bookmark → List BookmarkedPiece → List Event
  | _, [] => []
  | last, .text s :: pieces => .text (marked last) s :: reported last pieces
  | _, .group g :: pieces => reported (some g.bookmark) pieces

theorem add_bookmark (last : Option Bookmark) (mark : Bookmark) :
    (marked last).add (.bookmark mark) = marked (some mark) := by
  cases last <;> rfl

theorem resolveList_marked (doc : Document) (last : Option Bookmark) :
    (marked last).resolveList doc = marked last := by
  refine Style.resolveList_of_find?_eq_none ?_
  cases last <;> rfl

end BookmarkedPiece

/-! The walk over the pieces -/

namespace Walk

open BookmarkedPiece

variable {doc : Document} {w : Walk} {last : Option Bookmark}

theorem run_pieces (pieces : List BookmarkedPiece) (hactive : w.active = true) (htabs : w.tabs = 0)
    (hstyle : w.style = marked last) :
    (run doc none (pieces.map token) w).events.toList = w.events.toList ++ reported last pieces := by
  induction pieces generalizing w last with
  | nil => simp [run, reported]
  | cons piece pieces ih =>
    rw [List.map_cons]
    cases piece with
    | text s =>
      have hreads : Action.Reads none w.active (.text s) (pieces.map token) (.text s)
          (pieces.map token) := by
        rw [hactive]
        exact .text s
      have hresolved : w.style.resolveList doc = w.style := by rw [hstyle, resolveList_marked]
      rw [token, run_perform hreads (by simp) (by simp), perform_text_of_resolved htabs hresolved,
        ih (w := w.report [.text w.style s]) hactive htabs hstyle, hstyle]
      simp [report, reported]
    | group g =>
      have hreads : Action.Reads none w.active (.group g.contents) (pieces.map token)
          (.record [.bookmark g.bookmark]) (pieces.map token) := by
        rw [hactive, ← g.ofGroup_contents]
        exact .group g.contents
      have hnext : w.style.addAll [.bookmark g.bookmark] = marked (some g.bookmark) := by
        rw [hstyle]
        exact add_bookmark last g.bookmark
      rw [token, run_perform hreads (by simp) (by simp)]
      exact ih (w := w.perform doc (.record [.bookmark g.bookmark])) hactive htabs hnext

end Walk

/-! The anchors of the pieces -/

namespace BookmarkedPiece

def lastId? (last : Option Bookmark) : Option String :=
  last.bind fun mark => if mark.start then mark.id else none

theorem bookmark?_marked (last : Option Bookmark) : (marked last).bookmark? = last := by
  cases last <;> rfl

theorem isHidden_marked (last : Option Bookmark) : (marked last).isHidden = false := by
  cases last <;> rfl

theorem anchorId?_text (settings : RenderSettings) (last : Option Bookmark) (s : String) :
    Event.anchorId? { settings with emitBookmarks := true } (.text (marked last) s) =
      if s.isEmpty then none else lastId? last := by
  rw [Event.anchorId?, isHidden_marked, Bool.or_false, Style.anchorId?, bookmark?_marked]
  congr 1
  rcases last with _ | ⟨_ | _, id⟩ <;> rfl

/-- Of several texts after one start, only the first brings about an anchor. -/
theorem eraseDups_anchorIds (settings : RenderSettings) (last : Option Bookmark)
    (pieces : List BookmarkedPiece) :
    ((reported last pieces).filterMap
        (Event.anchorId? { settings with emitBookmarks := true })).eraseDups =
      ((if meetsText pieces then (lastId? last).toList else []) ++ met pieces).eraseDups := by
  induction pieces generalizing last with
  | nil => rfl
  | cons piece pieces ih =>
    cases piece with
    | group g => exact ih (some g.bookmark)
    | text s =>
      -- only the first text after a start matters, and the induction hypothesis has it once more
      rw [reported, List.filterMap_cons, anchorId?_text, meetsText, met]
      cases hs : s.isEmpty with
      | true => simpa using ih last
      | false =>
        simp only [Bool.false_eq_true, if_false, Bool.not_false, Bool.true_or, if_true]
        cases hid : lastId? last with
        | none => simpa [hid] using ih last
        | some id =>
          have htail := ih last
          rw [hid] at htail
          calc (id :: _).eraseDups
              = ([id] ++ ((if meetsText pieces then [id] else []) ++ met pieces)).eraseDups := by
                rw [← Html.eraseDups_append_eraseDups, ← Option.toList_some, ← htail,
                  Html.eraseDups_append_eraseDups]
                rfl
            _ = ([id] ++ met pieces).eraseDups := by
                cases meetsText pieces <;> simp [List.eraseDups_cons]

end BookmarkedPiece

namespace Document

open BookmarkedPiece

def ofBookmarked (doc : Document) (pieces : List BookmarkedPiece) : Document :=
  { doc with contents := pieces.map token, hasHtml := false }

theorem body_ofBookmarked (doc : Document) (pieces : List BookmarkedPiece) :
    (doc.ofBookmarked pieces).body = pieces.map token := by
  refine List.filter_eq_self.2 (fun t ht => ?_)
  obtain ⟨piece, -, rfl⟩ := List.mem_map.1 ht
  cases piece with
  | text s => exact isBody_text s
  | group g => exact g.isBody_group

theorem events_ofBookmarked (doc : Document) (pieces : List BookmarkedPiece) :
    (doc.ofBookmarked pieces).events = reported none pieces ++ [.close] := by
  have hdefaults : (pieces.map token).filterMap (doc.ofBookmarked pieces).default? = [] := by
    rw [List.filterMap_eq_nil_iff]
    intro t ht
    obtain ⟨piece, -, rfl⟩ := List.mem_map.1 ht
    cases piece <;> rfl
  have hdropped : Group.isIgnorable (pieces.map token) = false := by
    cases pieces with
    | nil => rfl
    | cons piece pieces => cases piece <;> rfl
  have hstyle : ({} : Walk).style = marked none := rfl
  rw [events, walk, body_ofBookmarked, hdropped, if_neg Bool.false_ne_true,
    Walk.run_pieces pieces rfl rfl hstyle]
  change (pieces.map token).filterMap _ ++ _ ++ _ = _
  rw [hdefaults]
  rfl

theorem anchors_html_ofBookmarked (doc : Document) (pieces : List BookmarkedPiece)
    (settings : RenderSettings) :
    Html.anchors ((doc.ofBookmarked pieces).html
        { settings with emitBookmarks := true }).toList = some (met pieces).eraseDups := by
  have hhtml : (doc.ofBookmarked pieces).hasHtml = false := rfl
  rw [html, hhtml, if_neg Bool.false_ne_true, Html.Page.anchors_ofEvents, events_ofBookmarked,
    List.filterMap_append]
  have hclose : [Event.close].filterMap
      (Event.anchorId? { settings with emitBookmarks := true }) = [] := rfl
  have hbefore : (if meetsText pieces then (lastId? none).toList else []) = [] := by
    split <;> rfl
  rw [hclose, List.append_nil, eraseDups_anchorIds, hbefore, List.nil_append]

/-- The anchors are those of the bookmarks after whose start a text comes before the next bookmark
group. No other start has one unless its id is among these, and then in its place. -/
theorem anchors_ofBookmarked (doc : Document) (pieces : List BookmarkedPiece)
    (settings : RenderSettings) :
    let page := ((doc.ofBookmarked pieces).html { settings with emitBookmarks := true }).toList
    Html.anchors page = some (met pieces).eraseDups ∧
      (Html.anchors page = some (starts pieces).eraseDups ↔
        (met pieces).eraseDups = (starts pieces).eraseDups) := by
  intro page
  have hpage : Html.anchors page = some (met pieces).eraseDups :=
    anchors_html_ofBookmarked doc pieces settings
  refine ⟨hpage, ?_⟩
  rw [hpage, Option.some.injEq]

def pointBookmark : List BookmarkedPiece :=
  [.group ⟨true, [.atom .ignoreUnrecognized, .atom (.destination .bookmarkStart), .text "A"], rfl⟩,
    .group ⟨false, [.atom .ignoreUnrecognized, .atom (.destination .bookmarkEnd), .text "A"], rfl⟩,
    .text "x"]

theorem anchors_html_pointBookmark :
    Html.anchors ((({} : Document).ofBookmarked pointBookmark).html {}).toList = some [] ∧
      starts pointBookmark = ["A"] :=
  ⟨anchors_html_ofBookmarked {} pointBookmark {}, by decide⟩

end Document

end RichText
