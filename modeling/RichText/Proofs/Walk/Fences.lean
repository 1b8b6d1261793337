import RichText.Proofs.Walk.Replacement
import RichText.Proofs.Walk.Stations
set_option autoImplicit false

/-!
Fences: whether a text that is fenced off reaches the events. The walk of a scope keeps to its own
fences, but rows are cut out of the scope before that and start anew, the description of a cell
takes in the end of a fence, and fields, bookmarks and pictures are read as a whole. Main
statement: `events_fill_iff`.
-/
namespace RichText

def Token.fence? : Token → Option Bool
  | .atom (.htmlRtf on) => some on
  | _ => none

theorem Token.fence?_eq_none {t : Token} (h : ∀ on, t ≠ .atom (.htmlRtf on)) : t.fence? = none := by
  unfold fence?
  split
  · exact absurd rfl (h _)
  · rfl

def Token.endsFenced (ts : List Token) : Bool := (ts.filterMap fence?).getLast? = some true

/-- The walk comes to the token where a text is reported. -/
def Sight.reports : Sight → Bool
  | .read q => q.reports
  | .part | .unseen => false

namespace Gap

def before : Gap → List Token
  | .here before _ => before
  | .inside _ gap _ => gap.before

def isFenced (gap : Gap) : Bool := Token.endsFenced gap.before

theorem afterAll_of_plain {p : Position} (hplace : p.place = .outside ∨ p.place = .owned)
    (hcell : p.inCell = false) {ts : List Token}
    (hplain : ∀ t ∈ ts, t ≠ .atom .rowDefaults ∧ t.category ≠ .cellFormat) :
    p.afterAll ts =
      { p with active := ((ts.filterMap Token.fence?).getLast?.map not).getD p.active } := by
  induction ts generalizing p with
  | nil => rfl
  | cons t ts ih =>
    have hrest : ∀ u ∈ ts, u ≠ .atom .rowDefaults ∧ u.category ≠ .cellFormat :=
      fun u hu => hplain u (List.mem_cons_of_mem t hu)
    obtain ⟨hrow, hcategory⟩ := hplain t List.mem_cons_self
    change (p.after t).afterAll ts = _
    by_cases hfence : ∃ on, t = .atom (.htmlRtf on)
    · obtain ⟨on, rfl⟩ := hfence
      have hfences : Token.fence? (.atom (.htmlRtf on)) = some on := rfl
      rw [Position.after_fence hplace hcell, ih (p := { p with active := !on }) hplace hcell hrest,
        List.filterMap_cons_some hfences, List.getLast?_cons]
      cases (ts.filterMap Token.fence?).getLast? <;> rfl
    · have hnofence : ∀ on, t ≠ .atom (.htmlRtf on) := fun on h => hfence ⟨on, h⟩
      have hnone := Token.fence?_eq_none hnofence
      rw [Position.after_of_neutral hplace hnofence hcategory (fun h => absurd h hrow),
        ih hplace hcell hrest, List.filterMap_cons_none hnone]

theorem reports_sight {gap : Gap} {t : Token} {p : Position}
    (hplace : p.place = .outside ∨ p.place = .owned) (hcell : p.inCell = false)
    (hfenced : gap.isFenced = true)
    (hplain : ∀ u ∈ gap.before, u ≠ .atom .rowDefaults ∧ u.category ≠ .cellFormat) :
    (gap.sight t p).reports = false := by
  induction gap generalizing p with
  | here before after =>
    rw [Gap.before] at hplain
    have hlast : (before.filterMap Token.fence?).getLast? = some true := by
      simpa [isFenced, Token.endsFenced, Gap.before] using hfenced
    rw [sight, afterAll_of_plain hplace hcell hplain, hlast]
    simp [Sight.reports, Position.reports]
  | inside before gap after ih =>
    rw [sight]
    generalize p.afterAll before = q
    have hinside : (gap.sight t q.inside).reports = false :=
      ih (by unfold Position.inside; dsimp only; split <;> simp) rfl hfenced hplain
    split
    · rfl
    · split
      · rfl
      · split
        · exact hinside
        · rfl

theorem isFenced_body {gap body : Gap} {t : Token} (h : gap.body? t = some body)
    (hfenced : gap.isFenced = true) : body.isFenced = true := by
  cases gap with
  | here before after =>
    obtain ⟨-, hbody⟩ := Option.ite_none_right_eq_some.1 h
    obtain rfl := Option.some.inj hbody
    have hfences : (before.filter Document.isBody).filterMap Token.fence? =
        before.filterMap Token.fence? := by
      rw [List.filterMap_filter]
      refine List.filterMap_congr ?_
      intro t _
      by_cases hfence : ∃ on, t = .atom (.htmlRtf on)
      · obtain ⟨on, rfl⟩ := hfence
        have hbody : ∀ on, Document.isBody (.atom (.htmlRtf on)) = true := by decide
        rw [if_pos (hbody on)]
      · have hnone := Token.fence?_eq_none (fun on h => hfence ⟨on, h⟩)
        rw [hnone, ite_self]
    rw [isFenced, Gap.before, Token.endsFenced, hfences]
    exact hfenced
  | inside before gap after =>
    obtain ⟨-, hbody⟩ := Option.ite_none_right_eq_some.1 h
    obtain rfl := Option.some.inj hbody
    exact hfenced

theorem mem_before_body {gap body : Gap} {t : Token} (h : gap.body? t = some body) {u : Token}
    (hu : u ∈ body.before) : u ∈ gap.before := by
  cases gap with
  | here before after =>
    obtain ⟨-, hbody⟩ := Option.ite_none_right_eq_some.1 h
    obtain rfl := Option.some.inj hbody
    exact (List.mem_filter.1 hu).1
  | inside before gap after =>
    obtain ⟨-, hbody⟩ := Option.ite_none_right_eq_some.1 h
    obtain rfl := Option.some.inj hbody
    exact hu

theorem reports_sightInDocument {gap : Gap} {t : Token} (hfenced : gap.isFenced = true)
    (hplain : ∀ u ∈ gap.before, u ≠ .atom .rowDefaults ∧ u.category ≠ .cellFormat) :
    (gap.sightInDocument t).reports = false := by
  unfold sightInDocument
  split
  · rename_i body hbody
    split
    · rfl
    · exact reports_sight (.inl rfl) rfl (isFenced_body hbody hfenced)
        (fun u hu => hplain u (mem_before_body hbody hu))
  · rfl

end Gap

namespace Document

def fill (doc : Document) (gap : Gap) (s : String) : Document := doc.put gap (.text s)

/-- Of two documents that differ in one text, the events differ in it alone if it is reported, and
not at all if it is not. -/
theorem events_fill (doc : Document) (gap : Gap) (hpart : gap.sightInDocument (.text "") ≠ .part)
    (s s' : String) :
    Event.Reworded (if (gap.sightInDocument (.text "")).reports then [(s, [s'])] else [])
      (doc.fill gap s).events (doc.fill gap s').events := by
  have hsight : gap.sightInDocument (.text s) = gap.sightInDocument (.text "") :=
    gap.sightInDocument_eq (.text s "") ((isBody_text s).trans (isBody_text "").symm)
  rw [← hsight] at hpart ⊢
  refine doc.events_put gap (.text s s') ((isBody_text s).trans (isBody_text s').symm) ?_ ?_ ?_
  · intro q hq
    rw [hq]
    exact .text (List.cons_ne_nil s' [])
  · intro hunread
    cases hs : gap.sightInDocument (.text s) with
    | read q => exact absurd hs (hunread q)
    | part | unseen => rfl
  · intro h
    exact absurd h hpart

theorem outline_fill_ne (doc : Document) {gap : Gap}
    (hreported : (gap.sightInDocument (.text "")).reports = true) {s s' : String} (hs : s ≠ s') :
    (doc.fill gap s).events.map Event.outline ≠ (doc.fill gap s').events.map Event.outline := by
  have hpart : gap.sightInDocument (.text "") ≠ .part := by
    intro h
    rw [h] at hreported
    exact Bool.noConfusion hreported
  intro hsame
  exact hs (((doc.events_fill gap hpart s s').map_outline_eq_iff (if_pos hreported)).1 hsame)

/-- Unless a field, a bookmark or a picture is read by the text, the events are the same whatever it
says exactly if it is not reported. A text that is fenced off is not reported if neither row defaults
nor cells stand before it in its list. -/
theorem events_fill_iff (doc : Document) (gap : Gap)
    (hpart : gap.sightInDocument (.text "") ≠ .part) :
    ((∀ s s', (doc.fill gap s).events.map Event.outline =
        (doc.fill gap s').events.map Event.outline) ↔
          (gap.sightInDocument (.text "")).reports = false) ∧
      (gap.isFenced = true →
        (∀ t ∈ gap.before, t ≠ .atom .rowDefaults ∧ t.category ≠ .cellFormat) →
        ∀ s s', (doc.fill gap s).events.map Event.outline =
          (doc.fill gap s').events.map Event.outline) := by
  have hunseen : (gap.sightInDocument (.text "")).reports = false → ∀ s s',
      (doc.fill gap s).events.map Event.outline =
        (doc.fill gap s').events.map Event.outline := by
    intro hsight s s'
    exact (doc.events_fill gap hpart s s').map_outline_eq (if_neg (by simp [hsight]))
  refine ⟨⟨?_, hunseen⟩, ?_⟩
  · intro hsame
    rw [← Bool.not_eq_true]
    intro hreported
    exact doc.outline_fill_ne hreported (by decide : "" ≠ "a") (hsame "" "a")
  · intro hfenced hplain
    exact hunseen (Gap.reports_sightInDocument hfenced hplain)

def fencedInGroup : Gap :=
  .inside [.text "a"] (.here [.atom (.htmlRtf true), .atom (.bold true)]
    [.atom (.htmlRtf false), .text "b"]) [.text "c"]

theorem events_fill_fencedInGroup :
    fencedInGroup.sightInDocument (.text "") ≠ .part ∧ fencedInGroup.isFenced = true ∧
      (fill {} fencedInGroup "x").events.map Event.outline =
        (fill {} fencedInGroup "y").events.map Event.outline := by
  have hpart : fencedInGroup.sightInDocument (.text "") ≠ .part := by decide
  have hfenced : fencedInGroup.isFenced = true := by decide
  exact ⟨hpart, hfenced, (events_fill_iff {} fencedInGroup hpart).2 hfenced (by decide) "x" "y"⟩

/-! Fences that do not hold -/

def fencedBeforeRowEnd : Gap :=
  .here [.atom .rowDefaults, .atom (.htmlRtf true), .atom (.breakMark .row)] []

def fencedBeforeCellEnd : Gap :=
  .here [.atom (.cellBackground 0), .atom (.htmlRtf true), .atom (.rightCellBoundary 0)] []

def fencedIn (d : Destination) : Gap :=
  .inside [] (.here [.atom (.destination d), .atom (.htmlRtf true)] []) [.text "a"]

/-- The text of the gap is fenced off, but the events tell two strings apart. -/
def PassesFence (gap : Gap) : Prop :=
  gap.isFenced = true ∧ (fill {} gap "HYPERLINK 0").events.map Event.outline ≠
    (fill {} gap "HYPERLINK 1").events.map Event.outline

theorem passesFence_of_reported {gap : Gap} (hfenced : gap.isFenced = true)
    (hreported : (gap.sightInDocument (.text "")).reports = true) : PassesFence gap :=
  ⟨hfenced, outline_fill_ne {} hreported (by decide)⟩

/-- The tables cut out of a list, the descriptions of cells and all that is read as a whole take
texts past a fence. -/
theorem passesFence_cases :
    PassesFence fencedBeforeRowEnd ∧ PassesFence fencedBeforeCellEnd ∧
      PassesFence (fencedIn .picture) ∧ PassesFence (fencedIn .bookmarkStart) ∧
      PassesFence (fencedIn .bookmarkEnd) ∧ PassesFence (fencedIn .fieldInstructions) := by
  have hrow : PassesFence fencedBeforeRowEnd := passesFence_of_reported (by decide) (by decide)
  have hcell : PassesFence fencedBeforeCellEnd := passesFence_of_reported (by decide) (by decide)
  refine ⟨hrow, hcell, ⟨by decide, ?_⟩, ⟨by decide, ?_⟩, ⟨by decide, ?_⟩, ⟨by decide, ?_⟩⟩
  all_goals
    exact map_events_ne Event.outline 9 (by decide +kernel) (by decide +kernel) (by decide +kernel)

end Document

end RichText
