import RichText.Proofs.Walk.Replacement
import RichText.Proofs.Walk.Stations
set_option autoImplicit false

/-!
Groups that are dropped. A group that opens with an unknown word is dropped when its tokens would be
walked. What is looked at before that shows: whether a row ends with the group, the numbering that
it describes, and its first text where a field takes that for its instruction. Main statement:
`events_dropped`.
-/
namespace RichText

namespace Group

def dropped (w : ControlWord) (rest : List Token) : List Token :=
  .atom .ignoreUnrecognized :: .atom (.unrecognized w) :: rest

def numbering? (contents : List Token) : Option (List Token) :=
  if describesNumbering contents then some (paragraphFormats contents) else none

theorem numbering?_dropped (w : ControlWord) (rest : List Token) :
    numbering? (dropped w rest) = numbering? rest := by
  have hformats : paragraphFormats (dropped w rest) = paragraphFormats rest := by
    have hword : ∀ a ∈ [Atom.ignoreUnrecognized, .unrecognized w],
        (Token.atom a).category ≠ .paragraphFormat := by
      intro a ha
      obtain rfl | rfl : a = .ignoreUnrecognized ∨ a = .unrecognized w := by simpa using ha
      · decide
      · exact (by decide : Category.none ≠ .paragraphFormat)
    simp [paragraphFormats, dropped, hword]
  rw [numbering?, hformats]
  rfl

end Group

theorem Action.ofGroup_dropped (w : ControlWord) (rest : List Token) :
    ofGroup (Group.dropped w rest) =
      match Group.numbering? rest with
      | some formats => .record (formats.map .token)
      | none => .pass := by
  have hplain : ofGroup (Group.dropped w rest) = ofPlainGroup (Group.dropped w rest) := rfl
  rw [hplain, ← Group.numbering?_dropped w rest, ofPlainGroup, Group.numbering?]
  split <;> rfl

/-- If a dropped group is looked at like this, the tokens behind its unknown word do not differ in
what is looked at. -/
def Sight.Agree (rest rest' : List Token) : Sight → Prop
  | .read q =>
    (q.place = .row → (Token.group rest).endsRow = (Token.group rest').endsRow) ∧
      (q.reports = true → Group.numbering? rest = Group.numbering? rest')
  | .part => (Group.texts rest).head? = (Group.texts rest').head?
  | .unseen => True

instance (rest rest' : List Token) (s : Sight) : Decidable (s.Agree rest rest') :=
  match s with
  | .read q => inferInstanceAs (Decidable ((q.place = .row →
      (Token.group rest).endsRow = (Token.group rest').endsRow) ∧
      (q.reports = true → Group.numbering? rest = Group.numbering? rest')))
  | .part => inferInstanceAs (Decidable ((Group.texts rest).head? =
      (Group.texts rest').head?))
  | .unseen => inferInstanceAs (Decidable True)

theorem Token.reworded_dropped {q : Position} {rest rest' : List Token}
    (h : (Sight.read q).Agree rest rest') (w : ControlWord) :
    Reworded q [] (.group (Group.dropped w rest)) [.group (Group.dropped w rest')] := by
  obtain ⟨hrow, hnumbering⟩ := h
  cases hcell : q.inCell with
  | true => exact .swallowed hcell hrow
  | false =>
    refine .kept hcell hrow ?_ ?_
    · unfold Position.action
      split
      · rename_i hactive
        have hsame := hnumbering (by simp [Position.reports, hactive, hcell])
        rw [Action.ofGroup_dropped, Action.ofGroup_dropped, hsame]
      · rfl
    · intro scope
      unfold Position.action
      split
      · rw [Action.ofGroup_dropped]
        split <;> simp
      · exact Action.noConfusion

namespace Document

/-- What stands in a dropped group is not observed, but for what is looked at before it is
dropped. -/
theorem events_dropped (doc : Document) (gap : Gap) (w : ControlWord) (rest rest' : List Token)
    (h : (gap.sightInDocument (.group (Group.dropped w rest))).Agree rest rest') :
    (doc.put gap (.group (Group.dropped w rest))).events.map Event.outline =
      (doc.put gap (.group (Group.dropped w rest'))).events.map Event.outline := by
  have hstands : Token.StandsIn (.group (Group.dropped w rest)) (.group (Group.dropped w rest')) :=
    .group _ _
  have hbody : isBody (.group (Group.dropped w rest)) = isBody (.group (Group.dropped w rest')) :=
    rfl
  refine (doc.events_put gap hstands hbody ?_ (fun _ => rfl) ?_).map_outline_eq rfl
  · intro q hq
    rw [hq] at h
    exact Token.reworded_dropped h w
  · intro hq
    rw [hq] at h
    exact ⟨rfl, fun _ => h⟩

def unknownWord : ControlWord where
  name := "foo"

def gapInRow : Gap :=
  .inside [] (.here [.atom .rowDefaults, .atom (.bold true)]
    [.text "a", .atom (.breakMark .row)]) [.text "b"]

theorem events_dropped_gapInRow :
    let rest : List Token := [.text "x", .group [.text "y"]]
    let rest' : List Token := [.group [.atom (.breakMark .row), .atom .paragraphNumbering]]
    gapInRow.sightInDocument (.group (Group.dropped unknownWord rest)) = .read { place := .row } ∧
      (gapInRow.sightInDocument (.group (Group.dropped unknownWord rest))).Agree rest rest' ∧
      (put {} gapInRow (.group (Group.dropped unknownWord rest))).events.map Event.outline =
        (put {} gapInRow (.group (Group.dropped unknownWord rest'))).events.map Event.outline := by
  intro rest rest'
  have hsight : gapInRow.sightInDocument (.group (Group.dropped unknownWord rest)) =
      .read { place := .row } := by decide
  have hagree : (gapInRow.sightInDocument (.group (Group.dropped unknownWord rest))).Agree rest rest' := by
    decide
  exact ⟨hsight, hagree, events_dropped {} gapInRow unknownWord rest rest' hagree⟩

/-- What is observed of a dropped group in the gap. -/
def observed (gap : Gap) (rest : List Token) : List Event :=
  (put {} gap (.group (Group.dropped unknownWord rest))).events.map Event.outline

def gapInField : Gap :=
  .inside [] (.here [.atom (.destination .fieldInstructions)] []) [.text "a"]

/-- All that is looked at in a dropped group can show: the end of a row, the numbering, and the
text, which can make a field a link. -/
theorem observed_cases :
    observed gapInRow [.atom (.breakMark .row)] ≠ observed gapInRow [] ∧
      observed (.here [] [.text "a"]) [.atom .paragraphNumbering, .atom (.leftIndent 720)] ≠
        observed (.here [] [.text "a"]) [] ∧
      observed gapInField [.text "HYPERLINK 0"] ≠ observed gapInField [] := by
  refine ⟨?_, ?_, ?_⟩
  all_goals
    exact map_events_ne Event.outline 9 (by decide +kernel) (by decide +kernel) (by decide +kernel)

end Document

end RichText
