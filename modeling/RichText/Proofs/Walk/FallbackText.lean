import RichText.Proofs.Walk.Fences
set_option autoImplicit false

/-!
Texts apart from the body: headers, footers and the markers of lists as plain text. Where tokens
count, such groups are passed over; where they do not, all groups are walked alike, and a fence in
the group can let its texts count. Main statements: `reworded_of_quiet`, and `events_retexted`.
-/
namespace RichText

/-- Groups of this destination are no part of the body. -/
def Destination.isApart : Destination → Bool
  | .header | .footer | .listTextFallback | .numberingTextFallback => true
  | .fieldInstructions | .fieldResult | .picture | .bookmarkStart | .bookmarkEnd | .htmlTag
  | .other _ => false

namespace Token

mutual

/-- The tokens differ in the strings of texts only, however deep they nest. -/
inductive Retexted : Token → Token → Prop where
  | text (s s' : String) : Retexted (.text s) (.text s')
  | atom (a : Atom) : Retexted (.atom a) (.atom a)
  | group {contents contents' : List Token} (h : RetextedList contents contents') :
      Retexted (.group contents) (.group contents')

inductive RetextedList : List Token → List Token → Prop where
  | nil : RetextedList [] []
  | cons {t u : Token} {ts us : List Token} (hhead : Retexted t u) (htail : RetextedList ts us) :
      RetextedList (t :: ts) (u :: us)

end

mutual

/-- From the position on, no text in the token is reported, nor is any group read by its texts. -/
def quiet (p : Position) : Token → Bool
  | .atom (.text _) => !p.reports
  | .atom _ => true
  | .group contents =>
    p.inCell ||
      !(p.active && (Group.destination? contents).any Destination.isReadAsWhole) &&
        match p.action contents with
        | .scope _ => quietList p.inside contents
        | _ => true

def quietList (p : Position) : List Token → Bool
  | [] => true
  | t :: ts => t.quiet p && quietList (p.after t) ts

end

theorem RetextedList.rephrased {ts us : List Token} (h : RetextedList ts us) : Rephrased ts us := by
  induction ts generalizing us with
  | nil =>
    cases h
    exact .nil
  | cons t ts ih =>
    cases h with
    | cons hhead htail =>
      cases hhead with
      | text s s' => exact .text s (List.cons_ne_nil s' []) (ih htail)
      | atom a => exact .atom a (ih htail)
      | group h => exact .group _ _ (ih htail)

mutual

theorem Retexted.reworded_of_quiet {p : Position} :
    {t u : Token} → Retexted t u → t.quiet p = true → Reworded p [] t [u]
  | .atom _, _, .atom a, _ => .atom
  | .atom _, _, .text s s', hquiet => by
    have hreports : p.reports = false := by simpa [quiet] using hquiet
    have htext : Reworded p (if p.reports then [(s, [s'])] else []) (.text s) [.text s'] :=
      .text (List.cons_ne_nil s' [])
    rwa [hreports] at htext
  | .group _, _, @Retexted.group contents contents' h, hquiet => by
    have hrephrased := h.rephrased
    cases hcell : p.inCell with
    | true => exact .swallowed hcell (fun _ => hrephrased.endsRow_eq)
    | false =>
      obtain ⟨hwhole, hinside⟩ : ¬(p.active && (Group.destination? contents).any
            Destination.isReadAsWhole) = true ∧
          (match p.action contents with
            | .scope _ => quietList p.inside contents
            | _ => true) = true := by
        rw [quiet, hcell, Bool.false_or, Bool.and_eq_true, Bool.not_eq_true'] at hquiet
        exact ⟨by simp [hquiet.1], hquiet.2⟩
      obtain hkept | ⟨_, hscope, hentered⟩ := hrephrased.reworded p
        (fun hactive d hd hread => absurd (by simp [hactive, hd, hread]) hwhole)
      · exact hkept
      · rw [hscope] at hinside
        exact hentered [] (h.reworded_of_quiet hinside)

theorem RetextedList.reworded_of_quiet {p : Position} :
    {ts us : List Token} → RetextedList ts us → quietList p ts = true → RewordedList p [] ts us
  | [], _, .nil, _ => .nil
  | t :: ts, _, .cons hhead htail, hquiet => by
    rw [quietList, Bool.and_eq_true] at hquiet
    exact .cons (hhead.reworded_of_quiet hquiet.1) (htail.reworded_of_quiet hquiet.2)

end

end Token

theorem Action.ofGroup_of_isApart {contents : List Token} {d : Destination}
    (hd : Group.destination? contents = some d) (hapart : d.isApart = true) :
    ofGroup contents = .pass := by
  unfold ofGroup
  rw [hd]
  cases d <;> first | rfl | exact Bool.noConfusion hapart

theorem Token.quiet_of_isApart {contents : List Token} {d : Destination}
    (hd : Group.destination? contents = some d) (hapart : d.isApart = true) {q : Position}
    (h : q.active = false → quietList q.inside contents = true) :
    (Token.group contents).quiet q = true := by
  have hwhole : d.isReadAsWhole = false := by
    cases d <;> first | rfl | exact Bool.noConfusion hapart
  rw [quiet, hd, Option.any_some, hwhole, Bool.and_false, Bool.not_false, Bool.true_and,
    Bool.or_eq_true]
  right
  cases hactive : q.active with
  | true =>
    rw [Position.action, if_pos hactive, Action.ofGroup_of_isApart hd hapart]
  | false =>
    split
    · exact h hactive
    · rfl

namespace Document

/-- The texts in a group apart from the body are not observed, unless the walk comes to the group
while tokens do not count and some text in it is read all the same. -/
theorem events_retexted (doc : Document) (gap : Gap) {contents contents' : List Token}
    {d : Destination} (hd : Group.destination? contents = some d) (hapart : d.isApart = true)
    (htexts : Token.RetextedList contents contents')
    (hquiet : ∀ q, gap.sightInDocument (.group contents) = .read q → q.active = false →
      Token.quietList q.inside contents = true) :
    (doc.put gap (.group contents)).events.map Event.outline =
      (doc.put gap (.group contents')).events.map Event.outline := by
  have hdestination := htexts.rephrased.destination?_eq
  have hstands : Token.StandsIn (.group contents) (.group contents') := .group _ _
  have hbody := isBody_group hdestination
  refine (doc.events_put gap hstands hbody ?_ (fun _ => rfl) ?_).map_outline_eq rfl
  · intro q hq
    exact (Token.Retexted.group htexts).reworded_of_quiet
      (Token.quiet_of_isApart hd hapart (hquiet q hq))
  · intro _
    exact ⟨hdestination, by simp [hd]⟩

def gapInFence : Gap :=
  .inside [.text "a"] (.here [.atom (.htmlRtf true)] [.atom (.htmlRtf false), .text "b"]) []

theorem events_retexted_gapInFence :
    let contents (s s' : String) : List Token :=
      [.atom (.destination .listTextFallback), .text s, .group [.atom (.htmlRtf true), .text s']]
    (∀ q, gapInFence.sightInDocument (.group (contents "1." "i")) = .read q → q.active = false →
        Token.quietList q.inside (contents "1." "i") = true) ∧
      (put {} gapInFence (.group (contents "1." "i"))).events.map Event.outline =
        (put {} gapInFence (.group (contents "2." "ii"))).events.map Event.outline := by
  intro contents
  have hquiet : ∀ q, gapInFence.sightInDocument (.group (contents "1." "i")) = .read q →
      q.active = false → Token.quietList q.inside (contents "1." "i") = true := by
    intro q hq _
    have hsight : gapInFence.sightInDocument (.group (contents "1." "i")) = .read { active := false } := by
      decide
    obtain rfl := Sight.read.inj (hsight.symm.trans hq)
    decide
  have htexts : Token.RetextedList (contents "1." "i") (contents "2." "ii") :=
    .cons (.atom _) (.cons (.text _ _)
      (.cons (.group (.cons (.atom _) (.cons (.text _ _) .nil))) .nil))
  exact ⟨hquiet, events_retexted {} gapInFence rfl rfl htexts hquiet⟩

/-- What is observed of a group in a fenced group that ends the fence for itself. -/
def heard (d : Destination) (s : String) : List Event :=
  (put {} (.inside [.atom (.htmlRtf true)] (.here [] []) [])
    (.group [.atom (.destination d), .atom (.htmlRtf false), .text s])).events.map Event.outline

theorem heard_ne (d : Destination) {s s' : String} (hs : s ≠ s') : heard d s ≠ heard d s' := by
  let gap : Gap := .inside [.atom (.htmlRtf true)]
    (.inside [] (.here [.atom (.destination d), .atom (.htmlRtf false)] []) []) []
  have hsight : gap.sightInDocument (.text "") = .read {} := by cases d <;> rfl
  exact outline_fill_ne {} (by rw [hsight]; rfl) hs

theorem heard_cases :
    heard .header "x" ≠ heard .header "y" ∧ heard .footer "x" ≠ heard .footer "y" ∧
      heard .listTextFallback "x" ≠ heard .listTextFallback "y" ∧
      heard .numberingTextFallback "x" ≠ heard .numberingTextFallback "y" := by
  have hs : "x" ≠ "y" := by decide
  exact ⟨heard_ne _ hs, heard_ne _ hs, heard_ne _ hs, heard_ne _ hs⟩

end Document

end RichText
