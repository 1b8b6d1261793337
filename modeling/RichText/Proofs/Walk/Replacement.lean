import RichText.Proofs.Walk.Simulation
import RichText.Proofs.Walk.Rephrasing
set_option autoImplicit false

/-!
Texts and groups that are replaced by others. Where the walk comes to a token is up to the tokens
around it, but fields, bookmarks and pictures are read as a whole. Main statement: `events_put`.
-/
namespace RichText

/-- A token list with a place left for one token more, in the list itself or in a group in it. -/
inductive Gap where
  | here (before after : List Token)
  | inside (before : List Token) (gap : Gap) (after : List Token)

/-- How a token in a gap is looked at in a walk. -/
inductive Sight where
  /-- The walk comes to the token. -/
  | read (q : Position)
  /-- A field, a bookmark or a picture is read by it. -/
  | part
  | unseen
deriving DecidableEq

def Field.nestedTexts (contents : List Token) : List String :=
  ((Group.groups contents).filter (fun g => (Group.destination? g).isNone)).filterMap
    (fun g => (Group.texts g).head?)

namespace Token

/-- Both are texts, or both are groups. -/
inductive StandsIn : Token → Token → Prop where
  | text (s s' : String) : StandsIn (.text s) (.text s')
  | group (contents contents' : List Token) : StandsIn (.group contents) (.group contents')

/-- What is read by either token is the same. -/
def Alike : Token → Token → Prop
  | .group contents, .group contents' =>
    Group.destination? contents = Group.destination? contents' ∧
      ((Group.destination? contents).isNone = true →
        (Group.texts contents).head? = (Group.texts contents').head?)
  | t, u => t = u

theorem StandsIn.rephrased {t u : Token} (h : StandsIn t u) (after : List Token) :
    Rephrased (t :: after) (u :: after) := by
  cases h with
  | text s s' => exact .text s (List.cons_ne_nil s' []) (.refl after)
  | group contents contents' => exact .group contents contents' (.refl after)

end Token

def Position.afterAll (p : Position) (ts : List Token) : Position := ts.foldl after p

namespace Gap

def put (t : Token) : Gap → List Token
  | .here before after => before ++ t :: after
  | .inside before gap after => before ++ .group (gap.put t) :: after

/-- A group of this destination whose contents are the list is read by the token in the gap. -/
def isRead (t : Token) (d : Destination) : Gap → Bool
  | .here before after =>
    match t with
    | .group _ => d = .fieldInstructions && (Field.nestedTexts after).isEmpty
    | .atom _ =>
      match d with
      | .picture => true
      | .bookmarkStart | .bookmarkEnd => (Group.texts before).isEmpty
      | .fieldInstructions => before.length = 2 && after.isEmpty
      | _ => false
  -- the instruction of a field may stand in a group of its own
  | .inside _ (.here before inner) after =>
    match t with
    | .group _ => false
    | .atom _ =>
      d = .fieldInstructions && (Group.texts before).isEmpty &&
        (Group.destination? (before ++ t :: inner)).isNone && (Field.nestedTexts after).isEmpty
  | .inside _ (.inside _ _ _) _ => false

/-- How the token in the gap is looked at if the list is read from this position on. -/
def sight (t : Token) (p : Position) : Gap → Sight
  | .here before _ => .read (p.afterAll before)
  | .inside before gap _ =>
    let q := p.afterAll before
    if q.inCell then .unseen
    else if q.active && (Group.destination? (gap.put t)).any (gap.isRead t) then .part
    else
      match q.action (gap.put t) with
      | .scope _ => gap.sight t q.inside
      | _ => .unseen

/-- The list as far as it belongs to the body of a document, if the token in the gap does. -/
def body? (t : Token) : Gap → Option Gap
  | .here before after =>
    if Document.isBody t then
      some (.here (before.filter Document.isBody) (after.filter Document.isBody))
    else none
  | .inside before gap after =>
    if Document.isBody (.group (gap.put t)) then
      some (.inside (before.filter Document.isBody) gap (after.filter Document.isBody))
    else none

/-- How the token in the gap is looked at if the list is all of a document. -/
def sightInDocument (gap : Gap) (t : Token) : Sight :=
  match gap.body? t with
  | some body => if Group.isIgnorable (body.put t) then .unseen else body.sight t {}
  | none => .unseen

theorem rephrased_put (gap : Gap) {t u : Token} (h : Token.StandsIn t u) :
    Token.Rephrased (gap.put t) (gap.put u) := by
  cases gap with
  | here before after => exact (h.rephrased after).append_left before
  | inside before gap after => exact (Token.Rephrased.group _ _ (.refl after)).append_left before

end Gap

theorem Document.isBody_group {contents contents' : List Token}
    (h : Group.destination? contents = Group.destination? contents') :
    isBody (.group contents) = isBody (.group contents') := by
  rw [isBody, isBody, Group.isHeader, Group.isHeader, h]

/-! Groups that are read as a whole -/

theorem Picture.ofGroup_group (before contents after : List Token) :
    Picture.ofGroup (before ++ .group contents :: after) = Picture.ofGroup (before ++ after) := by
  simp [Picture.ofGroup, Picture.payload, Picture.describe, Picture.binary, Picture.spelling]

theorem Group.texts_group (before contents after : List Token) :
    Group.texts (before ++ .group contents :: after) = Group.texts (before ++ after) := by
  simp [Group.texts, List.filterMap_cons, Token.text?]

theorem Group.head?_texts {before : List Token} (h : (Group.texts before).isEmpty = false)
    (ts us : List Token) :
    (Group.texts (before ++ ts)).head? = (Group.texts (before ++ us)).head? := by
  rw [Group.texts] at h
  cases hbefore : before.filterMap Token.text? with
  | nil => simp [hbefore] at h
  | cons s ss => simp [Group.texts, hbefore]

theorem Action.ofGroup_group {before contents contents' after : List Token} {d : Destination}
    (hd : Group.destination? (before ++ .group contents :: after) = some d)
    (hwhole : d.isReadAsWhole = true)
    (hfield : d = .fieldInstructions →
      Field.instruction? (before ++ .group contents :: after) =
        Field.instruction? (before ++ .group contents' :: after)) :
    ofGroup (before ++ .group contents :: after) = ofGroup (before ++ .group contents' :: after) := by
  have hrephrased : Token.Rephrased (before ++ .group contents :: after)
      (before ++ .group contents' :: after) :=
    (Token.Rephrased.group _ _ (.refl after)).append_left before
  have htexts : Group.texts (before ++ .group contents :: after) =
      Group.texts (before ++ .group contents' :: after) := by
    rw [Group.texts_group, Group.texts_group]
  unfold ofGroup
  rw [← hrephrased.destination?_eq, hd]
  cases d with
  | picture =>
    dsimp only
    rw [Picture.ofGroup_group, Picture.ofGroup_group]
  | bookmarkStart | bookmarkEnd => simp only [Field.bookmark, htexts]
  | fieldInstructions => simp only [Field.hyperlink?, hfield rfl]
  | _ => exact Bool.noConfusion hwhole

namespace Field

theorem nestedTexts_append (ts us : List Token) :
    nestedTexts (ts ++ us) = nestedTexts ts ++ nestedTexts us := by
  simp [nestedTexts, Group.groups]

theorem nestedTexts_text (s : String) (ts : List Token) :
    nestedTexts (.text s :: ts) = nestedTexts ts := rfl

theorem instruction?_group (before contents after : List Token) :
    instruction? (before ++ .group contents :: after) =
      (nestedTexts (before ++ .group contents :: after)).getLast?.bind Text.trim? := by
  have hgroup : Token.group contents ∈ before ++ .group contents :: after := by simp
  unfold instruction? nestedTexts
  dsimp only
  split
  · rename_i h
    exact h.symm
  · rename_i h
    rw [h]
    split
    · rename_i heq
      rw [heq] at hgroup
      simp at hgroup
    · rfl

theorem instruction?_congr {contents contents' : List Token} (before after : List Token)
    (hdestination : Group.destination? contents = Group.destination? contents')
    (htexts : (Group.destination? contents).isNone = true →
      (Group.texts contents).head? = (Group.texts contents').head?) :
    instruction? (before ++ .group contents :: after) =
      instruction? (before ++ .group contents' :: after) := by
  have hnested : nestedTexts (.group contents :: after) = nestedTexts (.group contents' :: after) := by
    simp only [nestedTexts, Group.groups, List.filterMap_cons, Token.group?, List.filter_cons,
      ← hdestination]
    split
    · rename_i hnone
      simp only [List.filterMap_cons, ← htexts hnone]
    · rfl
  rw [instruction?_group, instruction?_group, nestedTexts_append, nestedTexts_append, hnested]

theorem instruction?_of_later {after : List Token} (hafter : (nestedTexts after).isEmpty = false)
    (before contents contents' : List Token) :
    instruction? (before ++ .group contents :: after) =
      instruction? (before ++ .group contents' :: after) := by
  have hlast : ∀ contents, (nestedTexts (before ++ .group contents :: after)).getLast? =
      (nestedTexts after).getLast? := by
    intro contents
    have hsplit : before ++ .group contents :: after = (before ++ [.group contents]) ++ after := by
      simp
    rw [hsplit, nestedTexts_append, List.getLast?_append]
    cases hnested : nestedTexts after with
    | nil => simp [hnested] at hafter
    | cons s ss => simp [List.getLast?_cons]
  rw [instruction?_group, instruction?_group, hlast, hlast]

theorem instruction?_text {before after : List Token}
    (hshape : (before.length = 2 && after.isEmpty) = false) (hbefore : before ≠ [])
    (s s' : String) :
    instruction? (before ++ .text s :: after) = instruction? (before ++ .text s' :: after) := by
  have hnested : ∀ s, nestedTexts (before ++ .text s :: after) = nestedTexts (before ++ after) := by
    intro s
    rw [nestedTexts_append, nestedTexts_text, ← nestedTexts_append]
  have hgroups := (hnested s).trans (hnested s').symm
  unfold instruction?
  unfold nestedTexts at hgroups
  dsimp only
  rw [hgroups]
  split
  · rfl
  · match before, hbefore with
    | [t], _ =>
      by_cases hthird : ∃ a u, t = .atom a ∧ after = [.text u]
      · obtain ⟨a, u, rfl, rfl⟩ := hthird
        rfl
      · have hnot : ∀ s a b u, [t] ++ .text s :: after ≠ [.atom a, .atom b, .text u] := by
          intro s a b u heq
          simp only [List.cons_append, List.nil_append, List.cons.injEq] at heq
          exact hthird ⟨a, u, heq.1, heq.2.2⟩
        split
        · rename_i heq
          exact absurd heq (hnot s _ _ _)
        · split
          · rename_i heq
            exact absurd heq (hnot s' _ _ _)
          · rfl
    | [t, u], _ =>
      cases after with
      | nil => simp at hshape
      | cons v after => simp
    | t :: u :: v :: before, _ => cases before <;> simp

end Field

namespace Gap

variable {t u : Token}

theorem instruction?_put (gap : Gap) (h : Token.StandsIn t u)
    (hfield : Group.destination? (gap.put t) = some .fieldInstructions)
    (hread : gap.isRead t .fieldInstructions = true → Token.Alike t u) :
    Field.instruction? (gap.put t) = Field.instruction? (gap.put u) := by
  cases gap with
  | here before after =>
    cases h with
    | text s s' =>
      have hbefore : before ≠ [] := by
        rintro rfl
        simp [put, Group.destination?] at hfield
      cases hshape : (before.length = 2 && after.isEmpty : Bool) with
      | true => rw [Atom.text.inj (Token.atom.inj (hread hshape))]
      | false => exact Field.instruction?_text hshape hbefore s s'
    | group contents contents' =>
      cases hlast : (Field.nestedTexts after).isEmpty with
      | true =>
        obtain ⟨hdestination, htexts⟩ := hread hlast
        exact Field.instruction?_congr before after hdestination htexts
      | false => exact Field.instruction?_of_later hlast before contents contents'
  | inside before gap after =>
    have hdestination := (gap.rephrased_put h).destination?_eq
    cases gap with
    | inside before' gap after' =>
      refine Field.instruction?_congr before after hdestination (fun _ => ?_)
      rw [put, put, Group.texts_group, Group.texts_group]
    | here before' after' =>
      cases h with
      | group contents contents' =>
        refine Field.instruction?_congr before after hdestination (fun _ => ?_)
        rw [put, put, Group.texts_group, Group.texts_group]
      | text s s' =>
        cases hlater : (Field.nestedTexts after).isEmpty with
        | false => exact Field.instruction?_of_later hlater before _ _
        | true =>
          refine Field.instruction?_congr before after hdestination (fun hnone => ?_)
          cases hfirst : (Group.texts before').isEmpty with
          | false => exact Group.head?_texts hfirst _ _
          | true =>
            have hsame : Token.text s = .text s' := by
              refine hread ?_
              rw [put] at hnone
              simp [isRead, hlater, hfirst, hnone]
            rw [hsame]

theorem ofGroup_put (gap : Gap) (h : Token.StandsIn t u) {d : Destination}
    (hd : Group.destination? (gap.put t) = some d) (hwhole : d.isReadAsWhole = true)
    (hread : gap.isRead t d = true → Token.Alike t u) :
    Action.ofGroup (gap.put t) = Action.ofGroup (gap.put u) := by
  have hfield : d = .fieldInstructions →
      Field.instruction? (gap.put t) = Field.instruction? (gap.put u) := by
    rintro rfl
    exact gap.instruction?_put h hd hread
  cases gap with
  | inside before gap after => exact Action.ofGroup_group hd hwhole hfield
  | here before after =>
    cases h with
    | group contents contents' => exact Action.ofGroup_group hd hwhole hfield
    | text s s' =>
      have hd' := ((here before after).rephrased_put (.text s s')).destination?_eq.symm.trans hd
      unfold Action.ofGroup
      rw [hd, hd']
      cases d with
      | picture => rw [Atom.text.inj (Token.atom.inj (hread rfl))]
      | bookmarkStart | bookmarkEnd =>
        cases hfirst : (Group.texts before).isEmpty with
        | true => rw [Atom.text.inj (Token.atom.inj (hread hfirst))]
        | false =>
          have hhead := Group.head?_texts hfirst (.text s :: after) (.text s' :: after)
          simp only [Field.bookmark, put, hhead]
      | fieldInstructions => simp only [Field.hyperlink?, hfield rfl]
      | _ => exact Bool.noConfusion hwhole

theorem rewordedList_afterAll {p : Position} {d : List (String × List String)}
    {ts us : List Token} (before : List Token)
    (h : Token.RewordedList (p.afterAll before) d ts us) :
    Token.RewordedList p d (before ++ ts) (before ++ us) := by
  induction before generalizing p with
  | nil => exact h
  | cons t before ih => exact .cons (.refl p t) (ih h)

section Group

variable {gap : Gap} {q : Position}

theorem sameFate_put (h : Token.StandsIn t u)
    (hread : (q.active && (Group.destination? (gap.put t)).any (gap.isRead t)) = true →
      Token.Alike t u) :
    Token.SameFate (gap.put t) (gap.put u) (q.action (gap.put t)) (q.action (gap.put u)) := by
  refine (gap.rephrased_put h).sameFate_action q ?_
  intro hactive d hd hwhole
  refine gap.ofGroup_put h hd hwhole (fun hreads => hread ?_)
  simp [hactive, hd, hreads]

theorem reworded_put {d : List (String × List String)} (h : Token.StandsIn t u)
    (hcell : q.inCell = false)
    (hfate : Token.SameFate (gap.put t) (gap.put u) (q.action (gap.put t)) (q.action (gap.put u)))
    (hkept : (∀ scope, q.action (gap.put t) ≠ .scope scope) → d = [])
    (hinside : q.action (gap.put t) = .scope (gap.put t) →
      Token.RewordedList q.inside d (gap.put t) (gap.put u)) :
    Token.Reworded q d (.group (gap.put t)) [.group (gap.put u)] := by
  have hends := (gap.rephrased_put h).endsRow_eq
  obtain ⟨hsame, hscope⟩ | ⟨hscope, hscope'⟩ := hfate
  · rw [hkept hscope]
    exact .kept hcell (fun _ => hends) hsame hscope
  · exact .entered hcell (fun _ => hends) hscope hscope' (hinside hscope)

end Group

theorem isReadAsWhole_of_isRead {gap : Gap} {d : Destination} (h : gap.isRead t d = true) :
    d.isReadAsWhole = true := by
  have hfield : d = .fieldInstructions → d.isReadAsWhole = true := by
    rintro rfl
    rfl
  unfold isRead at h
  split at h
  · split at h
    · exact hfield (by simp_all)
    · split at h <;> first | rfl | exact Bool.noConfusion h
  · split at h
    · exact Bool.noConfusion h
    · exact hfield (by simp_all)
  · exact Bool.noConfusion h

theorem action_ne_scope {gap : Gap} {q : Position}
    (h : (q.active && (Group.destination? (gap.put t)).any (gap.isRead t)) = true)
    (scope : List Token) : q.action (gap.put t) ≠ .scope scope := by
  obtain ⟨hactive, hread⟩ := Bool.and_eq_true_iff.1 h
  obtain ⟨d, hd, hread⟩ := (Option.any_eq_true _ _).1 hread
  rw [Position.action, if_pos hactive]
  exact Action.ofGroup_ne_scope hd (isReadAsWhole_of_isRead hread) scope

theorem rewordedList_put (gap : Gap) (p : Position) {d : List (String × List String)}
    (h : Token.StandsIn t u)
    (hread : ∀ q, gap.sight t p = .read q → Token.Reworded q d t [u])
    (hunread : (∀ q, gap.sight t p ≠ .read q) → d = [])
    (hpart : gap.sight t p = .part → Token.Alike t u) :
    Token.RewordedList p d (gap.put t) (gap.put u) := by
  induction gap generalizing p with
  | here before after =>
    have hcons := Token.RewordedList.cons (hread _ rfl) (.refl _ after)
    rw [List.append_nil] at hcons
    exact rewordedList_afterAll before hcons
  | inside before gap after ih =>
    -- the cases are those of `sight`: taken by a cell, read as a whole, entered, or not
    suffices hgroup : Token.Reworded (p.afterAll before) d (.group (gap.put t))
        [.group (gap.put u)] by
      have hcons := Token.RewordedList.cons hgroup (.refl _ after)
      rw [List.append_nil] at hcons
      exact rewordedList_afterAll before hcons
    rw [sight] at hread hunread hpart
    generalize p.afterAll before = q at hread hunread hpart ⊢
    by_cases hcell : q.inCell = true
    · rw [if_pos hcell] at hunread
      rw [hunread (fun _ => Sight.noConfusion)]
      exact .swallowed hcell (fun _ => (gap.rephrased_put h).endsRow_eq)
    rw [if_neg hcell] at hread hunread hpart
    rw [Bool.not_eq_true] at hcell
    by_cases hreads : (q.active && (Group.destination? (gap.put t)).any (gap.isRead t)) = true
    · rw [if_pos hreads] at hunread hpart
      refine reworded_put h hcell (sameFate_put h (fun _ => hpart rfl))
        (fun _ => hunread (fun _ => Sight.noConfusion)) (fun hscope => ?_)
      exact absurd hscope (action_ne_scope hreads _)
    · rw [if_neg hreads] at hread hunread hpart
      have hfate := sameFate_put (q := q) h (fun hreads' => absurd hreads' hreads)
      refine reworded_put h hcell hfate (fun hkept => hunread ?_) (fun hscope => ?_)
      · intro r
        split
        · rename_i scope hscope
          exact absurd hscope (hkept scope)
        · exact Sight.noConfusion
      · rw [hscope] at hread hunread hpart
        exact ih q.inside hread hunread hpart

/-! What stands in the gap -/

theorem isRead_eq (gap : Gap) (h : Token.StandsIn t u) (d : Destination) :
    gap.isRead t d = gap.isRead u d := by
  cases h with
  | group contents contents' => cases gap with
    | here before after => rfl
    | inside before gap after => cases gap <;> rfl
  | text s s' => cases gap with
    | here before after => rfl
    | inside before gap after => cases gap with
      | inside before' gap' after' => rfl
      | here before' after' =>
        have hdestination :=
          ((here before' after').rephrased_put (.text s s')).destination?_eq
        simp only [put] at hdestination
        simp only [isRead, hdestination]

theorem sight_eq (gap : Gap) (h : Token.StandsIn t u) (p : Position) :
    gap.sight t p = gap.sight u p := by
  induction gap generalizing p with
  | here before after => rfl
  | inside before gap after ih =>
    have hreads : gap.isRead t = gap.isRead u := funext (gap.isRead_eq h)
    rw [sight, sight, ← (gap.rephrased_put h).destination?_eq, ← hreads]
    generalize p.afterAll before = q
    split
    · rfl
    · split
      · rfl
      · rename_i hunread
        obtain ⟨hsame, hscope⟩ | ⟨hscope, hscope'⟩ :=
          sameFate_put (q := q) h (fun hread => absurd hread hunread)
        · rw [hsame]
          split
          · rename_i scope hscope'
            exact absurd (hsame.trans hscope') (hscope scope)
          · rfl
        · rw [hscope, hscope']
          exact ih q.inside

/-! Documents -/

theorem isBody_put (gap : Gap) (h : Token.StandsIn t u) :
    Document.isBody (.group (gap.put t)) = Document.isBody (.group (gap.put u)) :=
  Document.isBody_group (gap.rephrased_put h).destination?_eq

theorem body?_eq {gap : Gap} (h : Token.StandsIn t u)
    (hbody : Document.isBody t = Document.isBody u) : gap.body? t = gap.body? u := by
  cases gap with
  | here before after => rw [body?, body?, hbody]
  | inside before gap after => rw [body?, body?, gap.isBody_put h]

theorem filter_isBody_put {gap body : Gap} (h : gap.body? t = some body) :
    (gap.put t).filter Document.isBody = body.put t := by
  cases gap with
  | here before after =>
    obtain ⟨ht, hbody⟩ := Option.ite_none_right_eq_some.1 h
    obtain rfl := Option.some.inj hbody
    simp [put, ht]
  | inside before gap after =>
    obtain ⟨ht, hbody⟩ := Option.ite_none_right_eq_some.1 h
    obtain rfl := Option.some.inj hbody
    simp [put, ht]

theorem filter_isBody_put_of_none {gap : Gap} (h : Token.StandsIn t u)
    (hbody : Document.isBody t = Document.isBody u) (hnone : gap.body? t = none) :
    (gap.put t).filter Document.isBody = (gap.put u).filter Document.isBody := by
  cases gap with
  | here before after =>
    have ht : ¬Document.isBody t = true := by simpa [body?] using hnone
    simp [put, ht, ← hbody]
  | inside before gap after =>
    have ht : ¬Document.isBody (.group (gap.put t)) = true := by simpa [body?] using hnone
    simp [put, ht, ← gap.isBody_put h]

theorem sightInDocument_eq (gap : Gap) (h : Token.StandsIn t u)
    (hbody : Document.isBody t = Document.isBody u) :
    gap.sightInDocument t = gap.sightInDocument u := by
  rw [sightInDocument, sightInDocument, ← body?_eq h hbody]
  split
  · rename_i body _
    rw [(body.rephrased_put h).isIgnorable_eq, body.sight_eq h]
  · rfl

end Gap

namespace Document

variable {t u : Token}

def put (doc : Document) (gap : Gap) (t : Token) : Document := { doc with contents := gap.put t }

theorem filterMap_default?_put (doc : Document) (gap : Gap) (h : Token.StandsIn t u) :
    (gap.put t).filterMap doc.default? = (gap.put u).filterMap doc.default? := by
  cases gap with
  | here before after => cases h <;> simp [Gap.put, List.filterMap_cons, default?]
  | inside before gap after => simp [Gap.put, List.filterMap_cons, default?]

/-- Tokens that are read alike where the walk comes to them, and by whatever reads them as a part,
may stand in for each other. The events differ in the texts of the tokens alone. -/
theorem events_put (doc : Document) (gap : Gap) {d : List (String × List String)}
    (h : Token.StandsIn t u) (hbody : isBody t = isBody u)
    (hread : ∀ q, gap.sightInDocument t = .read q → Token.Reworded q d t [u])
    (hunread : (∀ q, gap.sightInDocument t ≠ .read q) → d = [])
    (hpart : gap.sightInDocument t = .part → Token.Alike t u) :
    Event.Reworded d (doc.put gap t).events (doc.put gap u).events := by
  have hdefaults := doc.filterMap_default?_put gap h
  cases hgap : gap.body? t with
  | none =>
    have hsame : (doc.put gap t).body = (doc.put gap u).body :=
      Gap.filter_isBody_put_of_none h hbody hgap
    have hnone : d = [] := hunread (by simp [Gap.sightInDocument, hgap])
    refine events_reworded (fun _ => rfl) hdefaults (congrArg _ hsame) ?_ (fun _ => hnone)
    intro _
    rw [hsame, hnone]
    exact .refl _ _
  | some body =>
    have ht : (doc.put gap t).body = body.put t := Gap.filter_isBody_put hgap
    have hu : (doc.put gap u).body = body.put u :=
      Gap.filter_isBody_put ((Gap.body?_eq h hbody).symm.trans hgap)
    have hign := (body.rephrased_put h).isIgnorable_eq
    rw [← ht, ← hu] at hign
    refine events_reworded (fun _ => rfl) hdefaults hign ?_ ?_
    · intro hkept
      have hsight : gap.sightInDocument t = body.sight t {} := by
        rw [ht] at hkept
        simp [Gap.sightInDocument, hgap, hkept]
      rw [hsight] at hread hunread hpart
      rw [ht, hu]
      exact body.rewordedList_put {} h hread hunread hpart
    · intro hdropped
      rw [ht] at hdropped
      exact hunread (by simp [Gap.sightInDocument, hgap, hdropped])

end Document

end RichText
