import RichText.Proofs.Walk.Rewording
set_option autoImplicit false

/-!
Groups whose texts and inner groups are replaced. The other atoms decide whether a group is
dropped, recorded, shown or entered; only fields, bookmarks and pictures are read by their texts.
Main statements: `Rephrased.sameFate_action`, and `RewordedList.refl`.
-/
namespace RichText

/-- Groups of this destination are read by the texts in them. -/
def Destination.isReadAsWhole : Destination → Bool
  | .fieldInstructions | .bookmarkStart | .bookmarkEnd | .picture => true
  | .fieldResult | .header | .footer | .listTextFallback | .numberingTextFallback | .htmlTag
  | .other _ => false

theorem Action.ofGroup_ne_scope {contents : List Token} {d : Destination}
    (hd : Group.destination? contents = some d) (hwhole : d.isReadAsWhole = true)
    (scope : List Token) : ofGroup contents ≠ .scope scope := by
  unfold ofGroup
  rw [hd]
  cases d with
  | fieldInstructions => cases Field.hyperlink? contents <;> simp
  | bookmarkStart | bookmarkEnd | picture => simp
  | _ => exact Bool.noConfusion hwhole

namespace Token

/-- The lists have the same atoms but for texts, with texts and groups in the same places. -/
inductive Rephrased : List Token → List Token → Prop where
  | nil : Rephrased [] []
  | atom (a : Atom) {ts us : List Token} (h : Rephrased ts us) :
      Rephrased (.atom a :: ts) (.atom a :: us)
  | text (s : String) {ss : List String} (hss : ss ≠ []) {ts us : List Token}
      (h : Rephrased ts us) : Rephrased (.text s :: ts) (ss.map Token.text ++ us)
  | group (contents contents' : List Token) {ts us : List Token} (h : Rephrased ts us) :
      Rephrased (.group contents :: ts) (.group contents' :: us)

namespace Rephrased

variable {ts us : List Token}

theorem refl (ts : List Token) : Rephrased ts ts := by
  induction ts with
  | nil => exact .nil
  | cons t ts ih =>
    cases t with
    | atom a => exact .atom a ih
    | group contents => exact .group contents contents ih

theorem append_left (before : List Token) (h : Rephrased ts us) :
    Rephrased (before ++ ts) (before ++ us) := by
  induction before with
  | nil => exact h
  | cons t before ih =>
    cases t with
    | atom a => exact .atom a ih
    | group contents => exact .group contents contents ih

theorem destination?_eq (h : Rephrased ts us) : Group.destination? ts = Group.destination? us := by
  cases h with
  | nil => rfl
  | text s hss h =>
    obtain ⟨s', ss, rfl⟩ := List.exists_cons_of_ne_nil hss
    rfl
  | group contents contents' h => rfl
  | atom a h =>
    cases a with
    | ignoreUnrecognized =>
      cases h with
      | text s hss h =>
        obtain ⟨s', ss, rfl⟩ := List.exists_cons_of_ne_nil hss
        rfl
      | atom b h => cases b <;> rfl
      | _ => rfl
    | _ => rfl

theorem isIgnorable_eq (h : Rephrased ts us) : Group.isIgnorable ts = Group.isIgnorable us := by
  cases h with
  | nil => rfl
  | text s hss h =>
    obtain ⟨s', ss, rfl⟩ := List.exists_cons_of_ne_nil hss
    rfl
  | group contents contents' h => rfl
  | atom a h =>
    cases a with
    | ignoreUnrecognized =>
      cases h with
      | text s hss h =>
        obtain ⟨s', ss, rfl⟩ := List.exists_cons_of_ne_nil hss
        rfl
      | atom b h => cases b <;> rfl
      | _ => rfl
    | _ => rfl

theorem filter_eq {p : Token → Bool} (htext : ∀ s, p (.text s) = false)
    (hgroup : ∀ contents, p (.group contents) = false) (h : Rephrased ts us) :
    ts.filter p = us.filter p := by
  induction h with
  | nil => rfl
  | atom a _ ih => simp [List.filter_cons, ih]
  | @text s ss _ _ _ _ ih =>
    have hnone : (ss.map Token.text).filter p = [] := by
      simp [List.filter_eq_nil_iff, htext]
    rw [List.filter_append, hnone, List.filter_cons, htext, ih]
    rfl
  | group contents contents' _ ih => simp [hgroup, ih]

theorem any_eq {p : Token → Bool} (htext : ∀ s, p (.text s) = false)
    (hgroup : ∀ contents, p (.group contents) = false) (h : Rephrased ts us) :
    ts.any p = us.any p := by
  have hfilter := h.filter_eq htext hgroup
  rw [Bool.eq_iff_iff, List.any_eq_true, List.any_eq_true]
  simp only [← List.mem_filter, hfilter]

theorem describesNumbering_eq (h : Rephrased ts us) :
    Group.describesNumbering ts = Group.describesNumbering us :=
  h.any_eq (by simp) (by simp)

theorem paragraphFormats_eq (h : Rephrased ts us) :
    Group.paragraphFormats ts = Group.paragraphFormats us := by
  refine h.filter_eq ?_ ?_
  · exact fun _ => (by decide : decide (Category.text = .paragraphFormat) = false)
  · exact fun _ => (by decide : decide (Category.group = .paragraphFormat) = false)

theorem endsRow_eq (h : Rephrased ts us) : (Token.group ts).endsRow = (Token.group us).endsRow :=
  h.any_eq (by simp [isRowBreak]) (by simp [isRowBreak])

end Rephrased

/-- Both groups are entered, or both ask for the same thing and are not. -/
def SameFate (contents contents' : List Token) (action action' : Action) : Prop :=
  action = action' ∧ (∀ scope, action ≠ .scope scope) ∨
    action = .scope contents ∧ action' = .scope contents'

namespace Rephrased

variable {ts us : List Token}

theorem sameFate_enter (h : Rephrased ts us) : SameFate ts us (Action.enter ts) (Action.enter us) := by
  unfold Action.enter
  rw [← h.isIgnorable_eq]
  cases Group.isIgnorable ts with
  | true => exact .inl ⟨rfl, by simp⟩
  | false => exact .inr ⟨rfl, rfl⟩

theorem sameFate_ofPlainGroup (h : Rephrased ts us) :
    SameFate ts us (Action.ofPlainGroup ts) (Action.ofPlainGroup us) := by
  unfold Action.ofPlainGroup
  rw [← h.describesNumbering_eq, ← h.paragraphFormats_eq]
  cases Group.describesNumbering ts with
  | true => exact .inl ⟨rfl, by simp⟩
  | false => exact h.sameFate_enter

theorem sameFate_ofGroup (h : Rephrased ts us)
    (hwhole : ∀ d, Group.destination? ts = some d → d.isReadAsWhole = true →
      Action.ofGroup ts = Action.ofGroup us) :
    SameFate ts us (Action.ofGroup ts) (Action.ofGroup us) := by
  have hplain := h.sameFate_ofPlainGroup
  cases hd : Group.destination? ts with
  | none =>
    have hd' := h.destination?_eq.symm.trans hd
    unfold Action.ofGroup
    rw [hd, hd']
    exact hplain
  | some d =>
    have hd' := h.destination?_eq.symm.trans hd
    cases hread : d.isReadAsWhole with
    | true => exact .inl ⟨hwhole d hd hread, Action.ofGroup_ne_scope hd hread⟩
    | false =>
      unfold Action.ofGroup
      rw [hd, hd']
      cases d with
      | fieldResult | htmlTag | other name => exact hplain
      | header | footer | listTextFallback | numberingTextFallback => exact .inl ⟨rfl, by simp⟩
      | _ => exact Bool.noConfusion hread

/-- What becomes of a group does not depend on its texts, unless it is read by them. -/
theorem sameFate_action (h : Rephrased ts us) (p : Position)
    (hwhole : p.active = true → ∀ d, Group.destination? ts = some d → d.isReadAsWhole = true →
      Action.ofGroup ts = Action.ofGroup us) :
    SameFate ts us (p.action ts) (p.action us) := by
  unfold Position.action
  cases hactive : p.active with
  | true => exact h.sameFate_ofGroup (hwhole hactive)
  | false => exact h.sameFate_enter

theorem reworded (h : Rephrased ts us) (p : Position)
    (hwhole : p.active = true → ∀ d, Group.destination? ts = some d → d.isReadAsWhole = true →
      Action.ofGroup ts = Action.ofGroup us) :
    Reworded p [] (.group ts) [.group us] ∨
      p.inCell = false ∧ p.action ts = .scope ts ∧
        ∀ d, RewordedList p.inside d ts us → Reworded p d (.group ts) [.group us] := by
  cases hcell : p.inCell with
  | true => exact .inl (.swallowed hcell (fun _ => h.endsRow_eq))
  | false =>
    obtain ⟨hsame, hscope⟩ | ⟨hts, hus⟩ := h.sameFate_action p hwhole
    · exact .inl (.kept hcell (fun _ => h.endsRow_eq) hsame hscope)
    · exact .inr ⟨rfl, hts, fun d hcontents =>
        .entered hcell (fun _ => h.endsRow_eq) hts hus hcontents⟩

end Rephrased

mutual

theorem Reworded.refl (p : Position) : (t : Token) → Reworded p [] t [t]
  | .atom _ => .atom
  | .group contents => by
    obtain h | ⟨_, _, h⟩ := (Rephrased.refl contents).reworded p (fun _ _ _ _ => rfl)
    · exact h
    · exact h [] (RewordedList.refl p.inside contents)

theorem RewordedList.refl (p : Position) : (ts : List Token) → RewordedList p [] ts ts
  | [] => .nil
  | t :: ts => .cons (Reworded.refl p t) (RewordedList.refl (p.after t) ts)

end

end Token

end RichText
