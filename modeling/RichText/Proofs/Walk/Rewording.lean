import RichText.Proofs.Walk.PlainReading
import RichText.Proofs.Walk.Position
import RichText.Proofs.Style.Outline
set_option autoImplicit false

namespace RichText

namespace Token

mutual

/-- `Reworded p d t us`: at the position `p` the token `t` is reworded to the tokens `us`, and of
the texts that are reported there, those in `d` are replaced. Whole groups are read alike. -/
inductive Reworded : Position → List (String × List String) → Token → List Token → Prop where
  | atom {p : Position} {a : Atom} : Reworded p [] (.atom a) [.atom a]
  | text {p : Position} {s : String} {ss : List String} (h : ss ≠ []) :
      Reworded p (if p.reports then [(s, ss)] else []) (.text s) (ss.map Token.text)
  | swallowed {p : Position} {contents contents' : List Token} (hcell : p.inCell = true)
      (hends : p.place = .row → (Token.group contents).endsRow = (Token.group contents').endsRow) :
      Reworded p [] (.group contents) [.group contents']
  | kept {p : Position} {contents contents' : List Token} (hcell : p.inCell = false)
      (hends : p.place = .row → (Token.group contents).endsRow = (Token.group contents').endsRow)
      (haction : p.action contents = p.action contents')
      (hscope : ∀ scope, p.action contents ≠ .scope scope) :
      Reworded p [] (.group contents) [.group contents']
  | entered {p : Position} {d : List (String × List String)} {contents contents' : List Token}
      (hcell : p.inCell = false)
      (hends : p.place = .row → (Token.group contents).endsRow = (Token.group contents').endsRow)
      (haction : p.action contents = .scope contents)
      (haction' : p.action contents' = .scope contents')
      (hcontents : RewordedList p.inside d contents contents') :
      Reworded p d (.group contents) [.group contents']

inductive RewordedList : Position → List (String × List String) → List Token → List Token → Prop
    where
  | nil {p : Position} : RewordedList p [] [] []
  | cons {p : Position} {d d' : List (String × List String)} {t : Token} {ts us us' : List Token}
      (hhead : Reworded p d t us) (htail : RewordedList (p.after t) d' ts us') :
      RewordedList p (d ++ d') (t :: ts) (us ++ us')

end

variable {p q : Position} {d : List (String × List String)} {t : Token} {ts us : List Token}

namespace Reworded

theorem congr (h : Reworded p d t us) (hplace : q.place = .row → p.place = .row)
    (hactive : q.active = p.active) (hcell : q.inCell = p.inCell) (hinside : q.inside = p.inside) :
    Reworded q d t us := by
  have hreports : q.reports = p.reports := by rw [Position.reports, hactive, hcell, Position.reports]
  have haction : ∀ contents, q.action contents = p.action contents := by
    intro contents
    rw [Position.action, hactive, Position.action]
  cases h with
  | atom => exact .atom
  | text h =>
    rw [← hreports]
    exact .text h
  | swallowed hin hends => exact .swallowed (hcell.trans hin) (hends ∘ hplace)
  | kept hin hends hsame hscope =>
    refine .kept (hcell.trans hin) (hends ∘ hplace) ?_ ?_
    · rw [haction, haction, hsame]
    · intro scope
      rw [haction]
      exact hscope scope
  | entered hin hends h h' hcontents =>
    refine .entered (hcell.trans hin) (hends ∘ hplace) ((haction _).trans h)
      ((haction _).trans h') ?_
    rw [hinside]
    exact hcontents

theorem own (h : Reworded p d t us) (hplace : p.place = .row) : Reworded p.own d t us := by
  refine h.congr (fun _ => hplace) rfl rfl ?_
  simp [Position.inside, Position.own, hplace]

theorem of_lead (h : Reworded p d t us) (ht : Row.isLead t = true) :
    d = [] ∧ us = [t] ∧ ∀ q, Reworded q [] t [t] := by
  cases h with
  | atom => exact ⟨rfl, rfl, fun _ => .atom⟩
  | text h => exact absurd ht (by simp [Row.isLead, Token.isFormat, Token.category, Atom.category,
      show Category.text.contains .format = false from by decide])
  | _ => exact absurd ht (by simp [Row.isLead, Token.isFormat, Token.category,
      show Category.group.contains .format = false from by decide])

theorem endsRow_eq_true (h : Reworded p d t us) (hplace : p.place = .row) (ht : t.endsRow = true) :
    ∃ u, us = [u] ∧ u.endsRow = true := by
  cases h with
  | atom => exact ⟨_, rfl, ht⟩
  | text h => exact absurd ht (by simp [Token.endsRow])
  | swallowed _ hends => exact ⟨_, rfl, (hends hplace).symm.trans ht⟩
  | kept _ hends => exact ⟨_, rfl, (hends hplace).symm.trans ht⟩
  | entered _ hends => exact ⟨_, rfl, (hends hplace).symm.trans ht⟩

theorem endsRow_eq_false (h : Reworded p d t us) (hplace : p.place = .row)
    (ht : t.endsRow = false) : ∀ u ∈ us, u.endsRow = false := by
  cases h with
  | atom => simpa using ht
  | text h =>
    intro u hu
    obtain ⟨s, _, rfl⟩ := List.mem_map.1 hu
    rfl
  | swallowed _ hends => simpa using (hends hplace).symm.trans ht
  | kept _ hends => simpa using (hends hplace).symm.trans ht
  | entered _ hends => simpa using (hends hplace).symm.trans ht

theorem not_lead (h : Reworded p d t us) (ht : Row.isLead t = false)
    (hne : t ≠ .atom .rowDefaults) :
    ∃ u rest, us = u :: rest ∧ Row.isLead u = false ∧ u ≠ .atom .rowDefaults := by
  cases h with
  | atom => exact ⟨_, _, rfl, ht, hne⟩
  | text h =>
    obtain ⟨s, rest, rfl⟩ := List.exists_cons_of_ne_nil h
    exact ⟨_, _, rfl, by simp [Row.isLead, Token.isFormat, Token.category, Atom.category,
      show Category.text.contains .format = false from by decide], by simp⟩
  | _ => exact ⟨_, _, rfl, by simp [Row.isLead, Token.isFormat, Token.category,
      show Category.group.contains .format = false from by decide], by simp⟩

theorem eq_nil_of_inCell (h : Reworded p d t us) (hin : p.inCell = true) : d = [] := by
  cases h with
  | text h => simp [Position.reports, hin]
  | entered hout => exact absurd (hin.symm.trans hout) (by simp)
  | _ => rfl

theorem filterMap_rowLeftOffset? (h : Reworded p d t us) :
    us.filterMap Token.rowLeftOffset? = [t].filterMap Token.rowLeftOffset? := by
  cases h with
  | text h => exact List.filterMap_eq_nil_iff.2 (by simp [Token.rowLeftOffset?])
  | _ => rfl

end Reworded

namespace RewordedList

theorem filterMap_rowLeftOffset? (h : RewordedList p d ts us) :
    us.filterMap Token.rowLeftOffset? = ts.filterMap Token.rowLeftOffset? := by
  induction ts generalizing p d us with
  | nil =>
    cases h
    rfl
  | cons t ts ih =>
    cases h with
    | cons hhead htail =>
      rw [List.filterMap_append, hhead.filterMap_rowLeftOffset?, ih htail, ← List.filterMap_append,
        List.singleton_append]

theorem own_singleton (h : Reworded p d t us) (hplace : p.place = .row) :
    RewordedList p.own d [t] us := by
  have hcons := RewordedList.cons (h.own hplace) .nil
  rwa [List.append_nil, List.append_nil] at hcons

theorem cons_atom {a : Atom} (h : RewordedList (p.after (.atom a)) d ts us) :
    RewordedList p d (.atom a :: ts) (.atom a :: us) :=
  .cons .atom h

/-! Rows -/

theorem splitAfterEnd_append {front : List Token} (hfront : ∀ t ∈ front, t.endsRow = false)
    (ts : List Token) :
    Row.splitAfterEnd (front ++ ts) =
      (front ++ (Row.splitAfterEnd ts).1, (Row.splitAfterEnd ts).2) := by
  induction front with
  | nil => rfl
  | cons t front ih =>
    have ht := hfront t List.mem_cons_self
    have hrest := ih (fun u hu => hfront u (List.mem_cons_of_mem t hu))
    rw [List.cons_append, Row.splitAfterEnd, ht, if_neg Bool.false_ne_true, hrest]
    rfl

/-- The row that the position is in ends in both lists at the same token. -/
theorem splitAfterEnd (h : RewordedList p d ts us) (hplace : p.place = .row) :
    ∃ d₁ d₂, d = d₁ ++ d₂ ∧
      RewordedList p.own d₁ (Row.splitAfterEnd ts).1 (Row.splitAfterEnd us).1 ∧
      RewordedList { place := .behindRow } d₂ (Row.splitAfterEnd ts).2
        (Row.splitAfterEnd us).2 := by
  induction ts generalizing p d us with
  | nil =>
    cases h
    exact ⟨[], [], rfl, .nil, .nil⟩
  | cons t ts ih =>
    cases h with
    | @cons _ d d' _ _ us us' hhead htail =>
      cases ht : t.endsRow with
      | true =>
        obtain ⟨u, rfl, hu⟩ := hhead.endsRow_eq_true hplace ht
        rw [Position.after_endsRow hplace ht] at htail
        refine ⟨d, d', rfl, ?_, ?_⟩
        · simp only [Row.splitAfterEnd, ht, hu, List.singleton_append, if_true]
          exact own_singleton hhead hplace
        · simp only [Row.splitAfterEnd, ht, hu, List.singleton_append, if_true]
          exact htail
      | false =>
        have hpass : (p.pass t).place = .row := (Position.place_pass p t).trans hplace
        rw [Position.after_row hplace ht] at htail
        obtain ⟨d₁, d₂, rfl, hfront, hrest⟩ := ih htail hpass
        rw [Position.own_pass, ← Position.after_own] at hfront
        rw [splitAfterEnd_append (hhead.endsRow_eq_false hplace ht), Row.splitAfterEnd, ht,
          if_neg Bool.false_ne_true, ← List.append_assoc]
        exact ⟨d ++ d₁, d₂, rfl, .cons (hhead.own hplace) hfront, hrest⟩

theorem takeContents?_lead (ht : Row.isLead t = true) (ts : List Token) :
    Row.takeContents? (t :: ts) = (Row.takeContents? ts).map (fun p => (t :: p.1, p.2)) := by
  unfold Row.takeContents?
  rw [List.dropWhile_cons_of_pos ht, List.takeWhile_cons_of_pos ht]
  split <;> rfl

theorem takeContents?_of_not_lead (ht : Row.isLead t = false) (hne : t ≠ .atom .rowDefaults)
    (ts : List Token) : Row.takeContents? (t :: ts) = none := by
  have hnot : ¬Row.isLead t = true := by simp [ht]
  unfold Row.takeContents?
  rw [List.dropWhile_cons_of_neg hnot]
  split
  · rename_i heq
    exact absurd (List.cons.inj heq).1 hne
  · rfl

theorem takeContents? (h : RewordedList p d ts us) (hplace : p.place = .behindRow) :
    (∃ d₁ d₂ front rest front' rest', d = d₁ ++ d₂ ∧
      Row.takeContents? ts = some (front, rest) ∧ Row.takeContents? us = some (front', rest') ∧
      RewordedList p.own d₁ front front' ∧ RewordedList { place := .behindRow } d₂ rest rest') ∨
    Row.takeContents? ts = none ∧ Row.takeContents? us = none ∧ RewordedList p.leave d ts us := by
  induction ts generalizing p d us with
  | nil =>
    cases h
    exact .inr ⟨rfl, rfl, .nil⟩
  | cons t ts ih =>
    cases h with
    | @cons _ d d' _ _ us us' hhead htail =>
      by_cases hne : t = .atom .rowDefaults
      · subst hne
        cases hhead with
        | atom =>
          rw [Position.after_rowDefaults hplace] at htail
          obtain ⟨d₁, d₂, rfl, hfront, hrest⟩ := htail.splitAfterEnd rfl
          have hafter : p.own.after (.atom .rowDefaults) = p.own := by
            rw [Position.after_own, Position.pass_of_neutral (by simp) (by decide)]
          refine .inl ⟨d₁, d₂, _, _, _, _, rfl, Row.takeContents?_rowDefaults ts,
            Row.takeContents?_rowDefaults us', cons_atom ?_, hrest⟩
          rw [hafter]
          exact hfront
      · cases ht : Row.isLead t with
        | true =>
          have hpass : (p.pass t).place = .behindRow := (Position.place_pass p t).trans hplace
          obtain ⟨rfl, rfl, hsame⟩ := hhead.of_lead ht
          rw [Position.after_lead hplace ht] at htail
          rw [List.singleton_append, takeContents?_lead ht, takeContents?_lead ht]
          obtain ⟨d₁, d₂, front, rest, front', rest', rfl, hts, hus, hfront, hrest⟩ |
            ⟨hts, hus, hleave⟩ := ih htail hpass
          · rw [Position.own_pass, ← Position.after_own] at hfront
            rw [hts, hus]
            exact .inl ⟨d₁, d₂, _, _, _, _, rfl, rfl, rfl, .cons (hsame p.own) hfront, hrest⟩
          · rw [Position.leave_pass, ← Position.after_leave hne] at hleave
            rw [hts, hus]
            exact .inr ⟨rfl, rfl, .cons (hsame p.leave) hleave⟩
        | false =>
          obtain ⟨u, rest, rfl, hu, hune⟩ := hhead.not_lead ht hne
          refine .inr ⟨takeContents?_of_not_lead ht hne ts,
            takeContents?_of_not_lead hu hune (rest ++ us'), ?_⟩
          rw [Position.after_of_not_lead hplace hne ht] at htail
          refine .cons (hhead.congr (fun h => by simp [Position.leave] at h) rfl rfl ?_) htail
          simp [Position.inside, Position.leave, hplace]

end RewordedList

inductive RewordedRows : List (String × List String) → List Row → List Row → Prop where
  | nil : RewordedRows [] [] []
  | cons {d d' : List (String × List String)} {index : Nat} {contents contents' : List Token}
      {rows rows' : List Row} (hrow : RewordedList { place := .owned } d contents contents')
      (hrows : RewordedRows d' rows rows') :
      RewordedRows (d ++ d') (⟨index, contents⟩ :: rows) (⟨index, contents'⟩ :: rows')

namespace RewordedList

theorem outline_row (h : RewordedList p d ts us) (index : Nat) :
    Row.outline ⟨index, ts⟩ = Row.outline ⟨index, us⟩ := by
  simp only [Row.outline, Row.leftOffset, h.filterMap_rowLeftOffset?]

theorem takeFrom (h : RewordedList { place := .behindRow } d ts us) (index : Nat) :
    ∃ d₁ d₂, d = d₁ ++ d₂ ∧ RewordedRows d₁ (Row.takeFrom index ts).1 (Row.takeFrom index us).1 ∧
      RewordedList {} d₂ (Row.takeFrom index ts).2 (Row.takeFrom index us).2 := by
  fun_induction Row.takeFrom index ts generalizing d us with
  | case1 index ts contents rest hcontents rows rest' hrec ih =>
    rw [hrec] at ih
    obtain ⟨d₁, d₂, front, after, front', after', rfl, hts, hus, hfront, hafter⟩ |
      ⟨hts, _⟩ := h.takeContents? rfl
    · obtain ⟨rfl, rfl⟩ := Prod.mk.inj (Option.some.inj (hcontents.symm.trans hts))
      obtain ⟨d₂, d₃, rfl, hrows, hrest⟩ := ih hafter
      rw [Row.takeFrom_of_some hus, ← List.append_assoc]
      exact ⟨d₁ ++ d₂, d₃, rfl, .cons hfront hrows, hrest⟩
    · exact absurd (hcontents.symm.trans hts) (by simp)
  | case2 index ts hnone =>
    obtain ⟨_, _, _, _, _, _, _, hts, _⟩ | ⟨_, hus, hleave⟩ := h.takeContents? rfl
    · exact absurd (hnone.symm.trans hts) (by simp)
    · rw [Row.takeFrom_of_none hus]
      exact ⟨[], d, rfl, .nil, hleave⟩

/-! Borders and cells -/

theorem absorb?_eq_none (b : Border) (h : Reworded p d t us) (ht : b.absorb? t = none) :
    ∃ u rest, us = u :: rest ∧ b.absorb? u = none := by
  have hnone : ∀ u : Token, b.side.accepts u = false → b.absorb? u = none := by
    intro u hu
    rw [← Option.not_isSome_iff_eq_none, b.absorb?_isSome, hu]
    exact Bool.false_ne_true
  cases h with
  | atom => exact ⟨_, _, rfl, ht⟩
  | text h =>
    obtain ⟨s, rest, rfl⟩ := List.exists_cons_of_ne_nil h
    exact ⟨_, _, rfl, hnone _ rfl⟩
  | _ => exact ⟨_, _, rfl, hnone _ rfl⟩

theorem absorbAll (h : RewordedList p d ts us) (hplace : p.place = .outside ∨ p.place = .owned)
    (b : Border) :
    (b.absorbAll ts).1 = (b.absorbAll us).1 ∧
      RewordedList p d (b.absorbAll ts).2 (b.absorbAll us).2 := by
  induction ts generalizing b d us with
  | nil =>
    cases h
    exact ⟨rfl, .nil⟩
  | cons t ts ih =>
    cases h with
    | @cons _ d d' _ _ us us' hhead htail =>
      cases ht : b.absorb? t with
      | none =>
        obtain ⟨u, rest, rfl, hu⟩ := absorb?_eq_none b hhead ht
        have hcons := RewordedList.cons hhead htail
        rw [List.cons_append] at hcons ⊢
        simp only [Border.absorbAll, ht, hu]
        exact ⟨trivial, hcons⟩
      | some b' =>
        have hcategory := Border.category_of_absorb? ht
        have hafter : p.after t = p := by
          refine Position.after_of_neutral hplace ?_ ?_ ?_
          · rintro on rfl
            exact absurd hcategory (by decide : Category.none ≠ .borderProperty)
          · rw [hcategory]
            decide
          · rintro rfl
            exact absurd hcategory (by decide)
        rw [hafter] at htail
        cases hhead with
        | atom =>
          rw [List.singleton_append]
          simp only [Border.absorbAll, ht, List.nil_append]
          exact ih htail b'
        | text h => exact absurd hcategory (by decide : Category.text ≠ .borderProperty)
        | _ => exact absurd hcategory (by decide : Category.group ≠ .borderProperty)

theorem outline_describe (cell : Cell) (t : Token) :
    (cell.describe t).outline = cell.outline.describe t := by
  cases t with
  | group contents => rfl
  | atom a => cases a <;> rfl

theorem take_cons (cell : Cell) (hborder : ∀ side, t ≠ .atom (.borderPosition side))
    (hright : ∀ position, t ≠ .atom (.rightCellBoundary position)) (ts : List Token) :
    cell.take (t :: ts) = (cell.describe t).take ts := by
  rw [Cell.take]
  · exact hborder
  · exact hright

theorem take_reworded (cell : Cell) (h : Reworded p d t us)
    (hborder : ∀ side, t ≠ .atom (.borderPosition side))
    (hright : ∀ position, t ≠ .atom (.rightCellBoundary position)) (ts : List Token) :
    cell.take (us ++ ts) = (cell.describe t).take ts := by
  cases h with
  | atom => exact take_cons cell hborder hright ts
  | @text _ s ss h =>
    clear h
    change cell.take (ss.map Token.text ++ ts) = cell.take ts
    induction ss with
    | nil => rfl
    | cons s ss ih =>
      rw [List.map_cons, List.cons_append, take_cons cell (by simp) (by simp)]
      exact ih
  | _ => exact take_cons cell (by simp) (by simp) ts

/-- The description of a cell is the same in both lists, but for the tokens of its row. -/
theorem take (h : RewordedList p d ts us) (hplace : p.place = .outside ∨ p.place = .owned)
    (hin : p.inCell = true) {cell cell' : Cell} (hcell : cell.outline = cell'.outline) :
    (cell.take ts).1.outline = (cell'.take us).1.outline ∧
      RewordedList { p with inCell := false } d (cell.take ts).2 (cell'.take us).2 := by
  fun_induction Cell.take cell ts generalizing cell' d us with
  | case1 cell =>
    cases h
    rw [Cell.take]
    exact ⟨hcell, .nil⟩
  | case2 cell ts side ih =>
    cases h with
    | @cons _ d d' _ _ us us' hhead htail =>
      have hafter : p.after (.atom (.borderPosition side)) = p := by
        rw [Position.after_inCell hplace hin]
        exact congrArg (fun inCell => { p with inCell := inCell }) hin.symm
      rw [hafter] at htail
      obtain ⟨hborder, hrest⟩ := htail.absorbAll hplace { side := side }
      cases hhead with
      | atom =>
        rw [List.singleton_append, Cell.take, ← hborder]
        refine ih hrest ?_
        exact congrArg (fun cell : Cell => { cell with
          borders := cell.borders ++ [(Border.absorbAll { side := side } ts).1] }) hcell
  | case3 cell ts position =>
    cases h with
    | @cons _ d d' _ _ us us' hhead htail =>
      have hafter : p.after (.atom (.rightCellBoundary position)) = { p with inCell := false } :=
        Position.after_inCell hplace hin _
      rw [hafter] at htail
      cases hhead with
      | atom =>
        rw [List.singleton_append, Cell.take]
        refine ⟨?_, htail⟩
        exact congrArg (fun cell : Cell => { cell with rightBoundary := some position }) hcell
  | case4 cell ts t hborder hright ih =>
    cases h with
    | @cons _ d d' _ _ us us' hhead htail =>
      have hnot := Token.isRightCellBoundary_eq_false hright
      have hafter : p.after t = p := by
        rw [Position.after_inCell hplace hin, hnot]
        exact congrArg (fun inCell => { p with inCell := inCell }) hin.symm
      rw [hafter] at htail
      rw [take_reworded cell' hhead hborder hright]
      have hdescribe : (cell.describe t).outline = (cell'.describe t).outline := by
        rw [outline_describe, hcell, outline_describe]
      obtain rfl := hhead.eq_nil_of_inCell hin
      exact ih htail hdescribe

end RewordedList

end Token

end RichText
