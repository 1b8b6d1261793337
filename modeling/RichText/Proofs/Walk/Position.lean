import RichText.Walk.Action
set_option autoImplicit false

/-!
Positions: how the tables, the cells and the fences before a token in its list determine how it is
read. What a fence says holds to the end of the scope, but rows are scopes of their own, and the
description of a cell takes fences with it.
-/
namespace RichText

/-- Where a token is read: outside of rows, in a scope that belongs to a row, in a row of a table
of the list itself, or behind such a row, where another one may follow. -/
inductive Place where
  | outside | owned | row | behindRow
deriving DecidableEq

/-- How the tokens of a list so far determine what becomes of the next one. -/
structure Position where
  place : Place := .outside
  active : Bool := true
  inCell : Bool := false
deriving DecidableEq

namespace Position

def start (row : Option Row) (active : Bool) : Position where
  place := if row.isSome then .owned else .outside
  active := active

def reports (p : Position) : Bool := p.active && !p.inCell

def placeOf (p : Position) (t : Token) : Place :=
  match p.place with
  | .outside => if t = .atom .rowDefaults && p.reports then .row else .outside
  | .behindRow =>
    if t = .atom .rowDefaults then .row else if t.isFormat then .behindRow else .outside
  | place => place

/-- The position after a token, rows left aside. The description of a cell goes through its right
boundary, whatever stands in it. -/
def pass (p : Position) (t : Token) : Position :=
  if p.inCell then { p with inCell := !t.isRightCellBoundary }
  else
    match t with
    | .atom (.htmlRtf on) => { p with active := !on }
    | t => { p with inCell := p.active && t.category = .cellFormat && !t.isRightCellBoundary }

def after (p : Position) (t : Token) : Position :=
  if p.placeOf t = .row && t.endsRow then { place := .behindRow }
  else { p.pass t with place := p.placeOf t }

def inside (p : Position) : Position where
  place := if p.place = .owned || p.place = .row then .owned else .outside
  active := p.active

def action (p : Position) (contents : List Token) : Action :=
  if p.active then Action.ofGroup contents else Action.enter contents

def own (p : Position) : Position := { p with place := .owned }

def leave (p : Position) : Position := { p with place := .outside }

variable {p : Position} {t : Token}

theorem place_pass (p : Position) (t : Token) : (p.pass t).place = p.place := by
  unfold pass
  split
  · rfl
  · split <;> rfl

theorem own_pass (p : Position) (t : Token) : (p.pass t).own = p.own.pass t := by
  unfold pass own
  dsimp only
  split
  · rfl
  · split <;> rfl

theorem leave_pass (p : Position) (t : Token) : (p.pass t).leave = p.leave.pass t := by
  unfold pass leave
  dsimp only
  split
  · rfl
  · split <;> rfl

theorem after_own (p : Position) (t : Token) : p.own.after t = p.own.pass t := by
  have hplace : p.own.placeOf t = .owned := rfl
  unfold after
  rw [hplace]
  exact congrArg (fun place => { p.own.pass t with place := place }) (place_pass p.own t).symm

theorem after_endsRow (hplace : p.place = .row) (ht : t.endsRow = true) :
    p.after t = { place := .behindRow } := by
  simp [after, placeOf, hplace, ht]

theorem after_row (hplace : p.place = .row) (ht : t.endsRow = false) : p.after t = p.pass t := by
  have hpass := place_pass p t
  rw [hplace] at hpass
  simp only [after, placeOf, hplace, ht, Bool.and_false, Bool.false_eq_true, if_false]
  rw [← hpass]

theorem pass_of_neutral (hfence : ∀ on, t ≠ .atom (.htmlRtf on))
    (hcell : t.category ≠ .cellFormat) (p : Position) : p.pass t = p := by
  have hboundary : t.isRightCellBoundary = false := by
    rw [← Bool.not_eq_true]
    exact fun h => hcell (Token.category_of_isRightCellBoundary h)
  obtain ⟨place, active, inCell⟩ := p
  unfold pass
  cases inCell with
  | true => simp [hboundary]
  | false =>
    dsimp only
    rw [if_neg Bool.false_ne_true]
    split
    · exact absurd rfl (hfence _)
    · simp [hcell]

theorem after_rowDefaults (hplace : p.place = .behindRow) :
    p.after (.atom .rowDefaults) = { p with place := .row } := by
  have hends : (Token.atom .rowDefaults).endsRow = false := by decide
  have hpass := pass_of_neutral (t := .atom .rowDefaults) (by simp) (by decide) p
  simp [after, placeOf, hplace, hends, hpass]

theorem after_lead (hplace : p.place = .behindRow) (ht : Row.isLead t = true) :
    p.after t = p.pass t := by
  obtain ⟨hne, hformat⟩ : t ≠ .atom .rowDefaults ∧ t.isFormat = true := by
    simpa [Row.isLead] using ht
  have hpass := place_pass p t
  rw [hplace] at hpass
  simp only [after, placeOf, hplace, hne, if_false, hformat, if_true]
  rw [if_neg (by simp), ← hpass]

theorem after_leave (hne : t ≠ .atom .rowDefaults) (p : Position) :
    p.leave.after t = p.leave.pass t := by
  have hplace : p.leave.placeOf t = .outside := by simp [placeOf, leave, hne]
  unfold after
  rw [hplace, if_neg (by simp)]
  exact congrArg (fun place => { p.leave.pass t with place := place }) (place_pass p.leave t).symm

theorem after_of_not_lead (hplace : p.place = .behindRow) (hne : t ≠ .atom .rowDefaults)
    (ht : Row.isLead t = false) : p.after t = p.leave.after t := by
  have hformat : t.isFormat = false := by simpa [Row.isLead, hne] using ht
  have hpass : { p.pass t with place := .outside } = p.leave.pass t := leave_pass p t
  rw [after_leave hne]
  simp only [after, placeOf, hplace, hne, if_false, hformat]
  exact hpass

theorem after_of_neutral (hplace : p.place = .outside ∨ p.place = .owned)
    (hfence : ∀ on, t ≠ .atom (.htmlRtf on)) (hcell : t.category ≠ .cellFormat)
    (hrow : t = .atom .rowDefaults → p.place = .owned ∨ p.reports = false) : p.after t = p := by
  have hkept : p.placeOf t = p.place := by
    unfold placeOf
    split
    · rename_i houtside
      rw [houtside, if_neg]
      intro h
      obtain ⟨ht, hreports⟩ : t = .atom .rowDefaults ∧ p.reports = true := by simpa using h
      obtain howned | hsilent := hrow ht
      · simp [houtside] at howned
      · simp [hreports] at hsilent
    · rename_i hbehind
      simp [hbehind] at hplace
    · rfl
  have hnot : ¬((p.place = .row && t.endsRow) = true) := by
    obtain h | h := hplace <;> simp [h]
  rw [after, hkept, pass_of_neutral hfence hcell, if_neg hnot]

theorem after_inCell (hplace : p.place = .outside ∨ p.place = .owned) (hcell : p.inCell = true)
    (t : Token) : p.after t = { p with inCell := !t.isRightCellBoundary } := by
  obtain ⟨place, active, inCell⟩ := p
  obtain rfl : inCell = true := hcell
  obtain rfl | rfl : place = .outside ∨ place = .owned := hplace
  · simp [after, placeOf, reports, pass]
  · simp [after, placeOf, pass]

theorem after_fence (hplace : p.place = .outside ∨ p.place = .owned) (hcell : p.inCell = false)
    (on : Bool) : p.after (.atom (.htmlRtf on)) = { p with active := !on } := by
  obtain ⟨place, active, inCell⟩ := p
  obtain rfl : inCell = false := hcell
  obtain rfl | rfl : place = .outside ∨ place = .owned := hplace
  · simp [after, placeOf, pass]
  · simp [after, placeOf, pass]

theorem place_start (row : Option Row) (active : Bool) :
    (start row active).place = .outside ∨ (start row active).place = .owned := by
  cases row with
  | none => exact .inl rfl
  | some r => exact .inr rfl

theorem after_start_fence (row : Option Row) (active on : Bool) :
    (start row active).after (.atom (.htmlRtf on)) = start row (!on) :=
  after_fence (place_start row active) rfl on

theorem after_start_inactive (row : Option Row) (hfence : ∀ on, t ≠ .atom (.htmlRtf on)) :
    (start row false).after t = start row false := by
  have hpass : (start row false).pass t = start row false := by
    unfold pass
    split
    · rename_i hcell
      exact absurd hcell Bool.false_ne_true
    · split
      · exact absurd rfl (hfence _)
      · rfl
  have hkept : (start row false).placeOf t = (start row false).place := by
    cases row <;> simp [placeOf, start, reports]
  have hnot : ¬(((start row false).place = .row && t.endsRow) = true) := by
    cases row <;> simp [start]
  rw [after, hkept, hpass, if_neg hnot]

theorem after_start_cell (row : Option Row) (hcell : t.category = .cellFormat) :
    (start row true).after t = { start row true with inCell := !t.isRightCellBoundary } := by
  have hne : t ≠ .atom .rowDefaults := by
    rintro rfl
    exact absurd hcell (by decide)
  have hpass : (start row true).pass t =
      { start row true with inCell := !t.isRightCellBoundary } := by
    unfold pass
    split
    · rename_i hin
      exact absurd hin Bool.false_ne_true
    · split
      · exact absurd hcell (by decide : Category.none ≠ .cellFormat)
      · simp [hcell, start]
  have hkept : (start row true).placeOf t = (start row true).place := by
    cases row <;> simp [placeOf, start, hne]
  have hnot : ¬(((start row true).place = .row && t.endsRow) = true) := by
    cases row <;> simp [start]
  rw [after, hkept, hpass, if_neg hnot]

theorem inside_start (row : Option Row) (active : Bool) :
    (start row active).inside = start row active := by
  cases row <;> rfl

end Position

end RichText
