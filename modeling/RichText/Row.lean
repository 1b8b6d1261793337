import RichText.Token
set_option autoImplicit false

/-!
Table rows: how a flat run of tokens falls into rows.

A row is a run of format tokens, the row defaults, and everything through the token that ends the
row. Another row follows only when row defaults are reached through format tokens alone; those
format tokens open it. Main statement: `contents_take`, the rows and the rest are the run.
-/
namespace RichText

structure Row where
  index : Nat := 0
  contents : List Token := []
deriving DecidableEq

def Token.rowLeftOffset? : Token → Option Twips
  | .atom (.rowLeftOffset offset) => some offset
  | _ => none

def Token.isRightCellBoundary : Token → Bool
  | .atom (.rightCellBoundary _) => true
  | _ => false

theorem Token.category_of_isRightCellBoundary {t : Token} (h : t.isRightCellBoundary = true) :
    t.category = .cellFormat := by
  unfold isRightCellBoundary at h
  split at h
  · rfl
  · exact absurd h Bool.false_ne_true

theorem Token.isRightCellBoundary_eq_false {t : Token}
    (h : ∀ position, t ≠ .atom (.rightCellBoundary position)) : t.isRightCellBoundary = false := by
  unfold isRightCellBoundary
  split
  · exact absurd rfl (h _)
  · rfl

namespace Row

def leftOffset (row : Row) : Twips := (row.contents.filterMap Token.rowLeftOffset?).getLastD 0

def declaredCells (row : Row) : Nat := row.contents.countP Token.isRightCellBoundary

def isLead (t : Token) : Bool := t ≠ .atom .rowDefaults && t.isFormat

/-- Splits after the first token that ends a row; without one, everything is in front. -/
def splitAfterEnd : List Token → List Token × List Token
  | [] => ([], [])
  | t :: ts =>
    if t.endsRow then ([t], ts)
    else
      let (front, rest) := splitAfterEnd ts
      (t :: front, rest)

/-- The tokens of the next row, if row defaults are reached through format tokens. -/
def takeContents? (ts : List Token) : Option (List Token × List Token) :=
  match ts.dropWhile isLead with
  | .atom .rowDefaults :: rest =>
    let (body, rest) := splitAfterEnd rest
    some (ts.takeWhile isLead ++ .atom .rowDefaults :: body, rest)
  | _ => none

theorem splitAfterEnd_append (ts : List Token) :
    (splitAfterEnd ts).1 ++ (splitAfterEnd ts).2 = ts := by
  induction ts with
  | nil => rfl
  | cons t ts ih =>
    unfold splitAfterEnd
    split
    · rfl
    · simp [ih]

theorem takeContents?_append {ts contents rest : List Token}
    (h : takeContents? ts = some (contents, rest)) : contents ++ rest = ts := by
  unfold takeContents? at h
  split at h
  · rename_i after h'
    obtain ⟨rfl, rfl⟩ := Prod.mk.inj (Option.some.inj h)
    rw [List.append_assoc, List.cons_append, splitAfterEnd_append, ← h',
      List.takeWhile_append_dropWhile]
  · simp at h

theorem length_lt_of_takeContents? {ts contents rest : List Token}
    (h : takeContents? ts = some (contents, rest)) : rest.length < ts.length := by
  have happ := takeContents?_append h
  have hne : contents ≠ [] := by
    rintro rfl
    unfold takeContents? at h
    split at h <;> simp at h
  have hpos := List.length_pos_iff.2 hne
  rw [← happ, List.length_append]; omega

def takeFrom (index : Nat) (ts : List Token) : List Row × List Token :=
  match _h : takeContents? ts with
  | some (contents, rest) =>
    let (rows, rest') := takeFrom (index + 1) rest
    (⟨index, contents⟩ :: rows, rest')
  | none => ([], ts)
termination_by ts.length
decreasing_by exact length_lt_of_takeContents? _h

def take (ts : List Token) : List Row × List Token := takeFrom 0 ts

theorem takeFrom_of_some {ts contents rest : List Token}
    (h : takeContents? ts = some (contents, rest)) (index : Nat) :
    takeFrom index ts =
      (⟨index, contents⟩ :: (takeFrom (index + 1) rest).1, (takeFrom (index + 1) rest).2) := by
  rw [takeFrom]
  split
  · rename_i h'
    obtain ⟨rfl, rfl⟩ := Prod.mk.inj (Option.some.inj (h.symm.trans h'))
    rfl
  · rename_i h'
    exact absurd (h.symm.trans h') (by simp)

theorem takeFrom_of_none {ts : List Token} (h : takeContents? ts = none) (index : Nat) :
    takeFrom index ts = ([], ts) := by
  rw [takeFrom]
  split
  · rename_i h'
    exact absurd (h.symm.trans h') (by simp)
  · rfl

theorem contents_takeFrom (index : Nat) (ts : List Token) :
    (takeFrom index ts).1.flatMap Row.contents ++ (takeFrom index ts).2 = ts := by
  fun_induction takeFrom index ts with
  | case1 index ts contents rest h rows rest' hrec ih =>
    rw [hrec] at ih
    rw [List.flatMap_cons, List.append_assoc, ih]
    exact takeContents?_append h
  | case2 index ts h => rfl

theorem contents_take (ts : List Token) :
    (take ts).1.flatMap Row.contents ++ (take ts).2 = ts :=
  contents_takeFrom 0 ts

theorem takeFrom_suffix (index : Nat) (ts : List Token) : (takeFrom index ts).2 <:+ ts :=
  ⟨_, contents_takeFrom index ts⟩

theorem takeContents?_rowDefaults (ts : List Token) :
    takeContents? (.atom .rowDefaults :: ts) =
      some (.atom .rowDefaults :: (splitAfterEnd ts).1, (splitAfterEnd ts).2) := by
  have h : isLead (.atom .rowDefaults) = false := rfl
  simp [takeContents?, h]

theorem take_rowDefaults_suffix (ts : List Token) :
    (take (.atom .rowDefaults :: ts)).2 <:+ ts := by
  rw [take, takeFrom_of_some (takeContents?_rowDefaults ts)]
  exact (takeFrom_suffix _ _).trans ⟨_, splitAfterEnd_append ts⟩

end Row

end RichText
