import RichText.Group
import RichText.Style
import RichText.Field
import RichText.Picture
set_option autoImplicit false

namespace RichText

inductive Action where
  | pass
  /-- From here on tokens count, or do not. -/
  | activate (active : Bool)
  | record (entries : List Entry)
  | cell (cell : Cell)
  /-- A table, whose rows are scopes of their own. -/
  | rows (rows : List Row)
  | scope (contents : List Token)
  | tab
  | text (s : String)
  | breakMark (kind : BreakKind)
  | picture (picture : Picture)

namespace Action

def enter (contents : List Token) : Action :=
  if Group.isIgnorable contents then .pass else .scope contents

/-- A group without a role of its own. A description of the numbering is recorded where it
stands. -/
def ofPlainGroup (contents : List Token) : Action :=
  if Group.describesNumbering contents then
    .record ((Group.paragraphFormats contents).map .token)
  else enter contents

def ofGroup (contents : List Token) : Action :=
  match Group.destination? contents with
  | some .listTextFallback | some .numberingTextFallback | some .header | some .footer => .pass
  | some .fieldInstructions =>
    match Field.hyperlink? contents with
    | some link => .record [.hyperlink link]
    | none => .pass
  | some .bookmarkStart => .record [.bookmark (Field.bookmark contents true)]
  | some .bookmarkEnd => .record [.bookmark (Field.bookmark contents false)]
  | some .picture => .picture (Picture.ofGroup contents)
  | some .fieldResult | some .htmlTag | some (.other _) | none => ofPlainGroup contents

def ofAtom (a : Atom) : Action :=
  if a.category.contains .format then .record [.atom a]
  else
    match a with
    | .breakMark .tab => .tab
    | .breakMark kind => .breakMark kind
    | .text s => .text s
    | _ => .pass

/-- The action of an atom and what it takes of the tokens after it. Row defaults open a table
unless a row is open already. -/
def nextOfAtom (row : Option Row) (a : Atom) (ts : List Token) : Action × List Token :=
  if a = .rowDefaults && row.isNone then
    let table := Row.take (.atom a :: ts)
    (.rows table.1, table.2)
  else if a.category = .cellFormat then
    let cell := Cell.take { row := row } (.atom a :: ts)
    (.cell cell.1, cell.2)
  else
    match a with
    | .borderPosition side =>
      let border := Border.absorbAll { side := side } ts
      (.record [.border border.1], border.2)
    | _ => (ofAtom a, ts)

/-- The next action in a scope and the tokens after it. While tokens do not count, fences and
groups are still looked at, since a fence inside a group may let its tokens count again. -/
def next (row : Option Row) (active : Bool) : Token → List Token → Action × List Token
  | .atom (.htmlRtf on), ts => (.activate (!on), ts)
  | .atom a, ts => if active then nextOfAtom row a ts else (.pass, ts)
  | .group contents, ts => (if active then ofGroup contents else enter contents, ts)

theorem enter_eq_scope {contents inner : List Token} (h : enter contents = .scope inner) :
    inner = contents := by
  unfold enter at h
  split at h <;> simp_all

theorem enter_ne_rows (contents : List Token) (rows : List Row) : enter contents ≠ .rows rows := by
  unfold enter
  split <;> simp

theorem ofPlainGroup_eq_scope {contents inner : List Token}
    (h : ofPlainGroup contents = .scope inner) : inner = contents := by
  unfold ofPlainGroup at h
  split at h
  · simp at h
  · exact enter_eq_scope h

theorem ofPlainGroup_ne_rows (contents : List Token) (rows : List Row) :
    ofPlainGroup contents ≠ .rows rows := by
  unfold ofPlainGroup
  split
  · simp
  · exact enter_ne_rows contents rows

theorem ofGroup_eq_scope {contents inner : List Token} (h : ofGroup contents = .scope inner) :
    inner = contents := by
  unfold ofGroup at h
  split at h
  case h_5 => split at h <;> simp at h
  case h_9 | h_10 | h_11 | h_12 => exact ofPlainGroup_eq_scope h
  all_goals simp at h

theorem ofGroup_ne_rows (contents : List Token) (rows : List Row) :
    ofGroup contents ≠ .rows rows := by
  unfold ofGroup
  split
  case h_5 => split <;> simp
  case h_9 | h_10 | h_11 | h_12 => exact ofPlainGroup_ne_rows contents rows
  all_goals simp

theorem ofAtom_ne_scope (a : Atom) (contents : List Token) : ofAtom a ≠ .scope contents := by
  intro h
  unfold ofAtom at h
  split at h
  · simp at h
  · split at h <;> simp at h

theorem ofAtom_ne_rows (a : Atom) (rows : List Row) : ofAtom a ≠ .rows rows := by
  intro h
  unfold ofAtom at h
  split at h
  · simp at h
  · split at h <;> simp at h

theorem nextOfAtom_ne_scope (row : Option Row) (a : Atom) (ts contents : List Token) :
    (nextOfAtom row a ts).1 ≠ .scope contents := by
  unfold nextOfAtom
  split
  · simp
  split
  · simp
  split
  · simp
  · exact ofAtom_ne_scope a contents

theorem nextOfAtom_suffix (row : Option Row) (a : Atom) (ts : List Token) :
    (nextOfAtom row a ts).2 <:+ ts := by
  unfold nextOfAtom
  split
  · rename_i h
    obtain ⟨rfl, _⟩ : a = .rowDefaults ∧ row.isNone = true := by simpa using h
    exact Row.take_rowDefaults_suffix ts
  split
  · exact Cell.take_cons_suffix _ _ ts
  split
  · exact Border.absorbAll_suffix _ ts
  · exact List.suffix_rfl

theorem next_suffix (row : Option Row) (active : Bool) (t : Token) (ts : List Token) :
    (next row active t ts).2 <:+ ts := by
  unfold next
  split
  · exact List.suffix_rfl
  · split
    · exact nextOfAtom_suffix _ _ ts
    · exact List.suffix_rfl
  · exact List.suffix_rfl

theorem nodes_rest_lt {row : Option Row} {active : Bool} {t : Token} {ts rest : List Token}
    {action : Action} (h : next row active t ts = (action, rest)) :
    Token.nodesOfList rest < Token.nodesOfList (t :: ts) := by
  have hsuffix : (next row active t ts).2 <:+ ts := next_suffix row active t ts
  rw [h] at hsuffix
  have hle : Token.nodesOfList rest ≤ Token.nodesOfList ts :=
    Token.nodesOfList_le_of_suffix hsuffix
  have hpos := t.nodes_pos
  simp only [Token.nodesOfList]
  omega

theorem eq_group_of_next_eq_scope {row : Option Row} {active : Bool} {t : Token}
    {ts contents rest : List Token} (h : next row active t ts = (.scope contents, rest)) :
    t = .group contents := by
  unfold next at h
  split at h
  · simp at h
  · split at h
    · exact absurd (congrArg Prod.fst h) (nextOfAtom_ne_scope _ _ _ _)
    · simp at h
  · have h' := congrArg Prod.fst h
    dsimp only at h'
    split at h'
    · rw [ofGroup_eq_scope h']
    · rw [enter_eq_scope h']

theorem row_eq_none_of_next_eq_rows {row : Option Row} {active : Bool} {t : Token}
    {ts rest : List Token} {rows : List Row} (h : next row active t ts = (.rows rows, rest)) :
    row = none := by
  unfold next at h
  split at h
  · simp at h
  · split at h
    · have h' := congrArg Prod.fst h
      unfold nextOfAtom at h'
      split at h'
      · simp_all
      split at h'
      · simp at h'
      split at h'
      · simp at h'
      · exact absurd h' (ofAtom_ne_rows _ _)
    · simp at h
  · have h' := congrArg Prod.fst h
    dsimp only at h'
    split at h'
    · exact absurd h' (ofGroup_ne_rows _ _)
    · unfold enter at h'
      split at h' <;> simp at h'

end Action

end RichText
