import RichText.Cell
set_option autoImplicit false

namespace RichText

namespace Token

def borderStyle? : Token → Option BorderStyle
  | .atom (.borderStyle style) => some style
  | _ => none

def borderWidth? : Token → Option Twips
  | .atom (.borderWidth width) => some width
  | _ => none

def borderColor? : Token → Option UInt64
  | .atom (.borderColor index) => some index
  | _ => none

def borderSpacing? : Token → Option Twips
  | .atom (.borderSpacing width) => some width
  | _ => none

def cellVerticalAlign? : Token → Option VerticalAlign
  | .atom (.cellVerticalAlign align) => some align
  | _ => none

def cellBackground? : Token → Option UInt64
  | .atom (.cellBackground index) => some index
  | _ => none

def cellMerge? : Token → Option CellMerge
  | .atom .cellMergeFirst => some .first
  | .atom .cellMerge => some .continues
  | _ => none

def last? {α : Type} (said? : Token → Option α) (ts : List Token) : Option α :=
  (ts.filterMap said?).getLast?

variable {α : Type} {said? : Token → Option α}

theorem last?_append (ts us : List Token) :
    last? said? (ts ++ us) = (last? said? us).or (last? said? ts) := by
  simp [last?]

theorem last?_cons (t : Token) (ts : List Token) :
    last? said? (t :: ts) = (last? said? ts).or (said? t) := by
  have ht : last? said? [t] = said? t := by cases h : said? t <;> simp [last?, h]
  rw [← List.singleton_append, last?_append, ht]

end Token

/-! Borders -/

namespace Border

open Token

/-- The border on a side of which the tokens say all. -/
def ofProperties (side : BorderSide) (properties : List Token) : Border where
  side := side
  style := last? borderStyle? properties
  width := last? borderWidth? properties
  color := last? borderColor? properties
  spacing := last? borderSpacing? properties

theorem absorb?_eq (b : Border) (t : Token) :
    b.absorb? t =
      if b.side.accepts t then
        some { b with
          style := t.borderStyle?.or b.style
          width := t.borderWidth?.or b.width
          color := t.borderColor?.or b.color
          spacing := t.borderSpacing?.or b.spacing }
      else none := by
  unfold absorb?
  split
  · rename_i haccepts
    obtain ⟨_, rfl⟩ | ⟨_, rfl⟩ | ⟨_, rfl⟩ | ⟨-, _, rfl⟩ := (b.side.accepts_iff t).1 haccepts
    all_goals rfl
  · rfl

theorem absorbAll_eq (b : Border) (ts : List Token) :
    b.absorbAll ts =
      let stretch := ts.takeWhile b.side.accepts
      ({ b with
        style := (last? borderStyle? stretch).or b.style
        width := (last? borderWidth? stretch).or b.width
        color := (last? borderColor? stretch).or b.color
        spacing := (last? borderSpacing? stretch).or b.spacing },
        ts.dropWhile b.side.accepts) := by
  induction ts generalizing b with
  | nil => rfl
  | cons t ts ih =>
    rw [absorbAll, absorb?_eq]
    by_cases haccepts : b.side.accepts t = true
    · rw [if_pos haccepts, List.takeWhile_cons_of_pos haccepts,
        List.dropWhile_cons_of_pos haccepts]
      dsimp only
      rw [ih]
      simp only [last?_cons, Option.or_assoc]
    · rw [if_neg haccepts, List.takeWhile_cons_of_neg haccepts,
        List.dropWhile_cons_of_neg haccepts]
      rfl

theorem absorbAll_side (side : BorderSide) (ts : List Token) :
    absorbAll { side := side } ts =
      (ofProperties side (ts.takeWhile side.accepts), ts.dropWhile side.accepts) := by
  rw [absorbAll_eq]
  simp only [Option.or_none]
  rfl

end Border

/-! Cells -/

namespace Cell

open Token

/-- The borders at the positions among the tokens, each with the properties right behind it. -/
def bordersAmong : List Token → List Border
  | [] => []
  | .atom (.borderPosition side) :: ts =>
    .ofProperties side (ts.takeWhile side.accepts) :: bordersAmong ts
  | _ :: ts => bordersAmong ts

/-- `Run run rest boundary`: the run goes through its right boundary, behind which the rest is
left, or it has no right boundary and nothing is left. -/
inductive Run : List Token → List Token → Option Twips → Prop where
  | bounded {front : List Token} (hfront : ∀ t ∈ front, t.isRightCellBoundary = false)
      (position : Twips) (rest : List Token) :
      Run (front ++ [.atom (.rightCellBoundary position)]) rest (some position)
  | unbounded {front : List Token} (hfront : ∀ t ∈ front, t.isRightCellBoundary = false) :
      Run front [] none

theorem Run.append {run rest : List Token} {boundary : Option Twips} (h : Run run rest boundary)
    {front : List Token} (hfront : ∀ t ∈ front, t.isRightCellBoundary = false) :
    Run (front ++ run) rest boundary := by
  cases h with
  | bounded hrun position rest =>
    rw [← List.append_assoc]
    exact .bounded (List.forall_mem_append.2 ⟨hfront, hrun⟩) position rest
  | unbounded hrun => exact .unbounded (List.forall_mem_append.2 ⟨hfront, hrun⟩)

def withRun (cell : Cell) (run : List Token) (boundary : Option Twips) : Cell :=
  { cell with
    rightBoundary := boundary.or cell.rightBoundary
    verticalAlign := (last? cellVerticalAlign? run).or cell.verticalAlign
    background := (last? cellBackground? run).or cell.background
    merge := (last? cellMerge? run).getD cell.merge
    borders := cell.borders ++ bordersAmong run }

theorem describe_eq (cell : Cell) (t : Token) :
    cell.describe t =
      { cell with
        verticalAlign := t.cellVerticalAlign?.or cell.verticalAlign
        background := t.cellBackground?.or cell.background
        merge := t.cellMerge?.getD cell.merge } := by
  cases t with
  | group contents => rfl
  | atom a => cases a <;> rfl

theorem withRun_position (cell : Cell) (side : BorderSide) (run : List Token)
    (boundary : Option Twips) :
    cell.withRun (.atom (.borderPosition side) :: run) boundary =
      { cell with
        borders := cell.borders ++ [Border.ofProperties side (run.takeWhile side.accepts)] }.withRun
          run boundary := by
  have hsilent : ∀ {α : Type} (said? : Token → Option α),
      said? (.atom (.borderPosition side)) = none →
        last? said? (.atom (.borderPosition side) :: run) = last? said? run := by
    intro α said? hposition
    rw [last?_cons, hposition, Option.or_none]
  rw [withRun, withRun, hsilent _ rfl, hsilent _ rfl, hsilent _ rfl, bordersAmong]
  simp

theorem withRun_cons (cell : Cell) {t : Token} (h : ∀ side, t ≠ .atom (.borderPosition side))
    (run : List Token) (boundary : Option Twips) :
    cell.withRun (t :: run) boundary = (cell.describe t).withRun run boundary := by
  have hmerge : ((last? cellMerge? run).or t.cellMerge?).getD cell.merge =
      (last? cellMerge? run).getD (t.cellMerge?.getD cell.merge) := by
    cases last? cellMerge? run <;> rfl
  have hborders : bordersAmong (t :: run) = bordersAmong run := by
    rw [bordersAmong]
    exact h
  rw [describe_eq, withRun, withRun, hborders]
  simp only [last?_cons, Option.or_assoc, hmerge]

theorem describe_of_accepts {side : BorderSide} {t : Token} (h : side.accepts t = true) :
    t.isRightCellBoundary = false ∧ (∀ side, t ≠ .atom (.borderPosition side)) ∧
      ∀ cell : Cell, cell.describe t = cell := by
  obtain ⟨_, rfl⟩ | ⟨_, rfl⟩ | ⟨_, rfl⟩ | ⟨-, _, rfl⟩ := (side.accepts_iff t).1 h
  all_goals exact ⟨rfl, by simp, fun _ => rfl⟩

theorem withRun_append_of_accepts (cell : Cell) {side : BorderSide} {stretch : List Token}
    (h : ∀ t ∈ stretch, side.accepts t = true) (run : List Token) (boundary : Option Twips) :
    cell.withRun (stretch ++ run) boundary = cell.withRun run boundary := by
  induction stretch with
  | nil => rfl
  | cons t stretch ih =>
    obtain ⟨-, hposition, hdescribe⟩ := describe_of_accepts (h t List.mem_cons_self)
    rw [List.cons_append, withRun_cons cell hposition, hdescribe]
    exact ih (fun u hu => h u (List.mem_cons_of_mem t hu))

theorem takeWhile_append_of_dropWhile {p : Token → Bool} {ts run rest : List Token}
    (h : ts.dropWhile p = run ++ rest) :
    (ts.takeWhile p ++ run).takeWhile p = ts.takeWhile p := by
  have hpos : ∀ t ∈ ts.takeWhile p, p t = true := List.all_eq_true.1 List.all_takeWhile
  have hstop : run.takeWhile p = [] := by
    cases run with
    | nil => rfl
    | cons t run =>
      have hhead := List.head?_dropWhile_not p ts
      rw [h] at hhead
      exact List.takeWhile_cons_of_neg (by simpa using hhead)
  rw [List.takeWhile_append_of_pos hpos, hstop, List.append_nil]

theorem take_eq (cell : Cell) (ts : List Token) :
    ∃ run rest boundary, ts = run ++ rest ∧ Run run rest boundary ∧
      cell.take ts = (cell.withRun run boundary, rest) := by
  fun_induction take cell ts with
  | case1 cell =>
    refine ⟨[], [], none, rfl, .unbounded (by simp), ?_⟩
    simp [withRun, bordersAmong, last?]
  | case2 cell ts side ih =>
    have hpos : ∀ t ∈ ts.takeWhile side.accepts, side.accepts t = true :=
      List.all_eq_true.1 List.all_takeWhile
    obtain ⟨run, rest, boundary, hrest, hrun, htake⟩ := ih
    rw [Border.absorbAll_side] at hrest htake ⊢
    dsimp only at hrest htake ⊢
    have hfront : ∀ t ∈ .atom (.borderPosition side) :: ts.takeWhile side.accepts,
        t.isRightCellBoundary = false :=
      List.forall_mem_cons.2 ⟨rfl, fun t ht => (describe_of_accepts (hpos t ht)).1⟩
    refine ⟨.atom (.borderPosition side) :: (ts.takeWhile side.accepts ++ run), rest, boundary,
      ?_, hrun.append hfront, ?_⟩
    · rw [List.cons_append, List.append_assoc, ← hrest, List.takeWhile_append_dropWhile]
    · rw [htake, withRun_position, takeWhile_append_of_dropWhile hrest,
        withRun_append_of_accepts _ hpos]
  | case3 cell ts position =>
    have hfront : ∀ t ∈ ([] : List Token), t.isRightCellBoundary = false := by simp
    refine ⟨[.atom (.rightCellBoundary position)], ts, some position, rfl,
      .bounded hfront position ts, ?_⟩
    have hposition : ∀ side, Token.atom (.rightCellBoundary position) ≠
        .atom (.borderPosition side) := by
      intro side h
      cases h
    have hdescribe : cell.describe (.atom (.rightCellBoundary position)) = cell := rfl
    rw [withRun_cons _ hposition, hdescribe, withRun, bordersAmong, List.append_nil]
    rfl
  | case4 cell ts t hborder hright ih =>
    obtain ⟨run, rest, boundary, hrest, hrun, htake⟩ := ih
    have hfront : ∀ u ∈ [t], u.isRightCellBoundary = false := by
      intro u hu
      rw [List.mem_singleton.1 hu]
      exact isRightCellBoundary_eq_false hright
    exact ⟨t :: run, rest, boundary, by rw [hrest, List.cons_append], hrun.append hfront,
      by rw [htake, withRun_cons cell hborder]⟩

theorem takeWhile_append_cons_of_neg {p : Token → Bool} {t : Token} (h : ¬p t = true)
    (front rest : List Token) : (front ++ t :: rest).takeWhile p = front.takeWhile p := by
  induction front with
  | nil => exact List.takeWhile_cons_of_neg h
  | cons u front ih => simp only [List.cons_append, List.takeWhile_cons, ih]

theorem Run.takeWhile_append {run rest : List Token} {boundary : Option Twips}
    (h : Run run rest boundary) {before after : List Token} {side : BorderSide}
    (hrun : run = before ++ .atom (.borderPosition side) :: after) :
    (after ++ rest).takeWhile side.accepts = after.takeWhile side.accepts := by
  cases h with
  | unbounded => rw [List.append_nil]
  | @bounded front hfront position rest =>
    obtain rfl | ⟨after, t, rfl⟩ := List.eq_nil_or_concat after
    · have hlast := congrArg List.getLast? hrun
      simp at hlast
    · rw [List.concat_eq_append] at hrun ⊢
      have hsplit : front ++ [.atom (.rightCellBoundary position)] =
          (before ++ .atom (.borderPosition side) :: after) ++ [t] := by
        rw [hrun, List.append_assoc, List.cons_append]
      obtain ⟨-, ht⟩ := List.append_inj' hsplit rfl
      obtain rfl := (List.cons.inj ht).1
      have hstop : ¬side.accepts (.atom (.rightCellBoundary position)) = true :=
        Bool.false_ne_true
      rw [List.append_assoc, List.singleton_append, takeWhile_append_cons_of_neg hstop,
        takeWhile_append_cons_of_neg hstop]

/-- A run goes through its first right boundary, or to the end of the tokens. Of each property of
the cell the last one in the run counts, and the borders of the cell are those at the positions in
the run. A border that is read by itself is the same, and takes as many tokens. -/
theorem take_reads (row : Option Row) (ts : List Token) :
    ∃ run rest boundary, ts = run ++ rest ∧ Run run rest boundary ∧
      Cell.take { row := row } ts =
        ({ row := row
           rightBoundary := boundary
           verticalAlign := last? cellVerticalAlign? run
           background := last? cellBackground? run
           merge := (last? cellMerge? run).getD .none
           borders := bordersAmong run }, rest) ∧
      ∀ before side after, run = before ++ .atom (.borderPosition side) :: after →
        let stretch := after.takeWhile side.accepts
        Border.take? (.atom (.borderPosition side) :: (after ++ rest)) =
          some (.ofProperties side stretch, (after ++ rest).drop stretch.length) := by
  obtain ⟨run, rest, boundary, hts, hrun, htake⟩ := take_eq { row := row } ts
  refine ⟨run, rest, boundary, hts, hrun, ?_, ?_⟩
  · rw [htake]
    simp [withRun]
  · intro before side after hposition stretch
    have hstretch : (after ++ rest).takeWhile side.accepts = stretch :=
      hrun.takeWhile_append hposition
    have hsplit := List.takeWhile_append_dropWhile (p := side.accepts) (l := after ++ rest)
    rw [hstretch] at hsplit
    have hdrop : (after ++ rest).dropWhile side.accepts = (after ++ rest).drop stretch.length :=
      calc (after ++ rest).dropWhile side.accepts
          = (stretch ++ (after ++ rest).dropWhile side.accepts).drop stretch.length :=
            List.drop_left.symm
        _ = (after ++ rest).drop stretch.length := by rw [hsplit]
    rw [Border.take?, Border.absorbAll_side, hstretch, hdrop]

/-- The border of a cell ends where a spacing stands. -/
example {side : BorderSide} (hside : side.isCell = true) (width : Twips) (after : List Token) :
    bordersAmong (.atom (.borderPosition side) :: .atom (.borderSpacing width) :: after) =
      .ofProperties side [] :: bordersAmong after := by
  have hspacing : ¬side.accepts (.atom (.borderSpacing width)) = true := by
    simp [BorderSide.accepts_iff, hside]
  rw [bordersAmong, List.takeWhile_cons_of_neg hspacing]
  rfl

end Cell

end RichText
