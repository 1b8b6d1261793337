import Mathlib.Logic.Relation
import RichText.Proofs.Walk.Stations
set_option autoImplicit false

/-!
The walk step by step, with a stack of the scopes that it is in and a log of the tokens that it
looks at. Main statements: `step_of_step?`, all that a step can do, and `completes_run`, the steps
come to what the walk comes to.
-/
namespace RichText

structure Frame where
  row : Option Row := none
  /-- The scope is the row itself, not a group inside. -/
  isRow : Bool := false
  active : Bool := true
  tabs : Nat := 0
  /-- Rows of a table that are entered before the walk goes on. -/
  rows : List Row := []
  tokens : List Token
  /-- All tokens before the next one in depth-first order. -/
  passed : List Token := []

namespace Frame

def pending (f : Frame) : List Token := f.rows.flatMap Row.contents ++ f.tokens

def rowInside (f : Frame) (r : Row) : Frame where
  row := some r
  isRow := true
  active := f.active
  tokens := r.contents
  passed := f.passed

def afterRow (f : Frame) (r : Row) (rows : List Row) : Frame :=
  { f with rows := rows, passed := f.passed ++ Token.preorderOfList r.contents }

def groupInside (f : Frame) (t : Token) (contents : List Token) : Frame where
  row := f.row
  active := f.active
  tokens := contents
  passed := f.passed ++ [t]

/-- The scope with the table at the front of its tokens opened. -/
def withTable (f : Frame) : Frame :=
  { f with rows := (Row.take f.tokens).1, tokens := (Row.take f.tokens).2 }

def after (f : Frame) (rest : List Token) : Frame :=
  { f with
    tokens := rest
    passed := f.passed ++ Token.preorderOfList (Token.taken f.tokens rest) }

end Frame

/-- A token that a walk looks at. -/
structure Sighting where
  /-- All tokens before it in depth-first order, which tell it from others like it. -/
  passed : List Token
  token : Token
  inRow : Bool
  opensTable : Bool

def Action.opensTable : Action → Bool
  | .rows _ => true
  | _ => false

def Station.sighting (s : Station) : Sighting where
  passed := s.passed
  token := s.token
  inRow := s.row.isSome
  opensTable := s.action.opensTable

structure CallStack where
  /-- Innermost first, as the styles of the scopes. -/
  frames : List Frame
  scopes : List Style := []
  events : Array Event := #[]
  log : List Sighting := []

namespace CallStack

def push (s : CallStack) (f : Frame) (frames : List Frame) : CallStack :=
  { s with frames := f :: frames, scopes := s.scopes.headD {} :: s.scopes }

def look (s : CallStack) (f : Frame) (t : Token) (opensTable : Bool) : CallStack :=
  { s with log := s.log ++ [⟨f.passed, t, f.row.isSome, opensTable⟩] }

def update (s : CallStack) (f : Frame) (frames : List Frame) (w : Walk) : CallStack :=
  { s with
    frames := { f with active := w.active, tabs := w.tabs } :: frames
    scopes := w.scopes
    events := w.events }

def dispatch (doc : Document) (s : CallStack) (f : Frame) (frames : List Frame) (w : Walk)
    (t : Token) (ts : List Token) : CallStack :=
  match Action.next f.row f.active t ts with
  | (.scope contents, rest) =>
    (s.look f t false).push (f.groupInside t contents) (f.after rest :: frames)
  | (.rows rows, rest) =>
    { s.look f t true with frames := { f with rows := rows, tokens := rest } :: frames }
  | (action, rest) => (s.look f t false).update (f.after rest) frames (w.perform doc action)

/-- One step: enters the next row of a table, looks at the next token or leaves the scope. There is
none at the end, and none for a token that has no scope to be looked at in. -/
def step? (doc : Document) (s : CallStack) : Option CallStack :=
  match s.frames with
  | [] => none
  | f :: frames =>
    match f.rows, f.tokens, s.scopes with
    | r :: rows, _, _ => some (s.push (f.rowInside r) (f.afterRow r rows :: frames))
    | [], t :: ts, style :: enclosing =>
      let w := { style := style, enclosing := enclosing, active := f.active, tabs := f.tabs,
                 events := s.events }
      some (s.dispatch doc f frames w t ts)
    | [], _ :: _, [] => none
    | [], [], _ => some { s with frames := frames, scopes := s.scopes.tail }

def start (doc : Document) : CallStack :=
  let empty : CallStack := { frames := [] }
  if Group.isIgnorable doc.body then empty else empty.push { tokens := doc.body } []

def Reaches (doc : Document) : CallStack → CallStack → Prop :=
  Relation.ReflTransGen (fun s s' => step? doc s = some s')

/-! Steps -/

variable {doc : Document} {s s' : CallStack}

inductive Step : CallStack → CallStack → Prop where
  | row {s : CallStack} {f : Frame} {frames : List Frame} {r : Row} {rows : List Row}
      (hframes : s.frames = f :: frames) (hrows : f.rows = r :: rows) :
      Step s (s.push (f.rowInside r) (f.afterRow r rows :: frames))
  | leave {s : CallStack} {f : Frame} {frames : List Frame}
      (hframes : s.frames = f :: frames) (hrows : f.rows = []) (htokens : f.tokens = []) :
      Step s { s with frames := frames, scopes := s.scopes.tail }
  | group {s : CallStack} {f : Frame} {frames : List Frame} {contents ts : List Token}
      (hframes : s.frames = f :: frames) (hrows : f.rows = [])
      (htokens : f.tokens = .group contents :: ts) :
      Step s ((s.look f (.group contents) false).push (f.groupInside (.group contents) contents)
        (f.after ts :: frames))
  | table {s : CallStack} {f : Frame} {frames : List Frame} {ts : List Token}
      (hframes : s.frames = f :: frames) (hrows : f.rows = [])
      (htokens : f.tokens = .atom .rowDefaults :: ts) (hrow : f.row = none) :
      Step s { s.look f (.atom .rowDefaults) true with frames := f.withTable :: frames }
  | perform {s : CallStack} {f : Frame} {frames : List Frame} {t : Token} {ts rest : List Token}
      {w : Walk} (hframes : s.frames = f :: frames) (hrows : f.rows = [])
      (htokens : f.tokens = t :: ts) (hrest : rest <:+ ts)
      (hscopes : w.scopes.length = s.scopes.length) :
      Step s ((s.look f t false).update (f.after rest) frames w)

theorem length_scopes_perform (doc : Document) (w : Walk) (action : Action) :
    (w.perform doc action).scopes.length = w.scopes.length := by
  obtain ⟨reported, -, henclosing⟩ := Walk.frames_perform doc w action
  simp [Walk.scopes, henclosing]

theorem step_dispatch {f : Frame} {frames : List Frame} {w : Walk} {t : Token} {ts : List Token}
    (hframes : s.frames = f :: frames) (hrows : f.rows = []) (htokens : f.tokens = t :: ts)
    (hscopes : w.scopes = s.scopes) : Step s (s.dispatch doc f frames w t ts) := by
  unfold dispatch
  split
  · rename_i contents rest hnext
    obtain ⟨rfl, rfl, -⟩ := Action.scope_of_reads (Action.reads_of_next_eq hnext)
    exact .group hframes hrows htokens
  · rename_i rows rest hnext
    obtain ⟨hrow, -, rfl, rfl, rfl⟩ := Action.rows_of_reads (Action.reads_of_next_eq hnext)
    rw [← htokens]
    exact .table hframes hrows htokens hrow
  · rename_i action rest _ _ hnext
    refine .perform hframes hrows htokens (Action.reads_of_next_eq hnext).suffix ?_
    rw [length_scopes_perform, hscopes]

theorem step_of_step? (h : step? doc s = some s') : Step s s' := by
  unfold step? at h
  split at h
  · simp at h
  · rename_i f frames hframes
    split at h
    · rename_i hrows
      obtain rfl := Option.some.inj h
      exact .row hframes hrows
    · rename_i hrows htokens hscopes
      obtain rfl := Option.some.inj h
      exact step_dispatch hframes hrows htokens hscopes.symm
    · simp at h
    · rename_i hrows htokens
      obtain rfl := Option.some.inj h
      exact .leave hframes hrows htokens

section

variable {f : Frame} {frames : List Frame} {w : Walk} {t : Token} {ts rest : List Token}

theorem dispatch_perform {action : Action} (h : Action.Reads f.row f.active t ts action rest)
    (hscope : ∀ contents, action ≠ .scope contents) (hrows : ∀ rows, action ≠ .rows rows) :
    s.dispatch doc f frames w t ts =
      (s.look f t false).update (f.after rest) frames (w.perform doc action) := by
  have hnext := h.next_eq
  unfold dispatch
  split
  · rename_i heq
    exact absurd (congrArg Prod.fst (hnext.symm.trans heq)) (hscope _)
  · rename_i heq
    exact absurd (congrArg Prod.fst (hnext.symm.trans heq)) (hrows _)
  · rename_i heq
    obtain ⟨rfl, rfl⟩ := Prod.mk.inj (hnext.symm.trans heq)
    rfl

theorem dispatch_scope {contents : List Token}
    (h : Action.Reads f.row f.active t ts (.scope contents) rest) :
    s.dispatch doc f frames w t ts =
      (s.look f t false).push (f.groupInside t contents) (f.after rest :: frames) := by
  rw [dispatch, h.next_eq]

theorem dispatch_rows {rows : List Row}
    (h : Action.Reads f.row f.active t ts (.rows rows) rest) :
    s.dispatch doc f frames w t ts =
      { s.look f t true with frames := { f with rows := rows, tokens := rest } :: frames } := by
  rw [dispatch, h.next_eq]

end

/-! Whole walks -/

theorem taken_of_append {ts us rest : List Token} (h : us ++ rest = ts) :
    Token.taken ts rest = us := by
  simp [Token.taken, ← h]

theorem log_append (log : List Sighting) (first : Station) (inside later : List Station) :
    log ++ (first :: (inside ++ later)).map Station.sighting =
      log ++ [first.sighting] ++ inside.map Station.sighting ++ later.map Station.sighting := by
  simp

section

variable {row : Option Row} {isRow : Bool} {rows : List Row} {t : Token}
  {ts rest passed : List Token} {w w' inner : Walk} {frames : List Frame} {log : List Sighting}

def frameOf (row : Option Row) (isRow : Bool) (rows : List Row) (ts passed : List Token)
    (w : Walk) : Frame where
  row := row
  isRow := isRow
  active := w.active
  tabs := w.tabs
  rows := rows
  tokens := ts
  passed := passed

def stackOf (f : Frame) (w : Walk) (frames : List Frame) (log : List Sighting) : CallStack where
  frames := f :: frames
  scopes := w.scopes
  events := w.events
  log := log

/-- The walk `w` stands at the tokens of a scope, and the steps come to where the walk `w'` leaves
the scope, whatever is below it. What they look at is the stations between. -/
def Completes (doc : Document) (row : Option Row) (passed ts : List Token) (w : Walk)
    (stations : List Station) (w' : Walk) : Prop :=
  w'.enclosing.length = w.enclosing.length ∧ ∀ isRow frames log,
    Reaches doc (stackOf (frameOf row isRow [] ts passed w) w frames log)
      { frames := frames, scopes := w'.enclosing, events := w'.events,
        log := log ++ stations.map Station.sighting }

theorem reaches_head (h : step? doc s = some s') {last : CallStack} (hrest : Reaches doc s' last) :
    Reaches doc s last :=
  Relation.ReflTransGen.head h hrest

theorem reaches_dispatch {last : CallStack}
    (h : Reaches doc (dispatch doc (stackOf (frameOf row isRow [] (t :: ts) passed w) w frames log)
      (frameOf row isRow [] (t :: ts) passed w) frames w t ts) last) :
    Reaches doc (stackOf (frameOf row isRow [] (t :: ts) passed w) w frames log) last :=
  reaches_head rfl h

theorem reaches_leave {inside : Option Row} {contents passed' : List Token}
    {stations : List Station} (h : Completes doc inside passed' contents w.enter stations inner)
    (isRow : Bool) (g : Frame) (frames : List Frame) (log : List Sighting) :
    Reaches doc
      (stackOf (frameOf inside isRow [] contents passed' w.enter) w.enter (g :: frames) log)
      (stackOf g (w.leave inner) frames (log ++ stations.map Station.sighting)) := by
  obtain ⟨hlength, hreaches⟩ := h
  have hscopes : (w.leave inner).scopes = inner.enclosing := by
    cases hinner : inner.enclosing with
    | nil => simp [hinner, Walk.enter] at hlength
    | cons style enclosing => simp [Walk.scopes, Walk.leave, hinner]
  have hsteps := hreaches isRow (g :: frames) log
  rw [← hscopes] at hsteps
  exact hsteps

theorem length_enclosing_leave {inside : Option Row} {contents passed' : List Token}
    {stations : List Station} (h : Completes doc inside passed' contents w.enter stations inner) :
    (w.leave inner).enclosing.length = w.enclosing.length := by
  simp [Walk.leave, h.1, Walk.enter]

theorem reaches_rows {stations : List Station}
    (h : Walk.VisitsRows doc (fun row passed _ => Completes doc row passed) passed rows w stations
      w')
    (isRow : Bool) (ts : List Token) (frames : List Frame) (log : List Sighting) :
    w'.enclosing.length = w.enclosing.length ∧
      Reaches doc (stackOf (frameOf none isRow rows ts passed w) w frames log)
        (stackOf (frameOf none isRow [] ts
          (passed ++ Token.preorderOfList (rows.flatMap Row.contents)) w') w' frames
          (log ++ stations.map Station.sighting)) := by
  induction h generalizing log with
  | nil passed w =>
    simp only [List.flatMap_nil, Token.preorderOfList, List.append_nil, List.map_nil]
    exact ⟨trivial, Relation.ReflTransGen.refl⟩
  | @cons passed r rows w w' stations hrow _ ih =>
    have hinside := reaches_leave hrow true
      (frameOf none isRow rows ts (passed ++ Token.preorderOfList r.contents) w) frames log
    obtain ⟨hlength, hrest⟩ := ih (log ++ (Walk.stations doc (some r) passed [] r.contents
      w.enter).map Station.sighting)
    refine ⟨hlength.trans (length_enclosing_leave hrow), ?_⟩
    rw [List.map_append, ← List.append_assoc log, List.flatMap_cons, Token.preorderOfList_append,
      ← List.append_assoc passed]
    exact reaches_head rfl (Relation.ReflTransGen.trans hinside hrest)

/-- The steps come to what the walk comes to, by way of its stations. -/
theorem completes_run (doc : Document) (row : Option Row) (passed front ts : List Token)
    (w : Walk) :
    Completes doc row passed ts w (Walk.stations doc row passed front ts w)
      (Walk.run doc row ts w) := by
  refine Walk.run_stations doc (motive := fun row passed _ => Completes doc row passed)
    ?nil ?perform ?scope ?table row passed front ts w
  case nil =>
    intro row passed front w
    refine ⟨rfl, fun isRow frames log => ?_⟩
    rw [List.map_nil, List.append_nil]
    exact Relation.ReflTransGen.single rfl
  case perform =>
    intro row passed front t ts w action rest stations w' hreads hscope hrows hafter
    obtain ⟨hlength, hreaches⟩ := hafter
    refine ⟨?_, fun isRow frames log => reaches_dispatch ?_⟩
    · have hkept := length_scopes_perform doc w action
      simp only [Walk.scopes, List.length_cons] at hkept
      omega
    · rw [dispatch_perform (f := frameOf row isRow [] (t :: ts) passed w) hreads hscope hrows]
      have hopens : action.opensTable = false := by
        cases action with
        | rows rows => exact absurd rfl (hrows rows)
        | _ => rfl
      have hrest := hreaches isRow frames (log ++ [⟨passed, t, row.isSome, action.opensTable⟩])
      rw [List.append_assoc, hopens] at hrest
      rw [List.map_cons, Station.sighting, hopens]
      exact hrest
  case scope =>
    intro row passed front contents ts w stations w' inner hreads hinner hrest
    obtain ⟨hlength, hreaches⟩ := hrest
    refine ⟨hlength.trans (length_enclosing_leave hinner), fun isRow frames log =>
      reaches_dispatch ?_⟩
    rw [dispatch_scope (f := frameOf row isRow [] (.group contents :: ts) passed w) hreads]
    have hinside := reaches_leave hinner false
      (frameOf row isRow [] ts (passed ++ (Token.group contents).preorder) w) frames
      (log ++ [⟨passed, .group contents, row.isSome, false⟩])
    have hrest := hreaches isRow frames ((log ++ [⟨passed, .group contents, row.isSome, false⟩]) ++
      inner.map Station.sighting)
    have hafter : (frameOf row isRow [] (.group contents :: ts) passed w).after ts =
        frameOf row isRow [] ts (passed ++ (Token.group contents).preorder) w := by
      simp [Frame.after, frameOf, Token.preorderOfList]
    rw [hafter, log_append]
    exact Relation.ReflTransGen.trans hinside hrest
  case table =>
    intro passed front ts w stations middle stations' w' table hactive hrows hrest
    obtain ⟨hlength, hreaches⟩ := hrest
    refine ⟨hlength.trans (reaches_rows hrows false [] [] []).1,
      fun isRow frames log => reaches_dispatch ?_⟩
    have hreads : Action.Reads none true (.atom .rowDefaults) ts (.rows table.1) table.2 := .table
    rw [← hactive] at hreads
    rw [dispatch_rows (f := frameOf none isRow [] (.atom .rowDefaults :: ts) passed w) hreads]
    obtain ⟨-, hinside⟩ := reaches_rows hrows isRow table.2 frames
      (log ++ [⟨passed, .atom .rowDefaults, false, true⟩])
    have hrest := hreaches isRow frames (log ++ [⟨passed, .atom .rowDefaults, false, true⟩] ++
      stations.map Station.sighting)
    have htaken : Token.taken (.atom .rowDefaults :: ts) table.2 =
        table.1.flatMap Row.contents :=
      taken_of_append (Row.contents_take (.atom .rowDefaults :: ts))
    rw [htaken] at hrest
    rw [log_append]
    exact Relation.ReflTransGen.trans hinside hrest

end

theorem reaches_walk (doc : Document) : ∃ last, Reaches doc (start doc) last ∧ last.frames = [] ∧
    last.events = doc.walk.events ∧ last.log = doc.stations.map Station.sighting := by
  by_cases hignorable : Group.isIgnorable doc.body = true
  · have hstart : start doc = { frames := [] } := if_pos hignorable
    have hwalk : doc.walk = {} := if_pos hignorable
    have hstations : doc.stations = [] := if_pos hignorable
    rw [hstart, hwalk, hstations]
    exact ⟨_, Relation.ReflTransGen.refl, rfl, rfl, rfl⟩
  · have hstart : start doc = stackOf (frameOf none false [] doc.body [] {}) {} [] [] :=
      if_neg hignorable
    have hwalk : doc.walk = Walk.run doc none doc.body {} := if_neg hignorable
    have hstations : doc.stations = Walk.stations doc none [] [] doc.body {} := if_neg hignorable
    obtain ⟨-, hreaches⟩ := completes_run doc none [] [] doc.body {}
    rw [hstart, hwalk, hstations]
    exact ⟨_, hreaches false [] [], rfl, rfl, List.nil_append _⟩

/-- From wherever the steps come to, they go on to the one end. -/
theorem reaches_last {last : CallStack} (hlast : Reaches doc (start doc) last)
    (hend : last.frames = []) (h : Reaches doc (start doc) s) : Reaches doc s last := by
  have hunique : Relator.RightUnique (fun s s' => step? doc s = some s') := by
    intro a b c hb hc
    exact Option.some.inj (hb.symm.trans hc)
  obtain h | h := Relation.ReflTransGen.total_of_right_unique hunique h hlast
  · exact h
  · cases Relation.ReflTransGen.cases_head h with
    | inl heq =>
      rw [heq]
      exact Relation.ReflTransGen.refl
    | inr hstep =>
      obtain ⟨next, hstep, -⟩ := hstep
      have hnone : step? doc last = none := by
        unfold step?
        rw [hend]
      exact absurd (hnone.symm.trans hstep) (by simp)

end CallStack

end RichText
