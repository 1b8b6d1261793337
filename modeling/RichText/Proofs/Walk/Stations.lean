import RichText.Proofs.Walk.Scope
set_option autoImplicit false

/-!
Stations: what a walk reads, in order, and the state that it is in each time. Main statements:
`run_stations`, induction over a walk along its stations, `events_run`, every event is reported at
one of them, `passed_isPrefix`, they come in the depth-first order of the tokens, and
`trace?_eq_some`, what the trace of a document within some fuel says of its walk.
-/
namespace RichText

namespace Token

mutual

/-- The tokens of the tree in depth-first order, a group in front of what it holds. -/
def preorder : Token → List Token
  | .atom a => [.atom a]
  | .group contents => .group contents :: preorderOfList contents

def preorderOfList : List Token → List Token
  | [] => []
  | t :: ts => t.preorder ++ preorderOfList ts

end

theorem preorderOfList_append (ts us : List Token) :
    preorderOfList (ts ++ us) = preorderOfList ts ++ preorderOfList us := by
  induction ts with
  | nil => rfl
  | cons t ts ih => simp only [List.cons_append, preorderOfList, ih, List.append_assoc]

theorem preorder_eq_cons (t : Token) : ∃ inner, t.preorder = t :: inner := by
  cases t with
  | atom a => exact ⟨[], rfl⟩
  | group contents => exact ⟨preorderOfList contents, rfl⟩

theorem append_isPrefix_preorderOfList (passed : List Token) (t : Token) (ts : List Token) :
    passed ++ [t] <+: passed ++ preorderOfList (t :: ts) := by
  obtain ⟨inner, hinner⟩ := t.preorder_eq_cons
  exact ⟨inner ++ preorderOfList ts, by simp [preorderOfList, hinner]⟩

theorem mem_preorderOfList_of_mem {t : Token} {ts : List Token} (h : t ∈ ts) :
    t ∈ preorderOfList ts := by
  obtain ⟨before, after, rfl⟩ := List.append_of_mem h
  obtain ⟨inner, hinner⟩ := t.preorder_eq_cons
  simp [preorderOfList_append, preorderOfList, hinner]

def taken (ts rest : List Token) : List Token := ts.take (ts.length - rest.length)

theorem taken_append {ts rest : List Token} (h : rest <:+ ts) : taken ts rest ++ rest = ts := by
  obtain ⟨before, rfl⟩ := h
  simp [taken]

theorem taken_cons {t : Token} {ts rest : List Token} (h : rest <:+ ts) :
    taken (t :: ts) rest = t :: taken ts rest := by
  apply (List.append_left_inj rest).1
  rw [taken_append (h.trans (List.suffix_cons t ts)), List.cons_append, taken_append h]

theorem preorderOfList_taken {ts rest : List Token} (h : rest <:+ ts) (passed : List Token) :
    passed ++ preorderOfList (taken ts rest) ++ preorderOfList rest =
      passed ++ preorderOfList ts := by
  rw [List.append_assoc, ← preorderOfList_append, taken_append h]

@[simp] theorem taken_cons_self (t : Token) (ts : List Token) : taken (t :: ts) ts = [t] := by
  simp [taken]

end Token

/-- A reading in the course of a walk. -/
structure Station where
  row : Option Row
  /-- All tokens before it in depth-first order. -/
  passed : List Token
  /-- The tokens of the scope before it. -/
  front : List Token
  token : Token
  /-- The tokens of the scope after it. -/
  back : List Token
  action : Action
  walk : Walk

namespace Station

def scope (s : Station) : List Token := s.front ++ s.token :: s.back

def reports (doc : Document) (s : Station) : List Event := s.walk.reports doc s.action

end Station

namespace Walk

def rowStarts (doc : Document) : List Token → List Row → Walk → List (List Token × Row × Walk)
  | _, [], _ => []
  | passed, r :: rows, w =>
    (passed, r, w) :: rowStarts doc (passed ++ Token.preorderOfList r.contents) rows
      (w.leave (run doc (some r) r.contents w.enter))

/-- The stations of a walk over the tokens of a scope, given what was passed before. -/
def stations (doc : Document) (row : Option Row) (passed front : List Token) :
    List Token → Walk → List Station
  | [], _ => []
  | t :: ts, w =>
    match _h : Action.next row w.active t ts with
    | (.scope contents, rest) =>
      ⟨row, passed, front, t, ts, .scope contents, w⟩ ::
        (stations doc row (passed ++ [t]) [] contents w.enter ++
          stations doc row (passed ++ Token.preorderOfList (Token.taken (t :: ts) rest))
            (front ++ Token.taken (t :: ts) rest) rest
            (w.leave (run doc row contents w.enter)))
    | (.rows rows, rest) =>
      ⟨row, passed, front, t, ts, .rows rows, w⟩ ::
        ((rowStarts doc passed rows w).flatMap (fun start =>
            stations doc (some start.2.1) start.1 [] start.2.1.contents start.2.2.enter) ++
          stations doc row (passed ++ Token.preorderOfList (Token.taken (t :: ts) rest))
            (front ++ Token.taken (t :: ts) rest) rest
            (rows.foldl (fun w r => w.leave (run doc (some r) r.contents w.enter)) w))
    | (action, rest) =>
      ⟨row, passed, front, t, ts, action, w⟩ ::
        stations doc row (passed ++ Token.preorderOfList (Token.taken (t :: ts) rest))
          (front ++ Token.taken (t :: ts) rest) rest (w.perform doc action)
termination_by ts => (row.isNone.toNat, Token.nodesOfList ts)
decreasing_by
  · obtain rfl := Action.eq_group_of_next_eq_scope _h
    apply Prod.Lex.right
    simp only [Token.nodesOfList, Token.nodes]
    omega
  · exact Prod.Lex.right _ (Action.nodes_rest_lt _h)
  · obtain rfl := Action.row_eq_none_of_next_eq_rows _h
    exact Prod.Lex.left _ _ Nat.zero_lt_one
  · exact Prod.Lex.right _ (Action.nodes_rest_lt _h)
  · exact Prod.Lex.right _ (Action.nodes_rest_lt _h)

inductive VisitsRows (doc : Document)
    (visited : Option Row → List Token → List Token → List Token → Walk → List Station → Walk → Prop) :
    List Token → List Row → Walk → List Station → Walk → Prop where
  | nil (passed : List Token) (w : Walk) : VisitsRows doc visited passed [] w [] w
  | cons {passed : List Token} {r : Row} {rows : List Row} {w w' : Walk} {log : List Station} :
      visited (some r) passed [] r.contents w.enter
        (stations doc (some r) passed [] r.contents w.enter)
        (run doc (some r) r.contents w.enter) →
      VisitsRows doc visited (passed ++ Token.preorderOfList r.contents) rows
        (w.leave (run doc (some r) r.contents w.enter)) log w' →
      VisitsRows doc visited passed (r :: rows) w
        (stations doc (some r) passed [] r.contents w.enter ++ log) w'

theorem visitsRows_rowStarts {doc : Document}
    {visited : Option Row → List Token → List Token → List Token → Walk → List Station → Walk → Prop}
    (h : ∀ passed r w, visited (some r) passed [] r.contents (enter w)
      (stations doc (some r) passed [] r.contents w.enter) (run doc (some r) r.contents w.enter))
    (passed : List Token) (rows : List Row) (w : Walk) :
    VisitsRows doc visited passed rows w
      ((rowStarts doc passed rows w).flatMap (fun start =>
        stations doc (some start.2.1) start.1 [] start.2.1.contents start.2.2.enter))
      (rows.foldl (fun w r => w.leave (run doc (some r) r.contents w.enter)) w) := by
  induction rows generalizing passed w with
  | nil => exact .nil passed w
  | cons r rows ih =>
    rw [rowStarts, List.flatMap_cons, List.foldl_cons]
    exact .cons (h passed r w) (ih _ _)

/-- Induction over a walk along its stations. Besides the end of a scope there are the reading of
an action that opens no scope, the group that is entered and the table. -/
theorem run_stations (doc : Document)
    {motive : Option Row → List Token → List Token → List Token → Walk → List Station → Walk → Prop}
    (nil : ∀ row passed front w, motive row passed front [] w [] w)
    (perform : ∀ row passed front t ts w action rest log w',
      Action.Reads row w.active t ts action rest → (∀ contents, action ≠ .scope contents) →
      (∀ rows, action ≠ .rows rows) →
      motive row (passed ++ Token.preorderOfList (Token.taken (t :: ts) rest))
        (front ++ Token.taken (t :: ts) rest) rest (w.perform doc action) log w' →
      motive row passed front (t :: ts) w (⟨row, passed, front, t, ts, action, w⟩ :: log) w')
    (scope : ∀ row passed front contents ts w log w',
      let inner := stations doc row (passed ++ [.group contents]) [] contents w.enter
      Action.Reads row w.active (.group contents) ts (.scope contents) ts →
      motive row (passed ++ [.group contents]) [] contents w.enter inner
        (run doc row contents w.enter) →
      motive row (passed ++ (Token.group contents).preorder) (front ++ [.group contents]) ts
        (w.leave (run doc row contents w.enter)) log w' →
      motive row passed front (.group contents :: ts) w
        (⟨row, passed, front, .group contents, ts, .scope contents, w⟩ :: (inner ++ log)) w')
    (table : ∀ passed front ts w log middle log' w',
      let table := Row.take (.atom .rowDefaults :: ts)
      w.active = true → VisitsRows doc motive passed table.1 w log middle →
      motive none (passed ++ Token.preorderOfList (Token.taken (.atom .rowDefaults :: ts) table.2))
        (front ++ Token.taken (.atom .rowDefaults :: ts) table.2) table.2 middle log' w' →
      motive none passed front (.atom .rowDefaults :: ts) w
        (⟨none, passed, front, .atom .rowDefaults, ts, .rows table.1, w⟩ :: (log ++ log')) w')
    (row : Option Row) (passed front ts : List Token) (w : Walk) :
    motive row passed front ts w (stations doc row passed front ts w) (run doc row ts w) := by
  -- the recursion of `stations` is that of the walk, with a hypothesis for the start of each row
  fun_induction stations doc row passed front ts w with
  | case1 row passed front w =>
    rw [run]
    exact nil row passed front w
  | case2 row passed front t ts w contents rest hnext ihinner ihrest =>
    have hreads := Action.reads_of_next_eq hnext
    obtain ⟨rfl, rfl, _⟩ := Action.scope_of_reads hreads
    rw [Token.taken_cons_self] at ihrest ⊢
    rw [run_scope hreads]
    have hpreorder : Token.preorderOfList [.group contents] = (Token.group contents).preorder :=
      List.append_nil _
    rw [hpreorder] at ihrest ⊢
    exact scope row passed front contents _ w _ _ hreads ihinner ihrest
  | case3 row passed front t ts w rows rest hnext ihrow ihrest =>
    obtain ⟨rfl, hactive, rfl, rfl, rfl⟩ := Action.rows_of_reads (Action.reads_of_next_eq hnext)
    rw [run_table hactive]
    exact table passed front ts w _ _ _ _ hactive
      (visitsRows_rowStarts (fun passed r w => ihrow (passed, r, w)) passed _ w) ihrest
  | case4 row passed front t ts w action rest hscope hrows hnext ih =>
    have hreads := Action.reads_of_next_eq hnext
    rw [run_perform hreads hscope hrows]
    exact perform row passed front t ts w action rest _ _ hreads hscope hrows ih

theorem forall_of_visitsRows {doc : Document} {passed : List Token} {rows : List Row}
    {w w' : Walk} {log : List Station} {p : Station → Prop}
    (h : VisitsRows doc (fun _ _ _ _ _ log _ => ∀ s ∈ log, p s) passed rows w log w') :
    ∀ s ∈ log, p s := by
  induction h with
  | nil => simp
  | cons hrow _ ih =>
    intro s hs
    exact (List.mem_append.1 hs).elim (hrow s) (ih s)

theorem reads_of_mem_stations (doc : Document) (row : Option Row) (passed front ts : List Token)
    (w : Walk) : ∀ s ∈ stations doc row passed front ts w,
      ∃ rest, Action.Reads s.row s.walk.active s.token s.back s.action rest := by
  refine run_stations doc (motive := fun _ _ _ _ _ log _ => ∀ s ∈ log,
    ∃ rest, Action.Reads s.row s.walk.active s.token s.back s.action rest)
    ?nil ?perform ?scope ?table row passed front ts w
  case nil => simp
  case perform =>
    intro row passed front t ts w action rest log w' hreads _ _ ih s hs
    obtain rfl | hs := List.mem_cons.1 hs
    · exact ⟨rest, hreads⟩
    · exact ih s hs
  case scope =>
    intro row passed front contents ts w log w' inner hreads ihinner ihrest s hs
    obtain rfl | hs := List.mem_cons.1 hs
    · exact ⟨ts, hreads⟩
    · exact (List.mem_append.1 hs).elim (ihinner s) (ihrest s)
  case table =>
    intro passed front ts w log middle log' w' table hactive hrows ihrest s hs
    obtain rfl | hs := List.mem_cons.1 hs
    · refine ⟨table.2, ?_⟩
      dsimp only
      rw [hactive]
      exact .table
    · exact (List.mem_append.1 hs).elim (forall_of_visitsRows hrows s) (ihrest s)

/-! Order -/

theorem passed_isPrefix_of_visitsRows {doc : Document} {passed : List Token} {rows : List Row}
    {w w' : Walk} {log : List Station}
    (h : VisitsRows doc (fun _ passed _ ts _ log _ =>
      ∀ s ∈ log, s.passed ++ [s.token] <+: passed ++ Token.preorderOfList ts) passed rows w log w') :
    ∀ s ∈ log, s.passed ++ [s.token] <+:
      passed ++ Token.preorderOfList (rows.flatMap Row.contents) := by
  induction h with
  | nil => simp
  | cons hrow _ ih =>
    intro s hs
    rw [List.flatMap_cons, Token.preorderOfList_append, ← List.append_assoc]
    obtain hs | hs := List.mem_append.1 hs
    · exact (hrow s hs).trans (List.prefix_append _ _)
    · exact ih s hs

/-- Where a walk comes, it has passed all tokens that stand before that in depth-first order. -/
theorem passed_isPrefix (doc : Document) (row : Option Row) (passed front ts : List Token)
    (w : Walk) : ∀ s ∈ stations doc row passed front ts w,
      s.passed ++ [s.token] <+: passed ++ Token.preorderOfList ts := by
  refine run_stations doc (motive := fun _ passed _ ts _ log _ =>
    ∀ s ∈ log, s.passed ++ [s.token] <+: passed ++ Token.preorderOfList ts)
    ?nil ?perform ?scope ?table row passed front ts w
  case nil => simp
  case perform =>
    intro row passed front t ts w action rest log w' hreads _ _ ih s hs
    obtain rfl | hs := List.mem_cons.1 hs
    · exact Token.append_isPrefix_preorderOfList passed t ts
    · have hlater := ih s hs
      rwa [Token.preorderOfList_taken (hreads.suffix.trans (List.suffix_cons t ts))] at hlater
  case scope =>
    intro row passed front contents ts w log w' inner _ ihinner ihrest s hs
    obtain rfl | hs := List.mem_cons.1 hs
    · exact Token.append_isPrefix_preorderOfList passed _ ts
    · obtain hs | hs := List.mem_append.1 hs
      · refine (ihinner s hs).trans ⟨Token.preorderOfList ts, ?_⟩
        simp [Token.preorderOfList, Token.preorder]
      · have hlater := ihrest s hs
        rwa [List.append_assoc] at hlater
  case table =>
    intro passed front ts w log middle log' w' table _ hrows ihrest s hs
    have hcontents := Row.contents_take (.atom .rowDefaults :: ts)
    obtain rfl | hs := List.mem_cons.1 hs
    · exact Token.append_isPrefix_preorderOfList passed _ ts
    · obtain hs | hs := List.mem_append.1 hs
      · rw [← hcontents, Token.preorderOfList_append, ← List.append_assoc]
        exact (passed_isPrefix_of_visitsRows hrows s hs).trans (List.prefix_append _ _)
      · have hlater := ihrest s hs
        rwa [Token.preorderOfList_taken
          ((Row.take_rowDefaults_suffix ts).trans (List.suffix_cons _ ts))] at hlater

/-! Events -/

theorem style?_of_mem_reports {doc : Document} {w : Walk} {action : Action} {e : Event}
    {style : Style} (h : e ∈ w.reports doc action) (hstyle : e.style? = some style) :
    style = w.style.resolveList doc := by
  have hdue : e ∈ (w.resolve doc).dueTabs → style = w.style.resolveList doc := by
    intro h
    unfold dueTabs at h
    split at h
    · simp at h
    · rw [List.mem_singleton.1 h] at hstyle
      exact (Option.some.inj hstyle).symm
  cases action with
  | text s =>
    obtain h | h := List.mem_append.1 h
    · exact hdue h
    · rw [List.mem_singleton.1 h] at hstyle
      exact (Option.some.inj hstyle).symm
  | picture p =>
    obtain h | h := List.mem_append.1 h
    · exact hdue h
    · rw [List.mem_singleton.1 h] at hstyle
      exact (Option.some.inj hstyle).symm
  | breakMark kind =>
    rw [List.mem_singleton.1 h] at hstyle
    exact (Option.some.inj hstyle).symm
  | _ => exact absurd h List.not_mem_nil

theorem events_of_visitsRows {doc : Document} {passed : List Token} {rows : List Row} {w w' : Walk}
    {log : List Station}
    (h : VisitsRows doc (fun _ _ _ _ w log w' =>
      w'.events.toList = w.events.toList ++ log.flatMap (Station.reports doc)) passed rows w log w') :
    w'.events.toList = w.events.toList ++ log.flatMap (Station.reports doc) := by
  induction h with
  | nil => simp
  | cons hrow _ ih =>
    rw [ih, List.flatMap_append, ← List.append_assoc]
    exact congrArg (· ++ _) hrow

theorem events_run (doc : Document) (row : Option Row) (passed front ts : List Token) (w : Walk) :
    (run doc row ts w).events.toList =
      w.events.toList ++ (stations doc row passed front ts w).flatMap (Station.reports doc) := by
  refine run_stations doc (motive := fun _ _ _ _ w log w' =>
    w'.events.toList = w.events.toList ++ log.flatMap (Station.reports doc))
    ?nil ?perform ?scope ?table row passed front ts w
  case nil => simp
  case perform =>
    intro row passed front t ts w action rest log w' _ _ _ ih
    rw [ih, events_perform, List.flatMap_cons, List.append_assoc]
    rfl
  case scope =>
    intro row passed front contents ts w log w' inner _ ihinner ihrest
    have hleave : (w.leave (run doc row contents w.enter)).events.toList =
        w.events.toList ++ inner.flatMap (Station.reports doc) := ihinner
    rw [ihrest, hleave, List.flatMap_cons, List.flatMap_append, List.append_assoc]
    rfl
  case table =>
    intro passed front ts w log middle log' w' table _ hrows ihrest
    rw [ihrest, events_of_visitsRows hrows, List.flatMap_cons, List.flatMap_append,
      List.append_assoc]
    rfl

/-! Traces -/

section Trace

abbrev Trace := List Station × Walk

def traceRows? (trace? : Option Row → List Token → List Token → List Token → Walk → Option Trace) :
    List Token → List Row → Walk → Option Trace
  | _, [], w => some ([], w)
  | passed, r :: rows, w =>
    (trace? (some r) passed [] r.contents w.enter).bind fun inside =>
      (traceRows? trace? (passed ++ Token.preorderOfList r.contents) rows (w.leave inside.2)).map
        fun later => (inside.1 ++ later.1, later.2)

def traceAction? (doc : Document)
    (trace? : Option Row → List Token → List Token → List Token → Walk → Option Trace)
    (row : Option Row) (passed : List Token) (t : Token) (w : Walk) : Action → Option Trace
  | .scope contents =>
    (trace? row (passed ++ [t]) [] contents w.enter).map fun inside => (inside.1, w.leave inside.2)
  | .rows rows => traceRows? trace? passed rows w
  | action => some ([], w.perform doc action)

/-- The stations of a walk and the walk at its end, if the fuel lasts. -/
def trace? (doc : Document) : Nat → Option Row → List Token → List Token → List Token → Walk →
    Option Trace
  | 0, _, _, _, _, _ => none
  | _ + 1, _, _, _, [], w => some ([], w)
  | n + 1, row, passed, front, t :: ts, w =>
    let next := Action.next row w.active t ts
    let taken := Token.taken (t :: ts) next.2
    (traceAction? doc (trace? doc n) row passed t w next.1).bind fun here =>
      (trace? doc n row (passed ++ Token.preorderOfList taken) (front ++ taken) next.2 here.2).map
        fun later => (⟨row, passed, front, t, ts, next.1, w⟩ :: (here.1 ++ later.1), later.2)

variable {doc : Document}

/-- No fuel gives anything but this. -/
def Traced (doc : Document) (row : Option Row) (passed front ts : List Token) (w : Walk)
    (log : List Station) (w' : Walk) : Prop :=
  ∀ n trace, trace? doc n row passed front ts w = some trace → trace = (log, w')

theorem traced_cons {row : Option Row} {passed front : List Token} {t : Token} {ts rest : List Token}
    {w middle w' : Walk} {action : Action} {log log' : List Station}
    (hreads : Action.Reads row w.active t ts action rest)
    (hhere : ∀ n trace, traceAction? doc (trace? doc n) row passed t w action = some trace →
      trace = (log, middle))
    (hlater : Traced doc row (passed ++ Token.preorderOfList (Token.taken (t :: ts) rest))
      (front ++ Token.taken (t :: ts) rest) rest middle log' w') :
    Traced doc row passed front (t :: ts) w
      (⟨row, passed, front, t, ts, action, w⟩ :: (log ++ log')) w' := by
  intro n trace htrace
  cases n with
  | zero => exact absurd htrace (by simp [trace?])
  | succ n =>
    rw [trace?, hreads.next_eq] at htrace
    obtain ⟨here, htraced, htrace⟩ := Option.bind_eq_some_iff.1 htrace
    obtain ⟨later, hlater', rfl⟩ := Option.map_eq_some_iff.1 htrace
    obtain rfl := hhere n here htraced
    obtain rfl := hlater n later hlater'
    rfl

theorem eq_of_traceRows? {n : Nat} {passed : List Token} {rows : List Row} {w w' : Walk}
    {log : List Station} (h : VisitsRows doc (Traced doc) passed rows w log w') {trace : Trace}
    (htrace : traceRows? (trace? doc n) passed rows w = some trace) : trace = (log, w') := by
  induction h generalizing trace with
  | nil passed w => exact (Option.some.inj htrace).symm
  | cons hrow _ ih =>
    obtain ⟨inside, hinside, htrace⟩ := Option.bind_eq_some_iff.1 htrace
    obtain rfl := hrow n inside hinside
    obtain ⟨later, hlater, rfl⟩ := Option.map_eq_some_iff.1 htrace
    obtain rfl := ih hlater
    rfl

theorem traced_run (doc : Document) (row : Option Row) (passed front ts : List Token) (w : Walk) :
    Traced doc row passed front ts w (stations doc row passed front ts w) (run doc row ts w) := by
  refine run_stations doc (motive := Traced doc) ?nil ?perform ?scope ?table row passed front ts w
  case nil =>
    intro row passed front w n trace htrace
    cases n with
    | zero => exact absurd htrace (by simp [trace?])
    | succ n => exact (Option.some.inj htrace).symm
  case perform =>
    intro row passed front t ts w action rest log w' hreads hscope hrows ih
    have hhere : ∀ n trace,
        traceAction? doc (trace? doc n) row passed t w action = some trace →
          trace = ([], w.perform doc action) := by
      intro n trace htrace
      cases action with
      | scope contents => exact absurd rfl (hscope contents)
      | rows rows => exact absurd rfl (hrows rows)
      | _ => exact (Option.some.inj htrace).symm
    exact traced_cons hreads hhere ih
  case scope =>
    intro row passed front contents ts w log w' inner hreads ihinner ihrest
    have hpreorder : Token.preorderOfList [.group contents] = (Token.group contents).preorder :=
      List.append_nil _
    rw [← hpreorder, ← Token.taken_cons_self] at ihrest
    refine traced_cons hreads (fun n trace htrace => ?_) ihrest
    obtain ⟨inside, hinside, rfl⟩ := Option.map_eq_some_iff.1 htrace
    obtain rfl := ihinner n inside hinside
    rfl
  case table =>
    intro passed front ts w log middle log' w' table hactive hrows ihrest
    have hreads : Action.Reads none w.active (.atom .rowDefaults) ts (.rows table.1) table.2 := by
      rw [hactive]
      exact .table
    exact traced_cons hreads (fun n trace htrace => eq_of_traceRows? hrows htrace) ihrest

end Trace

end Walk

namespace Document

/-- The stations of the walk over the body. -/
def stations (doc : Document) : List Station :=
  if Group.isIgnorable doc.body then [] else Walk.stations doc none [] [] doc.body {}

theorem events_walk (doc : Document) :
    doc.walk.events.toList = doc.stations.flatMap (Station.reports doc) := by
  unfold walk stations
  split
  · rfl
  · rw [Walk.events_run doc none [] [] doc.body {}]
    rfl

theorem reads_of_mem_stations (doc : Document) : ∀ s ∈ doc.stations,
    ∃ rest, Action.Reads s.row s.walk.active s.token s.back s.action rest := by
  unfold stations
  split
  · simp
  · exact Walk.reads_of_mem_stations doc none [] [] doc.body {}

theorem passed_isPrefix (doc : Document) :
    ∀ s ∈ doc.stations, s.passed ++ [s.token] <+: Token.preorderOfList doc.body := by
  unfold stations
  split
  · simp
  · exact Walk.passed_isPrefix doc none [] [] doc.body {}

/-- The stations of the walk over the body and its end, as far as they can be computed. -/
def trace? (doc : Document) (fuel : Nat) : Option Walk.Trace :=
  if Group.isIgnorable doc.body then some ([], {}) else Walk.trace? doc fuel none [] [] doc.body {}

theorem trace?_eq_some (doc : Document) {fuel : Nat} (h : (doc.trace? fuel).isSome = true) :
    doc.trace? fuel = some (doc.stations, doc.walk) := by
  obtain ⟨trace, htrace⟩ := Option.isSome_iff_exists.1 h
  rw [htrace]
  unfold trace? at htrace
  unfold stations walk
  split at htrace
  · rename_i hignorable
    rw [if_pos hignorable, if_pos hignorable, htrace]
  · rename_i hkept
    rw [if_neg hkept, if_neg hkept,
      Walk.traced_run doc none [] [] doc.body {} fuel trace htrace]

theorem stations_eq_trace (doc : Document) {fuel : Nat} (h : (doc.trace? fuel).isSome = true) :
    doc.stations = ((doc.trace? fuel).map Prod.fst).getD [] := by
  rw [doc.trace?_eq_some h]
  rfl

def events? (doc : Document) (fuel : Nat) : Option (List Event) :=
  (doc.trace? fuel).map fun trace =>
    doc.contents.filterMap doc.default? ++ trace.2.events.toList ++ [.close]

theorem events?_eq_some (doc : Document) {fuel : Nat} (h : (doc.trace? fuel).isSome = true) :
    doc.events? fuel = some doc.events := by
  rw [events?, doc.trace?_eq_some h]
  rfl

theorem map_events_ne {α : Type} (f : Event → α) {doc doc' : Document} (fuel : Nat)
    (h : (doc.trace? fuel).isSome = true) (h' : (doc'.trace? fuel).isSome = true)
    (hne : (doc.events? fuel).map (List.map f) ≠ (doc'.events? fuel).map (List.map f)) :
    doc.events.map f ≠ doc'.events.map f := by
  rw [doc.events?_eq_some h, doc'.events?_eq_some h'] at hne
  exact fun hsame => hne (congrArg some hsame)

end Document

end RichText
