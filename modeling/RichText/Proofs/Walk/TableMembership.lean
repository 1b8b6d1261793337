import RichText.Proofs.Walk.Stations
import RichText.Proofs.Style.InTable
set_option autoImplicit false

/-!
Membership in tables. The end of a row leaves no open scope in a table, and only a token that says
so puts a scope into a table again. Main statements: `settled_run`, what that means for all scopes
along a walk, and `isInTable_after_rowEnd`.
-/
namespace RichText

/-! Readings -/

namespace Action

theorem mem_of_ofGroup_eq_record {contents : List Token} {entries : List Entry} {a : Atom}
    (h : ofGroup contents = .record entries) (ha : .atom a ∈ entries) : .atom a ∈ contents := by
  have hplain : ofPlainGroup contents = .record entries → .atom a ∈ contents := by
    intro h
    unfold ofPlainGroup at h
    split at h
    · rw [← Action.record.inj h] at ha
      obtain ⟨t, ht, heq⟩ := List.mem_map.1 ha
      rw [← Entry.token.inj heq]
      exact (List.mem_filter.1 ht).1
    · obtain hpass | ⟨hscope, _⟩ := enter_cases contents
      · rw [hpass] at h
        exact Action.noConfusion h
      · rw [hscope] at h
        exact Action.noConfusion h
  unfold ofGroup at h
  split at h
  case h_5 =>
    split at h
    · rw [← Action.record.inj h] at ha
      simp at ha
    · exact Action.noConfusion h
  case h_6 | h_7 =>
    rw [← Action.record.inj h] at ha
    simp at ha
  case h_9 | h_10 | h_11 | h_12 => exact hplain h
  all_goals exact Action.noConfusion h

theorem mem_preorder_of_reads {row : Option Row} {active : Bool} {t : Token}
    {ts rest : List Token} {entries : List Entry} {a : Atom}
    (h : Reads row active t ts (.record entries) rest) (ha : .atom a ∈ entries) :
    .atom a ∈ Token.preorderOfList (Token.taken (t :: ts) rest) := by
  generalize haction : Action.record entries = action at h
  cases h with
  | border =>
    rw [Action.record.inj haction] at ha
    simp at ha
  | format =>
    rw [Action.record.inj haction, List.mem_singleton] at ha
    obtain rfl := Token.atom.inj (Entry.token.inj ha)
    rw [Token.taken_cons_self]
    exact List.mem_cons_self
  | skippedGroup contents =>
    obtain hpass | ⟨hscope, _⟩ := enter_cases contents
    · rw [hpass] at haction
      exact Action.noConfusion haction
    · rw [hscope] at haction
      exact Action.noConfusion haction
  | group contents =>
    have hmem := mem_of_ofGroup_eq_record haction.symm ha
    rw [Token.taken_cons_self]
    simp [Token.preorderOfList, Token.preorder, Token.mem_preorderOfList_of_mem hmem]
  | _ => exact Action.noConfusion haction

end Action

/-! Whole walks -/

def Behind (earlier : List Station) (passed : List Token) : Prop :=
  ∀ s ∈ earlier, s.action = .breakMark .row → s.passed ++ [s.token] <+: passed

theorem Behind.pass {earlier : List Station} {passed : List Token} (h : Behind earlier passed)
    (more : List Token) : Behind earlier (passed ++ more) :=
  fun s hs haction => (h s hs haction).trans (List.prefix_append _ _)

theorem Behind.append {earlier later : List Station} {passed : List Token}
    (h : Behind earlier passed) (hlater : Behind later passed) :
    Behind (earlier ++ later) passed :=
  fun s hs => (List.mem_append.1 hs).elim (h s) (hlater s)

/-- A token that puts scopes into a table has been passed since the last of the row ends. -/
def Returns (earlier : List Station) (passed : List Token) : Prop :=
  ∃ outside inside, passed = outside ++ .atom .inTable :: inside ∧ Behind earlier outside

namespace Returns

variable {earlier later : List Station} {passed : List Token}

theorem pass (h : Returns earlier passed) (more : List Token) :
    Returns earlier (passed ++ more) := by
  obtain ⟨outside, inside, rfl, hends⟩ := h
  exact ⟨outside, inside ++ more, by simp, hends⟩

theorem append (h : Returns earlier passed) (hlater : ∀ s ∈ later, s.action ≠ .breakMark .row) :
    Returns (earlier ++ later) passed := by
  obtain ⟨outside, inside, rfl, hends⟩ := h
  exact ⟨outside, inside, rfl, hends.append (fun s hs haction => absurd haction (hlater s hs))⟩

theorem of_mem {more : List Token} (hearlier : Behind earlier passed)
    (h : .atom .inTable ∈ more) : Returns earlier (passed ++ more) := by
  obtain ⟨front, back, rfl⟩ := List.append_of_mem h
  exact ⟨passed ++ front, back, by simp, hearlier.pass front⟩

end Returns

namespace Walk

variable {doc : Document} {earlier : List Station} {passed : List Token} {w : Walk}

/-- Scopes are in a table only if some token after the last row end said so. -/
def Settled (earlier : List Station) (passed : List Token) (w : Walk) : Prop :=
  ∀ style ∈ w.scopes, style.isInTable = true → Returns earlier passed

theorem isInTable_perform (hlevels : doc.LevelsOutsideTables) {action : Action} {style : Style}
    (hstyle : style ∈ (w.perform doc action).scopes) (htable : style.isInTable = true) :
    action ≠ .breakMark .row ∧ ((∃ style ∈ w.scopes, style.isInTable = true) ∨
      ∃ entries, action = .record entries ∧ .atom .inTable ∈ entries) := by
  have hkept : style ∈ w.scopes → ∃ style ∈ w.scopes, style.isInTable = true :=
    fun h => ⟨style, h, htable⟩
  have hresolved : style ∈ (w.style.resolveList doc) :: w.enclosing →
      ∃ style ∈ w.scopes, style.isInTable = true := by
    intro h
    obtain rfl | h := List.mem_cons.1 h
    · exact ⟨w.style, List.mem_cons_self, Style.isInTable_of_resolveList hlevels htable⟩
    · exact ⟨style, List.mem_cons_of_mem _ h, htable⟩
  cases action with
  | record entries =>
    refine ⟨by simp, ?_⟩
    obtain rfl | h := List.mem_cons.1 hstyle
    · obtain h | h := Style.mem_of_mem_addAll (Style.isInTable_iff.1 htable)
      · exact .inl ⟨w.style, List.mem_cons_self, Style.isInTable_iff.2 h⟩
      · exact .inr ⟨entries, rfl, h⟩
    · exact .inl ⟨style, List.mem_cons_of_mem _ h, htable⟩
  | cell cell =>
    refine ⟨by simp, .inl ?_⟩
    obtain rfl | h := List.mem_cons.1 hstyle
    · obtain h | h := Style.mem_of_mem_add (Style.isInTable_iff.1 htable)
      · exact ⟨w.style, List.mem_cons_self, Style.isInTable_iff.2 h⟩
      · simp at h
    · exact ⟨style, List.mem_cons_of_mem _ h, htable⟩
  | text s =>
    have hscopes : (w.perform doc (.text s)).scopes = (w.style.resolveList doc) :: w.enclosing := by
      simp [perform, scopes, emit, resolve]
    rw [hscopes] at hstyle
    exact ⟨by simp, .inl (hresolved hstyle)⟩
  | picture p =>
    have hscopes : (w.perform doc (.picture p)).scopes =
        (w.style.resolveList doc) :: w.enclosing := by
      simp [perform, scopes, emit, resolve]
    rw [hscopes] at hstyle
    exact ⟨by simp, .inl (hresolved hstyle)⟩
  | breakMark kind =>
    by_cases hkind : kind = .row
    · -- no scope at all is in a table after the end of a row
      obtain ⟨style', rfl⟩ : ∃ style', Style.setInTable style' false = style := by
        subst hkind
        have hmem : style ∈ ((w.resolve doc).scopes).map (fun style => style.setInTable false) :=
          hstyle
        obtain ⟨style', _, h⟩ := List.mem_map.1 hmem
        exact ⟨style', h⟩
      rw [Style.isInTable_setInTable_false] at htable
      exact absurd htable Bool.false_ne_true
    · have hscopes : (w.perform doc (.breakMark kind)).scopes =
          (w.style.resolveList doc) :: w.enclosing := by
        simp [perform, reportBreak, hkind, scopes, emit, resolve]
      rw [hscopes] at hstyle
      exact ⟨by simp [hkind], .inl (hresolved hstyle)⟩
  | _ => exact ⟨by simp, .inl (hkept hstyle)⟩

namespace Settled

theorem perform (hlevels : doc.LevelsOutsideTables) {row : Option Row} {front : List Token}
    {t : Token} {ts rest : List Token} {action : Action}
    (hreads : Action.Reads row w.active t ts action rest)
    (hearlier : Behind earlier passed) (h : Settled earlier passed w) :
    Settled (earlier ++ [⟨row, passed, front, t, ts, action, w⟩])
      (passed ++ Token.preorderOfList (Token.taken (t :: ts) rest)) (w.perform doc action) := by
  intro style hstyle htable
  obtain ⟨hrow, hbefore⟩ := isInTable_perform hlevels hstyle htable
  refine Returns.append ?_ (by simpa using hrow)
  obtain ⟨style', hstyle', htable'⟩ | ⟨entries, rfl, hentries⟩ := hbefore
  · exact (h style' hstyle' htable').pass _
  · exact .of_mem hearlier (Action.mem_preorder_of_reads hreads hentries)

theorem enter (h : Settled earlier passed w) : Settled earlier passed w.enter := by
  intro style hstyle htable
  obtain rfl | hstyle := List.mem_cons.1 hstyle
  · exact h _ List.mem_cons_self htable
  · exact h style hstyle htable

theorem leave {row : Option Row} {contents : List Token}
    (h : Settled earlier passed (run doc row contents w.enter)) :
    Settled earlier passed (w.leave (run doc row contents w.enter)) := by
  obtain ⟨reported, _, hscopes⟩ := frames_run doc row contents w.enter
  have henclosing : (w.leave (run doc row contents w.enter)).scopes =
      (run doc row contents w.enter).enclosing := by
    have hcons : w.enter.enclosing = w.style :: w.enclosing := rfl
    rw [hcons, framed_cons] at hscopes
    simp only [scopes, Walk.leave, hscopes]
    rfl
  intro style hstyle htable
  rw [henclosing] at hstyle
  exact h style (List.mem_cons_of_mem _ hstyle) htable

end Settled

/-- From a settled walk on, all stations are settled, and so is the end. -/
def StaysSettled (passed passed' : List Token) (w : Walk) (log : List Station) (w' : Walk) : Prop :=
  ∀ earlier, Behind earlier passed → Settled earlier passed w →
    Settled (earlier ++ log) passed' w' ∧
      ∀ before s after, log = before ++ s :: after → Settled (earlier ++ before) s.passed s.walk

namespace StaysSettled

variable {passed' passed'' : List Token} {log log' : List Station} {w' w'' : Walk}

theorem nil (passed : List Token) (w : Walk) : StaysSettled passed passed w [] w := by
  intro earlier _ h
  rw [List.append_nil]
  exact ⟨h, fun before s after hlog => by simp at hlog⟩

theorem single {s : Station} (h : ∀ earlier, Behind earlier s.passed →
      Settled earlier s.passed s.walk → Settled (earlier ++ [s]) passed' w') :
    StaysSettled s.passed passed' s.walk [s] w' := by
  intro earlier hearlier hsettled
  refine ⟨h earlier hearlier hsettled, ?_⟩
  intro before s' after hlog
  obtain ⟨rfl, rfl, rfl⟩ : before = [] ∧ s = s' ∧ after = [] := by
    cases before <;> simp_all
  rw [List.append_nil]
  exact hsettled

theorem skip {s : Station} (hs : s.action ≠ .breakMark .row) (more : List Token) :
    Behind [s] (s.passed ++ more) ∧
      StaysSettled s.passed (s.passed ++ more) s.walk [s] s.walk := by
  refine ⟨?_, .single ?_⟩
  · intro s' hs' haction
    rw [List.mem_singleton.1 hs'] at haction
    exact absurd haction hs
  · intro earlier _ hsettled style hstyle htable
    exact ((hsettled style hstyle htable).append (by simpa using hs)).pass more

theorem trans (h : StaysSettled passed passed' w log w') (hpassed : passed <+: passed')
    (hlog : Behind log passed') (h' : StaysSettled passed' passed'' w' log' w'') :
    StaysSettled passed passed'' w (log ++ log') w'' := by
  intro earlier hearlier hsettled
  obtain ⟨hmiddle, hfirst⟩ := h earlier hearlier hsettled
  obtain ⟨more, rfl⟩ := hpassed
  obtain ⟨hend, hsecond⟩ := h' (earlier ++ log) ((hearlier.pass more).append hlog) hmiddle
  rw [List.append_assoc] at hend
  refine ⟨hend, ?_⟩
  intro before s after heq
  obtain ⟨front, rfl, hlog'⟩ | ⟨back, rfl, hback⟩ := List.append_eq_append_iff.1 heq
  · rw [← List.append_assoc]
    exact hsecond front s after hlog'
  · cases back with
    | nil =>
      simpa using hsecond [] s after (by simpa using hback.symm)
    | cons s' back =>
      obtain ⟨rfl, rfl⟩ := List.cons.inj hback
      exact hfirst before s back rfl

theorem leave {row : Option Row} {contents : List Token}
    (h : StaysSettled passed passed' w.enter log (run doc row contents w.enter)) :
    StaysSettled passed passed' w log (w.leave (run doc row contents w.enter)) := by
  intro earlier hearlier hsettled
  obtain ⟨hend, hstations⟩ := h earlier hearlier hsettled.enter
  exact ⟨hend.leave, hstations⟩

end StaysSettled

theorem behind_stations (doc : Document) (row : Option Row) (passed front ts : List Token)
    (w : Walk) : Behind (stations doc row passed front ts w)
      (passed ++ Token.preorderOfList ts) :=
  fun s hs _ => passed_isPrefix doc row passed front ts w s hs

theorem staysSettled_visitsRows {rows : List Row} {log : List Station} {w' : Walk}
    (h : VisitsRows doc (fun _ passed _ ts =>
      StaysSettled passed (passed ++ Token.preorderOfList ts)) passed rows w log w') :
    Behind log (passed ++ Token.preorderOfList (rows.flatMap Row.contents)) ∧
      StaysSettled passed (passed ++ Token.preorderOfList (rows.flatMap Row.contents)) w log w' := by
  induction h with
  | nil passed w =>
    rw [List.flatMap_nil, Token.preorderOfList, List.append_nil]
    exact ⟨by simp [Behind], .nil passed w⟩
  | @cons passed r rows w w' log hrow _ ih =>
    obtain ⟨hbehind, hrows⟩ := ih
    have hfirst := behind_stations doc (some r) passed [] r.contents w.enter
    rw [List.flatMap_cons, Token.preorderOfList_append, ← List.append_assoc]
    exact ⟨(hfirst.pass _).append hbehind,
      hrow.leave.trans (List.prefix_append _ _) hfirst hrows⟩

/-- However deep it nests, a walk keeps its scopes out of tables until a token puts them in. -/
theorem settled_run (hlevels : doc.LevelsOutsideTables) (row : Option Row)
    (passed front ts : List Token) (w : Walk) :
    StaysSettled passed (passed ++ Token.preorderOfList ts) w (stations doc row passed front ts w)
      (run doc row ts w) := by
  refine run_stations doc (motive := fun _ passed _ ts =>
    StaysSettled passed (passed ++ Token.preorderOfList ts)) ?nil ?perform ?scope ?table
    row passed front ts w
  case nil =>
    intro row passed front w
    rw [Token.preorderOfList, List.append_nil]
    exact .nil passed w
  case perform =>
    intro row passed front t ts w action rest log w' hreads _ _ ih
    let s : Station := ⟨row, passed, front, t, ts, action, w⟩
    have hsuffix : rest <:+ t :: ts := hreads.suffix.trans (List.suffix_cons t ts)
    have hhead : StaysSettled passed
        (passed ++ Token.preorderOfList (Token.taken (t :: ts) rest)) w [s]
        (w.perform doc action) :=
      .single (s := s) (fun _ hearlier hsettled => hsettled.perform hlevels hreads hearlier)
    have hbehind : Behind [s] (passed ++ Token.preorderOfList (Token.taken (t :: ts) rest)) := by
      intro s' hs' _
      rw [List.mem_singleton.1 hs', Token.taken_cons hreads.suffix]
      exact Token.append_isPrefix_preorderOfList passed t _
    rw [← Token.preorderOfList_taken hsuffix]
    exact hhead.trans (List.prefix_append _ _) hbehind ih
  case scope =>
    intro row passed front contents ts w log w' inner _ hinner hrest
    obtain ⟨hbehind, hhead⟩ := StaysSettled.skip
      (s := ⟨row, passed, front, .group contents, ts, .scope contents, w⟩) (by simp)
      [.group contents]
    have hgroup : passed ++ (Token.group contents).preorder =
        passed ++ [.group contents] ++ Token.preorderOfList contents := by
      simp [Token.preorder]
    rw [hgroup] at hrest
    have hstations := behind_stations doc row (passed ++ [.group contents]) [] contents w.enter
    have hafter := hinner.leave.trans (List.prefix_append _ _) hstations hrest
    have hpreorder : passed ++ Token.preorderOfList (.group contents :: ts) =
        passed ++ [.group contents] ++ Token.preorderOfList contents ++ Token.preorderOfList ts := by
      simp [Token.preorderOfList, Token.preorder]
    rw [hpreorder]
    exact hhead.trans (List.prefix_append _ _) hbehind hafter
  case table =>
    intro passed front ts w log middle log' w' table _ hrows hrest
    obtain ⟨hbehind, hhead⟩ := StaysSettled.skip
      (s := ⟨none, passed, front, .atom .rowDefaults, ts, .rows table.1, w⟩) (by simp) []
    obtain ⟨hstations, hwalked⟩ := staysSettled_visitsRows hrows
    have hcontents : table.1.flatMap Row.contents ++ table.2 = .atom .rowDefaults :: ts :=
      Row.contents_take _
    have htaken : Token.taken (.atom .rowDefaults :: ts) table.2 = table.1.flatMap Row.contents := by
      apply (List.append_left_inj table.2).1
      rw [Token.taken_append ⟨_, hcontents⟩, hcontents]
    rw [htaken] at hrest
    rw [← hcontents, Token.preorderOfList_append, ← List.append_assoc]
    have hafter := hwalked.trans (List.prefix_append _ _) hstations hrest
    rw [List.append_nil] at hbehind hhead
    exact hhead.trans List.prefix_rfl hbehind hafter

/-! What is reported -/

theorem action_of_isRowEnd {action : Action} {e : Event} (h : e ∈ w.reports doc action)
    (hend : e.isRowEnd = true) : action = .breakMark .row := by
  have hdue : e ∉ (w.resolve doc).dueTabs := by
    intro h
    exact absurd (List.any_eq_true.2 ⟨e, h, hend⟩) (by simp [any_isRowEnd_dueTabs])
  cases action with
  | text s =>
    obtain h | h := List.mem_append.1 h
    · exact absurd h hdue
    · rw [List.mem_singleton.1 h] at hend
      exact absurd hend Bool.false_ne_true
  | picture p =>
    obtain h | h := List.mem_append.1 h
    · exact absurd h hdue
    · rw [List.mem_singleton.1 h] at hend
      exact absurd hend Bool.false_ne_true
  | breakMark kind =>
    rw [List.mem_singleton.1 h] at hend
    cases kind <;> first | rfl | exact absurd hend Bool.false_ne_true
  | _ => exact absurd h List.not_mem_nil

end Walk

theorem Action.rowEnd_of_reads {row : Option Row} {active : Bool} {t : Token}
    {ts rest : List Token} (h : Reads row active t ts (.breakMark .row) rest) :
    t = .atom (.breakMark .row) := by
  cases t with
  | group contents =>
    obtain ⟨_, h | ⟨_, h⟩ | ⟨_, h⟩ | ⟨h, _⟩⟩ := reads_group_cases h
    all_goals simp at h
  | atom a =>
    generalize haction : Action.breakMark .row = action at h
    cases h with
    | breakMark _ => rw [Action.breakMark.inj haction]
    | _ => simp at haction

namespace Document

theorem settled_stations (doc : Document) (hlevels : doc.LevelsOutsideTables)
    {before after : List Station} {s : Station} (h : doc.stations = before ++ s :: after) :
    Walk.Settled before s.passed s.walk := by
  have hstart : Walk.Settled [] [] {} := by
    intro style hstyle htable
    rw [List.mem_singleton.1 hstyle] at htable
    exact absurd htable (by decide)
  unfold stations at h
  split at h
  · simp at h
  · exact (Walk.settled_run hlevels none [] [] doc.body {} [] (by simp [Behind]) hstart).2
      before s after h

/-- If a row ends at the first station and something is reported in a table at the second, then
some token between the two, in depth-first order, puts scopes into a table. -/
def LeavesTable (doc : Document) (s s' : Station) : Prop :=
  ∀ e ∈ s.reports doc, e.isRowEnd = true →
    ∀ e' ∈ s'.reports doc, ∀ style, e'.style? = some style → style.isInTable = true →
      s.token = .atom (.breakMark .row) ∧
        ∃ tokens, s'.passed = s.passed ++ s.token :: tokens ∧ .atom .inTable ∈ tokens

/-- After a row has ended, whatever is reported is out of the table, in whatever scope, until a
token says otherwise. -/
theorem isInTable_after_rowEnd (doc : Document) (hlevels : doc.LevelsOutsideTables) :
    doc.walk.events.toList = doc.stations.flatMap (Station.reports doc) ∧
      (∀ s ∈ doc.stations, s.passed ++ [s.token] <+: Token.preorderOfList doc.body) ∧
      doc.stations.Pairwise doc.LeavesTable := by
  refine ⟨doc.events_walk, doc.passed_isPrefix, List.pairwise_iff_forall_sublist.2 ?_⟩
  intro s s' hsublist e he hend e' he' style hstyle htable
  obtain ⟨before, rest, hstations, hs⟩ : ∃ before rest, doc.stations = before ++ s' :: rest ∧
      s ∈ before := by
    obtain ⟨before, after, heq, hs, hs'⟩ := List.cons_sublist_iff.1 hsublist
    obtain ⟨between, rest, rfl⟩ := List.append_of_mem (List.singleton_sublist.1 hs')
    exact ⟨before ++ between, rest, by simp [heq], List.mem_append_left _ hs⟩
  have haction : s.action = .breakMark .row := Walk.action_of_isRowEnd he hend
  have hopen : s'.walk.style.isInTable = true := by
    rw [Walk.style?_of_mem_reports he' hstyle] at htable
    exact Style.isInTable_of_resolveList hlevels htable
  constructor
  · obtain ⟨rest', hreads⟩ := doc.reads_of_mem_stations s (by simp [hstations, hs])
    rw [haction] at hreads
    exact Action.rowEnd_of_reads hreads
  · obtain ⟨outside, inside, hpassed, hbehind⟩ :=
      doc.settled_stations hlevels hstations _ List.mem_cons_self hopen
    obtain ⟨more, hmore⟩ := hbehind s hs haction
    refine ⟨more ++ .atom .inTable :: inside, ?_, by simp⟩
    rw [hpassed, ← hmore]
    simp

def rowThenText : Document where
  contents := [.atom .rowDefaults, .atom (.rightCellBoundary 100), .atom .inTable, .text "a",
    .atom (.breakMark .row), .text "b", .group [.atom .inTable, .text "c"]]

theorem isInTable_after_rowEnd_rowThenText :
    rowThenText.LevelsOutsideTables ∧
      rowThenText.walk.events.toList.map (fun e => (e.isRowEnd, e.style?.map Style.isInTable)) =
        [(false, some true), (true, some true), (false, some false), (false, some true)] ∧
      ∃ s s', rowThenText.stations[5]? = some s ∧ rowThenText.stations[9]? = some s' ∧
        (s.reports rowThenText).any Event.isRowEnd = true ∧
        (s'.reports rowThenText).any (fun e => e.style?.any Style.isInTable) = true ∧
        ∃ tokens, s'.passed = s.passed ++ s.token :: tokens ∧ .atom .inTable ∈ tokens := by
  have hlevels : rowThenText.LevelsOutsideTables := by decide
  have htrace : (rowThenText.trace? 11).isSome = true := by decide +kernel
  have hstations := rowThenText.stations_eq_trace htrace
  have hrow : rowThenText.stations[5]?.any
      (fun s => (s.reports rowThenText).any Event.isRowEnd) = true := by
    rw [hstations]
    decide +kernel
  have htable : rowThenText.stations[9]?.any
      (fun s => (s.reports rowThenText).any fun e => e.style?.any Style.isInTable) = true := by
    rw [hstations]
    decide +kernel
  obtain ⟨s, hs, hend⟩ := (Option.any_eq_true _ _).1 hrow
  obtain ⟨s', hs', hopen⟩ := (Option.any_eq_true _ _).1 htable
  refine ⟨hlevels, ?_, s, s', hs, hs', hend, hopen, ?_⟩
  · rw [rowThenText.events_walk, hstations]
    decide +kernel
  · obtain ⟨hlt, rfl⟩ := List.getElem?_eq_some_iff.1 hs
    obtain ⟨hlt', rfl⟩ := List.getElem?_eq_some_iff.1 hs'
    obtain ⟨e, he, hend⟩ := List.any_eq_true.1 hend
    obtain ⟨e', he', hopen⟩ := List.any_eq_true.1 hopen
    obtain ⟨hsome, hopen⟩ := (Option.any_eq_true_iff_get _ _).1 hopen
    have hpairs := List.pairwise_iff_getElem.1 (isInTable_after_rowEnd rowThenText hlevels).2.2
    exact (hpairs 5 9 hlt hlt' (by omega) e he hend e' he' _
      (Option.some_get hsome).symm hopen).2

end Document

end RichText
