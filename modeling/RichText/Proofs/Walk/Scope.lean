import RichText.Proofs.Walk.Induction
set_option autoImplicit false

namespace RichText

def Event.isRowEnd : Event → Bool
  | .breaks _ .row _ => true
  | _ => false

theorem Style.setInTable_false_twice (style : Style) :
    (style.setInTable false).setInTable false = style.setInTable false := by
  simp [Style.setInTable]

namespace Row

theorem isIgnorable_of_takeContents? {ts contents rest : List Token}
    (h : takeContents? ts = some (contents, rest)) : Group.isIgnorable contents = false := by
  unfold takeContents? at h
  split at h
  · obtain ⟨rfl, _⟩ := Prod.mk.inj (Option.some.inj h)
    cases hlead : ts.takeWhile isLead with
    | nil => rfl
    | cons t lead =>
      have hall : (ts.takeWhile isLead).all isLead = true := List.all_takeWhile
      rw [hlead, List.all_cons, Bool.and_eq_true] at hall
      have hword : isLead (.atom .ignoreUnrecognized) = false := by decide
      rw [List.cons_append]
      unfold Group.isIgnorable
      split
      · rename_i heq
        rw [(List.cons.inj heq).1, hword] at hall
        exact Bool.noConfusion hall.1
      · rfl
  · simp at h

theorem isIgnorable_of_mem_takeFrom {index : Nat} {ts : List Token} {r : Row}
    (h : r ∈ (takeFrom index ts).1) : Group.isIgnorable r.contents = false := by
  fun_induction takeFrom index ts with
  | case1 index ts contents rest htake rows rest' hrec ih =>
    rw [hrec] at ih
    obtain rfl | hr := List.mem_cons.1 h
    · exact isIgnorable_of_takeContents? htake
    · exact ih hr
  | case2 => simp at h

end Row

namespace Walk

/-- Styles around a scope, after the events have been reported from inside it. -/
def framed (reported : List Event) (styles : List Style) : List Style :=
  if reported.any Event.isRowEnd then styles.map (fun style => style.setInTable false) else styles

theorem framed_append (first second : List Event) (styles : List Style) :
    framed (first ++ second) styles = framed second (framed first styles) := by
  by_cases h₁ : first.any Event.isRowEnd = true
  · by_cases h₂ : second.any Event.isRowEnd = true
    · simp only [framed, List.any_append, h₁, h₂, Bool.or_self, if_true, List.map_map]
      refine List.map_congr_left (fun style _ => ?_)
      exact (style.setInTable_false_twice).symm
    · simp only [framed, List.any_append, h₁, h₂, Bool.true_or, if_true]
      simp
  · simp [framed, List.any_append, h₁]

theorem framed_of_not_any {reported : List Event} (h : reported.any Event.isRowEnd = false)
    (styles : List Style) : framed reported styles = styles := by
  simp [framed, h]

@[simp] theorem length_framed (reported : List Event) (styles : List Style) :
    (framed reported styles).length = styles.length := by
  unfold framed
  split
  · simp
  · rfl

theorem framed_cons (reported : List Event) (style : Style) (styles : List Style) :
    framed reported (style :: styles) = (framed reported [style]).headD style ::
      framed reported styles := by
  unfold framed
  split <;> rfl

/-- The walk went on from `w` to `w'` and left the styles around its scope framed. -/
def Frames (w w' : Walk) : Prop :=
  ∃ reported, w'.events.toList = w.events.toList ++ reported ∧
    w'.enclosing = framed reported w.enclosing

theorem Frames.refl (w : Walk) : Frames w w := ⟨[], by simp, rfl⟩

theorem Frames.trans {w₁ w₂ w₃ : Walk} (h₁ : Frames w₁ w₂) (h₂ : Frames w₂ w₃) :
    Frames w₁ w₃ := by
  obtain ⟨first, hevents₁, hscopes₁⟩ := h₁
  obtain ⟨second, hevents₂, hscopes₂⟩ := h₂
  refine ⟨first ++ second, ?_, ?_⟩
  · rw [hevents₂, hevents₁, List.append_assoc]
  · rw [hscopes₂, hscopes₁, framed_append]

theorem any_isRowEnd_dueTabs (w : Walk) : w.dueTabs.any Event.isRowEnd = false := by
  unfold dueTabs
  split <;> rfl

theorem frames_perform (doc : Document) (w : Walk) (action : Action) :
    Frames w (w.perform doc action) := by
  refine ⟨w.reports doc action, events_perform doc w action, ?_⟩
  have hdue : ∀ event : Event, event.isRowEnd = false →
      ((w.resolve doc).dueTabs ++ [event]).any Event.isRowEnd = false := by
    intro event hevent
    rw [List.any_append, any_isRowEnd_dueTabs, Bool.false_or, List.any_cons, hevent]
    rfl
  cases action with
  | text s =>
    rw [reports, framed_of_not_any (hdue _ rfl)]
    simp [perform, emit, resolve]
  | picture picture =>
    rw [reports, framed_of_not_any (hdue _ rfl)]
    simp [perform, emit, resolve]
  | breakMark kind =>
    cases kind with
    | row => simp [perform, reports, reportBreak, framed, leaveTable, emit, resolve, Event.isRowEnd]
    | _ => simp [perform, reports, reportBreak, framed, emit, resolve, Event.isRowEnd]
  | _ => rfl

theorem frames_leave {w inner : Walk} (h : Frames w.enter inner) : Frames w (w.leave inner) := by
  obtain ⟨reported, hevents, hscopes⟩ := h
  refine ⟨reported, hevents, ?_⟩
  have hcons := framed_cons reported w.style w.enclosing
  simp only [leave, hscopes, enter]
  rw [hcons]
  rfl

theorem frames_throughRows {rows : List Row} {w w' : Walk}
    (h : ThroughRows (fun _ _ => Frames) rows w w') : Frames w w' := by
  induction h with
  | nil w => exact .refl w
  | cons hrow _ ih => exact (frames_leave hrow).trans ih

/-- However deep it nests, a walk frames the scopes around the one that it is in. -/
theorem frames_run (doc : Document) (row : Option Row) (ts : List Token) (w : Walk) :
    Frames w (run doc row ts w) := by
  refine run_induction doc (motive := fun _ _ => Frames) ?nil ?perform ?scope ?table row ts w
  case nil =>
    intro _ w
    exact .refl w
  case perform =>
    intro _ _ _ w action _ _ _ _ _ ih
    exact (frames_perform doc w action).trans ih
  case scope =>
    intro _ _ _ w inner _ _ hinner hrest
    exact (frames_leave hinner).trans hrest
  case table =>
    intro _ w middle _ _ hrows hrest
    exact (frames_throughRows hrows).trans hrest

def opened (active : Bool) (scopes : List Style) (events : Array Event) : Walk where
  style := scopes.headD {}
  enclosing := scopes
  active := active
  events := events

/-- Walks a group as a scope of its own, given the styles of the open scopes, innermost first,
and what has been reported. Gives both as the group leaves them. -/
def walkGroup (doc : Document) (row : Option Row) (active : Bool) (contents : List Token)
    (scopes : List Style) (events : Array Event) : List Style × Array Event :=
  if Group.isIgnorable contents then (scopes, events)
  else
    ((run doc row contents (opened active scopes events)).enclosing,
      (run doc row contents (opened active scopes events)).events)

/-- The body of a document is walked as a group without any scope around it. -/
theorem events_walk (doc : Document) :
    doc.walk.events = (walkGroup doc none true doc.body [] #[]).2 := by
  unfold Document.walk walkGroup
  split <;> rfl

/-- A group that a walk enters is walked as a group on top of the scopes so far. -/
theorem leave_run_enter (doc : Document) (row : Option Row) {contents : List Token} (w : Walk)
    (h : Group.isIgnorable contents = false) :
    ((w.leave (run doc row contents w.enter)).scopes,
      (w.leave (run doc row contents w.enter)).events) =
      walkGroup doc row w.active contents w.scopes w.events := by
  obtain ⟨reported, hevents, hscopes⟩ := frames_run doc row contents w.enter
  have hcons : w.enter.enclosing = w.style :: w.enclosing := rfl
  rw [hcons, framed_cons] at hscopes
  have henter : opened w.active w.scopes w.events = w.enter := rfl
  rw [walkGroup, h, henter, if_neg Bool.false_ne_true, hscopes]
  simp only [scopes, leave, hscopes]
  rfl

/-- The rows of a table are walked as groups, one after another. -/
theorem leave_run_enter_row (doc : Document) {ts : List Token} {r : Row} (w : Walk)
    (h : r ∈ (Row.take ts).1) :
    ((w.leave (run doc (some r) r.contents w.enter)).scopes,
      (w.leave (run doc (some r) r.contents w.enter)).events) =
      walkGroup doc (some r) w.active r.contents w.scopes w.events :=
  leave_run_enter doc (some r) w (Row.isIgnorable_of_mem_takeFrom h)

/-- Whatever a group does inside, every scope around it has the style that it had before, only
without its table entry if a row ended meanwhile. -/
theorem scopes_walkGroup (doc : Document) (row : Option Row) (active : Bool)
    (contents : List Token) (scopes : List Style) (events : Array Event) :
    ∃ reported : List Event,
      (walkGroup doc row active contents scopes events).2.toList = events.toList ++ reported ∧
      (walkGroup doc row active contents scopes events).1.length = scopes.length ∧
      (walkGroup doc row active contents scopes events).1 =
        if reported.any Event.isRowEnd then scopes.map (fun style => style.setInTable false)
        else scopes := by
  unfold walkGroup
  split
  · exact ⟨[], by simp, rfl, rfl⟩
  · obtain ⟨reported, hevents, hscopes⟩ :=
      frames_run doc row contents (opened active scopes events)
    refine ⟨reported, hevents, ?_, hscopes⟩
    have hlength := congrArg List.length hscopes
    rwa [length_framed] at hlength

end Walk

end RichText
