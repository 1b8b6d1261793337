import RichText.Proofs.Html.Told
set_option autoImplicit false

/-!
Runs of text: the visible characters of a sequence of events, each with the link that is open
around it. A link that is open is taken for any other one to the same address, until the block
ends, a table is entered or left, or an anchor is put in between. Main statement: `runs_ofEvents`.
-/
namespace RichText.Html

/-- A visible character with the style that it is written in, and the default font at that time. -/
structure Written where
  char : Char
  style : Style
  defaultFont : Option Font
deriving DecidableEq

def written : Option Font → List Event → List Written
  | _, [] => []
  | font, .text style s :: events =>
    (if style.isHidden then [] else s.toList.map (⟨·, style, font⟩)) ++ written font events
  | _, .defaultFont font :: events => written font events
  | font, .defaultTabWidth _ :: events => written font events
  | font, .breaks _ _ _ :: events => written font events
  | font, .picture _ _ :: events => written font events
  | font, .close :: events => written font events

/-- A visible character with the link that is open around it, which need not be its own. -/
structure Run extends Written where
  link : Option Hyperlink
deriving DecidableEq

/-- The runs so far, with all that decides whether a link stays open. -/
structure Runs where
  runs : List Run := []
  link : Option Hyperlink := none
  defaultFont : Option Font := none
  inTable : Bool := false
  bookmarks : List String := []
  closed : Bool := false
deriving DecidableEq

namespace Runs

def endLink (w : Runs) : Runs := { w with link := none }

def place (w : Runs) (inTable : Bool) : Runs :=
  if w.inTable = inTable then w else { w with link := none, inTable := inTable }

def ask (w : Runs) : Option String → Runs
  | some id => if id ∈ w.bookmarks then w else { w with link := none, bookmarks := id :: w.bookmarks }
  | none => w

/-- The open link goes on if it has the address that is wanted. -/
def follow (w : Runs) (link : Option Hyperlink) : Runs :=
  if w.link.bind Hyperlink.href? = link.bind Hyperlink.href? then w else { w with link := link }

def enter (settings : RenderSettings) (w : Runs) (style : Style) : Runs :=
  ((w.place style.isInTable).ask (style.anchorId? settings)).follow style.hyperlink?

def write (w : Runs) (style : Style) (s : String) : Runs :=
  { w with runs := w.runs ++ s.toList.map fun c => ⟨⟨c, style, w.defaultFont⟩, w.link⟩ }

def addBreak (settings : RenderSettings) (w : Runs) (style : Style) : BreakKind → Runs
  | .tab => w.enter settings style
  | .line => w.place style.isInTable
  | .paragraph => (w.place style.isInTable).endLink
  | .section | .row => w.endLink
  | .page => w.endLink.place false
  | .cell => (w.place (style.isInTable || w.inTable)).endLink

def add (settings : RenderSettings) (w : Runs) : Event → Runs
  | .defaultFont font => { w with defaultFont := font }
  | .defaultTabWidth _ => w
  | .text style s =>
    if s.isEmpty || style.isHidden then w else (w.enter settings style).write style s
  | .breaks style kind _ => w.addBreak settings style kind
  | .picture style _ => if settings.embedPictures then w.enter settings style else w
  | .close => if w.closed then w else { w.endLink.place false with closed := true }

def ofEvents (settings : RenderSettings) (events : List Event) : Runs :=
  events.foldl (add settings) {}

end Runs

/-! The runs of events -/

def Run.Led (run : Run) : Prop :=
  run.link.bind Hyperlink.href? = run.style.hyperlink?.bind Hyperlink.href?

namespace Runs

def content (w : Runs) : List Run × Option Font := (w.runs, w.defaultFont)

variable {w : Runs} {settings : RenderSettings} {style : Style}

@[simp] theorem content_place (inTable : Bool) : (w.place inTable).content = w.content := by
  unfold place
  split <;> rfl

@[simp] theorem content_endLink : w.endLink.content = w.content := rfl

@[simp] theorem content_ask (id : Option String) : (w.ask id).content = w.content := by
  unfold ask
  split
  · split <;> rfl
  · rfl

@[simp] theorem content_follow (link : Option Hyperlink) : (w.follow link).content = w.content := by
  unfold follow
  split <;> rfl

@[simp] theorem content_enter : (w.enter settings style).content = w.content := by
  simp [enter]

@[simp] theorem content_addBreak (kind : BreakKind) :
    (w.addBreak settings style kind).content = w.content := by
  cases kind <;> simp [addBreak]

@[simp] theorem content_add_picture (picture : Picture) :
    (w.add settings (.picture style picture)).content = w.content := by
  unfold add
  dsimp only
  split <;> simp

@[simp] theorem content_add_close : (w.add settings .close).content = w.content := by
  unfold add
  dsimp only
  split
  · rfl
  · exact content_place false

theorem href?_enter (settings : RenderSettings) (w : Runs) (style : Style) :
    (w.enter settings style).link.bind Hyperlink.href? =
      style.hyperlink?.bind Hyperlink.href? := by
  unfold enter follow
  split
  · assumption
  · rfl

/-- The new runs are what an event writes, and all of them are led right. -/
structure Writes (settings : RenderSettings) (w : Runs) (event : Event) (new : List Run) : Prop where
  runs_eq : (w.add settings event).runs = w.runs ++ new
  led : ∀ run ∈ new, run.Led
  written_eq : ∀ events, written w.defaultFont (event :: events) =
    new.map Run.toWritten ++ written (w.add settings event).defaultFont events

theorem Writes.of_content {event : Event} (hcontent : (w.add settings event).content = w.content)
    (hwritten : ∀ events, written w.defaultFont (event :: events) = written w.defaultFont events) :
    Writes settings w event [] := by
  obtain ⟨hruns, hfont⟩ := Prod.mk.inj hcontent
  refine ⟨by rw [hruns, List.append_nil], by simp, ?_⟩
  intro events
  rw [hwritten, hfont]
  rfl

theorem exists_writes (settings : RenderSettings) (w : Runs) (event : Event) :
    ∃ new, Writes settings w event new := by
  cases event with
  | defaultFont font => exact ⟨[], (List.append_nil _).symm, by simp, fun _ => rfl⟩
  | defaultTabWidth width => exact ⟨[], .of_content rfl fun _ => rfl⟩
  | breaks style kind count => exact ⟨[], .of_content (content_addBreak kind) fun _ => rfl⟩
  | picture style picture => exact ⟨[], .of_content (content_add_picture picture) fun _ => rfl⟩
  | close => exact ⟨[], .of_content content_add_close fun _ => rfl⟩
  | text style s =>
    by_cases hunseen : (s.isEmpty || style.isHidden) = true
    · refine ⟨[], .of_content (by rw [add, if_pos hunseen]) ?_⟩
      intro events
      obtain hs | hhidden := Bool.or_eq_true_iff.1 hunseen
      · simp [written, String.isEmpty_iff.1 hs]
      · simp [written, hhidden]
    · have hhidden : ¬style.isHidden = true := by simp_all
      have hcontent : (w.enter settings style).content = w.content := content_enter
      obtain ⟨hruns, hfont⟩ := Prod.mk.inj hcontent
      refine ⟨s.toList.map fun c => ⟨⟨c, style, w.defaultFont⟩, (w.enter settings style).link⟩,
        ?_, ?_, ?_⟩
      · rw [add, if_neg hunseen, write, hruns, hfont]
      · intro run hrun
        obtain ⟨c, _, rfl⟩ := List.mem_map.1 hrun
        exact href?_enter settings w style
      · intro events
        rw [add, if_neg hunseen, write, hfont, written, if_neg hhidden, List.map_map]
        rfl

theorem exists_foldl (settings : RenderSettings) (w : Runs) (events : List Event) :
    ∃ new, (events.foldl (add settings) w).runs = w.runs ++ new ∧ (∀ run ∈ new, run.Led) ∧
      written w.defaultFont events = new.map Run.toWritten := by
  induction events generalizing w with
  | nil => exact ⟨[], by simp, by simp, rfl⟩
  | cons event events ih =>
    obtain ⟨first, hfirst⟩ := exists_writes settings w event
    obtain ⟨rest, hruns, hled, hwritten⟩ := ih (w.add settings event)
    refine ⟨first ++ rest, ?_, ?_, ?_⟩
    · rw [List.foldl_cons, hruns, hfirst.runs_eq, List.append_assoc]
    · intro run hrun
      obtain hrun | hrun := List.mem_append.1 hrun
      · exact hfirst.led run hrun
      · exact hled run hrun
    · rw [hfirst.written_eq, hwritten, List.map_append]

/-- The runs of events are their visible characters, in links that lead right. -/
theorem runs_ofEvents (settings : RenderSettings) (events : List Event) :
    (ofEvents settings events).runs.map Run.toWritten = written none events ∧
      ∀ run ∈ (ofEvents settings events).runs, run.Led := by
  obtain ⟨new, hnew, hled, hwritten⟩ := exists_foldl settings {} events
  rw [ofEvents, hnew]
  exact ⟨hwritten.symm, hled⟩

end Runs

end RichText.Html
