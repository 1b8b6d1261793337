import RichText.Proofs.Html.PlacedRuns
set_option autoImplicit false

namespace RichText.Html

theorem linkAttributes_inj {link link' : Hyperlink} {href href' : String}
    (h : Page.linkAttributes link href = Page.linkAttributes link' href') :
    link.title = link'.title ∧ link.target = link'.target := by
  obtain ⟨_, hrest⟩ := List.cons.inj h
  cases htitle : link.title <;> cases htitle' : link'.title <;>
    cases htarget : link.target <;> cases htarget' : link'.target <;>
    simp_all

namespace Run

/-- The link around the run has the title and the target of its own one, if that leads anywhere. -/
def Faithful (run : Run) : Prop :=
  ∀ link own, run.link = some link → run.style.hyperlink? = some own → own.href?.isSome →
    link.title = own.title ∧ link.target = own.target

theorem ownAttributes_eq_iff {run : Run} (h : run.Led) :
    ownAttributes run.link = ownAttributes run.style.hyperlink? ↔ run.Faithful := by
  cases hown : run.style.hyperlink?.bind Hyperlink.href? with
  | none =>
    rw [ownAttributes_of_eq_none hown, ownAttributes_of_eq_none (h.trans hown)]
    refine iff_of_true rfl ?_
    intro link own _ hstyle hsome
    rw [hstyle, Option.bind_some] at hown
    rw [hown] at hsome
    exact absurd hsome Bool.false_ne_true
  | some href =>
    obtain ⟨own, hstyle, hhref⟩ := Option.bind_eq_some_iff.1 hown
    obtain ⟨link, hlink, hhref'⟩ := Option.bind_eq_some_iff.1 (h.trans hown)
    rw [hlink, hstyle, ownAttributes_of_eq_some hhref, ownAttributes_of_eq_some hhref']
    constructor
    · intro heq link₁ own₁ hlink₁ hstyle₁ _
      obtain rfl := Option.some.inj (hlink.symm.trans hlink₁)
      obtain rfl := Option.some.inj (hstyle.symm.trans hstyle₁)
      exact linkAttributes_inj (List.cons.inj heq).1
    · intro hfaithful
      obtain ⟨htitle, htarget⟩ := hfaithful link own hlink hstyle (by rw [hhref]; rfl)
      simp only [Page.linkAttributes, htitle, htarget]

end Run

namespace Page

/-- Every visible character of a page stands in a link just if its own one leads somewhere, and that
link leads there; its title and target are those of the link that was open when it was written. All
of the characters have just their own links around them if these titles and targets are theirs. -/
theorem links_ofEvents (doc : Document) (settings : RenderSettings) (events : List Event) :
    let runs := (Runs.ofEvents settings events).runs
    let links := surrounding .a (ofEvents doc settings events).html.toList
    runs.map Run.toWritten = written none events ∧
      links = some (runs.map fun run => (run.char, ownAttributes run.link)) ∧
      (∀ run ∈ runs, run.Led) ∧
      (links = some ((written none events).map fun w =>
          (w.char, ownAttributes w.style.hyperlink?)) ↔
        ∀ run ∈ runs, run.Faithful) := by
  intro runs links
  obtain ⟨hwritten, hled⟩ := Runs.runs_ofEvents settings events
  have hlinks : links = some (runs.map fun run => (run.char, ownAttributes run.link)) := by
    simpa only [Run.within_a] using surrounding_ofEvents (e := .a) rfl doc settings events
  refine ⟨hwritten, hlinks, hled, ?_⟩
  rw [hlinks, ← hwritten, List.map_map, Option.some.injEq, List.map_inj_left]
  constructor
  · intro h run hrun
    exact (Run.ownAttributes_eq_iff (hled run hrun)).1 (Prod.mk.inj (h run hrun)).2
  · intro h run hrun
    exact congrArg (run.char, ·) ((Run.ownAttributes_eq_iff (hled run hrun)).2 (h run hrun))

def retitled : List Event :=
  [.text (.ofList [.hyperlink { url := some "u", title := some "A" }]) "x",
    .text (.ofList [.hyperlink { url := some "u", title := some "B" }]) "y"]

theorem links_retitled :
    surrounding .a (ofEvents {} {} retitled).html.toList =
        some [('x', [[⟨.href, "u"⟩, ⟨.title, "A"⟩]]), ('y', [[⟨.href, "u"⟩, ⟨.title, "A"⟩]])] ∧
      (written none retitled).map (fun w => (w.char, ownAttributes w.style.hyperlink?)) =
        [('x', [[⟨.href, "u"⟩, ⟨.title, "A"⟩]]), ('y', [[⟨.href, "u"⟩, ⟨.title, "B"⟩]])] := by
  refine ⟨?_, by decide⟩
  rw [surrounding_ofEvents (e := .a) rfl]
  decide

end Page

end RichText.Html
