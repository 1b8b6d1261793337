import RichText.CommandLine
import RichText.Proofs.Machine.Files
set_option autoImplicit false

namespace RichText.CommandLine

/-- What a run is asked for: the page of the document in its input, with the settings of the
configuration, at the path that is given or that the configuration names. -/
def Asks (machine : Machine) (arguments : List String) (output : Path) (html : String) : Prop :=
  ∃ (input : Path) (given : Option Path) (found : Option Configuration) (doc : Document),
    arguments = input.text :: (given.map Path.text).toList ∧
    (Configuration.load : Machine.Run _).run machine = (.ok found, machine) ∧
    (DocumentFile.read input : Machine.Run _).run machine = (.ok doc, machine) ∧
    output = given.getD ((found.getD {}).outputPath input) ∧
    html = doc.html (found.getD {}).render

theorem arguments_of_paths? {arguments : List String} {input : Path} {given : Option Path}
    (h : paths? arguments = some (input, given)) :
    arguments = input.text :: (given.map Path.text).toList := by
  unfold paths? at h
  split at h
  · obtain ⟨rfl, rfl⟩ := Prod.mk.inj (Option.some.inj h)
    rfl
  · obtain ⟨rfl, rfl⟩ := Prod.mk.inj (Option.some.inj h)
    rfl
  · simp at h

/-- A run fails before it touches a file, or sets out to write what it was asked for. -/
theorem run_cases (machine : Machine) (arguments : List String) :
    (∃ failure, (run arguments : Machine.Run _).run machine = (.error failure, machine)) ∨
      ∃ output html, Asks machine arguments output html ∧
        ∀ written machine', (Host.writeWithParents output html.toUTF8 : Machine.Run Bool).run
          machine = (written, machine') →
          (run arguments : Machine.Run _).run machine =
            (if written then .ok () else .error (.writing output .io), machine') := by
  unfold run
  split
  · rename_i input given hpaths
    have hload := Configuration.run_loadFrom machine (Configuration.path machine.environment)
    rw [← Configuration.run_load] at hload
    have hread := DocumentFile.run_read machine input
    generalize Except.map _ _ = config at hload
    generalize DocumentFile.ofContent input _ = doc at hread
    rw [convert, Machine.run_bind hload]
    cases config with
    | error failure => exact .inl ⟨.configuration failure, rfl⟩
    | ok found =>
      dsimp only
      rw [Machine.run_bind hread]
      cases doc with
      | error failure => exact .inl ⟨.reading input failure, rfl⟩
      | ok doc =>
        refine .inr ⟨_, _, ⟨input, given, found, doc, arguments_of_paths? hpaths, hload, hread,
          rfl, rfl⟩, ?_⟩
        intro written machine' hwrite
        dsimp only
        rw [Machine.run_bind (DocumentFile.run_write hwrite)]
        cases written <;> rfl
  · exact .inl ⟨.usage, rfl⟩

/-- A run is all or nothing on files. If it fails, all files are as they were. If it succeeds, the
file at the output path holds the page, and all other files are as they were. What else may be new
in either case is directories that lead to the output path. -/
theorem run_all_or_nothing (machine : Machine) (arguments : List String) :
    ∃ outcome files,
      (run arguments : Machine.Run _).run machine = (outcome, { machine with files := files }) ∧
      (exitCode outcome ≠ 0 →
        (∀ location, files.file? location = machine.files.file? location) ∧
        (files = machine.files ∨ ∃ output html, Asks machine arguments output html ∧
          machine.files.Gains machine.workingDirectory output.parents files)) ∧
      (exitCode outcome = 0 → ∃ output html place, Asks machine arguments output html ∧
        files.locate? machine.workingDirectory output = some place ∧
        files.file? place = some html.toUTF8 ∧
        ∀ other, other ≠ place → files.file? other = machine.files.file? other ∧
          machine.files.GainsAt machine.workingDirectory output.parents files other) := by
  obtain ⟨failure, hrun⟩ | ⟨output, html, hasks, hrun⟩ := run_cases machine arguments
  · refine ⟨.error failure, machine.files, hrun, ?_, ?_⟩
    · exact fun _ => ⟨fun _ => rfl, .inl rfl⟩
    · exact fun h => absurd h Nat.one_ne_zero
  · obtain ⟨written, files, hwrite, hfiles⟩ := Machine.writeWithParents_spec machine output
      html.toUTF8
    refine ⟨_, files, hrun _ _ hwrite, ?_⟩
    cases written with
    | false =>
      refine ⟨fun _ => ⟨fun location => (hfiles location).file?, .inr ?_⟩, ?_⟩
      · exact ⟨output, html, hasks, hfiles⟩
      · exact fun h => absurd h Nat.one_ne_zero
    | true =>
      obtain ⟨place, hfiles⟩ := hfiles
      refine ⟨fun h => absurd rfl h, fun _ => ?_⟩
      refine ⟨output, html, place, hasks, hfiles.locate, hfiles.file, fun other hother => ?_⟩
      exact ⟨(hfiles.others other hother).file?, hfiles.others other hother⟩

def configured : Machine where
  files := { items :=
    [(["h".toList], .directory), (["h".toList, ".config".toList], .directory),
      (["h".toList, ".config".toList, "rtf-weave".toList], .directory),
      (["h".toList, ".config".toList, "rtf-weave".toList, "config.toml".toList],
        .file "output_dir = \"o\"".toUTF8),
      (["d".toList], .file "\x7b\"contents\":[]\x7d".toUTF8)] }
  environment := { bindings := [("HOME", "/h")] }

theorem run_all_or_nothing_configured :
    (∃ output html place files,
      exitCode ((run ["d"] : Machine.Run _).run configured).1 = 0 ∧
      Asks configured ["d"] output html ∧ files.locate? [] output = some place ∧
      files.file? place = some html.toUTF8 ∧
      ((run ["d"] : Machine.Run _).run configured).2 = { configured with files := files }) ∧
    exitCode ((run ["e"] : Machine.Run _).run configured).1 ≠ 0 ∧
      ∀ location, ((run ["e"] : Machine.Run _).run configured).2.files.file? location =
        configured.files.file? location := by
  have hcode : exitCode ((run ["d"] : Machine.Run _).run configured).1 = 0 := by decide +kernel
  have hfails : exitCode ((run ["e"] : Machine.Run _).run configured).1 ≠ 0 := by decide +kernel
  refine ⟨?_, hfails, ?_⟩
  · obtain ⟨outcome, files, hrun, -, hsuccess⟩ := run_all_or_nothing configured ["d"]
    rw [hrun] at hcode ⊢
    obtain ⟨output, html, place, hasks, hlocate, hfile, -⟩ := hsuccess hcode
    exact ⟨output, html, place, files, hcode, hasks, hlocate, hfile, rfl⟩
  · obtain ⟨outcome, files, hrun, hfailure, -⟩ := run_all_or_nothing configured ["e"]
    rw [hrun] at hfails ⊢
    exact (hfailure hfails).1

end RichText.CommandLine
