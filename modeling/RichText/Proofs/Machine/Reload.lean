import RichText.Proofs.Machine.Files
import RichText.Proofs.Toml.Configuration
set_option autoImplicit false

namespace RichText

namespace Path

/-- The parts that count when paths are compared, with an empty one in front of an absolute path. -/
def components (path : Path) : List (List Char) :=
  match path.parts with
  | [[]] => []
  | first :: rest => first :: rest.filter (fun part => !isIdle part)
  | [] => []

/-- The paths lead through the same parts, however they are written. -/
def Same (a b : Path) : Prop := a.components = b.components

instance (a b : Path) : Decidable (Same a b) := inferInstanceAs (Decidable (_ = _))

example : Same ⟨"/a//b/./"⟩ ⟨"/a/b"⟩ ∧ ¬Same ⟨"./a"⟩ ⟨"a"⟩ := by decide

end Path

namespace Environment

/-- A text that nothing is left to do for once it is expanded: it refers to a variable without a
value, so that it is kept, or neither a dollar sign nor a new tilde in front comes out of it. -/
def Settles (env : Environment) (path : String) : Prop :=
  ∀ s ∈ env.substitute? path.toList, '$' ∉ s ∧
    (startsWithTilde s = true → startsWithTilde path.toList = true) ∧
    ∀ home ∈ env.home?, '$' ∉ home.toList ∧ startsWithTilde home.toList = false

theorem expandTilde_cases (env : Environment) (s : List Char) :
    env.expandTilde s = s ∨ ∃ home rest, env.home? = some home ∧ rest ⊆ s ∧
      env.expandTilde s = home.toList ++ rest ∧ startsWithTilde rest = false := by
  unfold expandTilde
  split
  · rename_i home h
    exact .inr ⟨home, [], h, List.nil_subset _, by simp, rfl⟩
  · rename_i rest home h
    exact .inr ⟨home, '/' :: rest, h, List.subset_cons_self _ _, rfl, rfl⟩
  · exact .inl rfl

theorem startsWithTilde_append {s rest : List Char} (h : startsWithTilde s = false)
    (hrest : startsWithTilde rest = false) : startsWithTilde (s ++ rest) = false := by
  cases s with
  | nil => exact hrest
  | cons c s => exact h

theorem expand_of_notMem (env : Environment) {path : String} (h : '$' ∉ path.toList) :
    env.expand path = String.ofList (env.expandTilde path.toList) := by
  rw [expand, substitute?_of_not_mem env h]
  simp

theorem expand_expand (env : Environment) {path : String} (h : env.Settles path) :
    env.expand (env.expand path) = env.expand path := by
  cases hs : env.substitute? path.toList with
  | none =>
    have hkept : env.expand path = path := by rw [expand, hs]
    rw [hkept, hkept]
  | some s =>
    obtain ⟨hdollar, htilde, hhome⟩ := h s hs
    have hnew : ¬(startsWithTilde s && !startsWithTilde path.toList) = true := by
      cases hstart : startsWithTilde s <;> simp_all
    have hexpand : env.expand path = String.ofList (env.expandTilde s) := by
      rw [expand, hs]
      exact if_neg hnew
    rw [hexpand]
    obtain hkept | ⟨home, rest, hsome, hsub, hreplaced, hrest⟩ := env.expandTilde_cases s
    · rw [hkept, expand_of_notMem env (by simpa using hdollar), String.toList_ofList, hkept]
    · obtain ⟨hdollar', htilde'⟩ := hhome home hsome
      have hplain : '$' ∉ home.toList ++ rest := by
        simpa [hdollar'] using fun hmem => hdollar (hsub hmem)
      rw [hreplaced, expand_eq_self env (by simpa using hplain)]
      rw [String.toList_ofList]
      exact startsWithTilde_append htilde' hrest

end Environment

namespace Configuration

def Same (a b : Configuration) : Prop :=
  a.render = b.render ∧
    a.outputDirectory.map Path.components = b.outputDirectory.map Path.components

instance (a b : Configuration) : Decidable (Same a b) := inferInstanceAs (Decidable (_ ∧ _))

theorem fromUTF8?_toUTF8 (s : String) : String.fromUTF8? s.toUTF8 = some s := by
  unfold String.fromUTF8?
  split
  · rfl
  · rename_i hinvalid
    exact absurd s.isValidUTF8 hinvalid

theorem ofContent_write (path : Path) (config : Configuration) :
    ofContent path (.ok config.write.toUTF8) = .ok (some config) := by
  rw [ofContent, fromUTF8?_toUTF8]
  dsimp only
  rw [parse?_write]

theorem run_loadFrom_saved {machine machine' : Machine} {config : Configuration} {target : Path}
    (hsave : (config.saveTo target : Machine.Run _).run machine = (true, machine'))
    (hread : machine.refusesReading target = none) :
    (loadFrom target : Machine.Run _).run machine' =
      (.ok (some (config.expand machine.environment)), machine') := by
  obtain ⟨written, files, hwrite, hfiles⟩ :=
    Machine.writeWithParents_spec machine target config.write.toUTF8
  obtain ⟨rfl, rfl⟩ := Prod.mk.inj (hwrite.symm.trans hsave)
  obtain ⟨place, hholds⟩ := hfiles
  have hcontent : ({ machine with files := files } : Machine).read target =
      .ok config.write.toUTF8 := by
    rw [Machine.read, hread]
    exact hholds.read
  rw [run_loadFrom, hcontent, ofContent_write]
  rfl

theorem expand_same_iff (env : Environment) (config : Configuration) :
    (config.expand env).Same config ↔
      ∀ dir ∈ config.outputDirectory, Path.Same ⟨env.expand dir.text⟩ dir := by
  obtain ⟨outputDirectory, render⟩ := config
  cases outputDirectory <;> simp [Same, expand, Path.Same]

theorem expand_expand (env : Environment) {config : Configuration}
    (h : ∀ dir ∈ config.outputDirectory, env.Settles dir.text) :
    (config.expand env).expand env = config.expand env := by
  obtain ⟨outputDirectory, render⟩ := config
  cases outputDirectory with
  | none => rfl
  | some dir => simp [expand, env.expand_expand (h dir rfl)]

/-- A configuration that is loaded, saved and loaded again in the same environment is expanded
twice. That is the same configuration just if expanding its output directory once more leads to the
same path, as it does if the text in the file settles. -/
theorem reload_same_iff {machine machine' : Machine} {source target : Path}
    {loaded : Configuration}
    (hload : (loadFrom source : Machine.Run _).run machine = (.ok (some loaded), machine))
    (hsave : (loaded.saveTo target : Machine.Run _).run machine = (true, machine'))
    (hread : machine.refusesReading target = none) :
    ∃ stored again, ofContent source (machine.read source) = .ok (some stored) ∧
      (loadFrom target : Machine.Run _).run machine' = (.ok (some again), machine') ∧
      (again.Same loaded ↔
        ∀ dir ∈ loaded.outputDirectory, Path.Same ⟨machine.environment.expand dir.text⟩ dir) ∧
      ((∀ dir ∈ stored.outputDirectory, machine.environment.Settles dir.text) →
        again = loaded) := by
  rw [run_loadFrom] at hload
  have hfound := (Prod.mk.inj hload).1
  cases hstored : ofContent source (machine.read source) with
  | error => simp [hstored, Except.map] at hfound
  | ok stored =>
    cases stored with
    | none => simp [hstored, Except.map] at hfound
    | some stored =>
      obtain rfl : stored.expand machine.environment = loaded := by
        simpa [hstored, Except.map] using hfound
      refine ⟨stored, _, rfl, run_loadFrom_saved hsave hread, expand_same_iff _ _, ?_⟩
      exact expand_expand machine.environment

def keeping (text : String) : Machine where
  files := { items := [(["kept".toList], .file text.toUTF8)] }
  environment := { bindings := [("OUT", "/custom/out"), ("HOME", "/home/oracle")] }

def withDirectory (directory : String) : Configuration := { outputDirectory := some ⟨directory⟩ }

def loaded? (machine : Machine) (path : Path) : Option Configuration :=
  ((loadFrom path : Machine.Run _).run machine).1.toOption.join

theorem run_loadFrom_of_loaded? {machine : Machine} {path : Path} {config : Configuration}
    (h : loaded? machine path = some config) :
    (loadFrom path : Machine.Run _).run machine = (.ok (some config), machine) := by
  unfold loaded? at h
  rw [run_loadFrom] at h ⊢
  generalize Except.map _ _ = result at h
  cases result with
  | error => simp [Except.toOption] at h
  | ok found =>
    obtain rfl : found = some config := by simpa [Except.toOption] using h
    rfl

theorem reload_same_iff_variable :
    ∃ machine again, (saveTo (withDirectory "/custom/out/html") ⟨"saved"⟩ : Machine.Run _).run
        (keeping "output_dir = '$OUT/html'") = (true, machine) ∧
      (loadFrom ⟨"saved"⟩ : Machine.Run _).run machine = (.ok (some again), machine) ∧
      again.Same (withDirectory "/custom/out/html") := by
  have hfound : loaded? (keeping "output_dir = '$OUT/html'") ⟨"kept"⟩ =
      some (withDirectory "/custom/out/html") := by decide +kernel
  have hload := run_loadFrom_of_loaded? hfound
  have hsaves : ((saveTo (withDirectory "/custom/out/html") ⟨"saved"⟩ : Machine.Run _).run
      (keeping "output_dir = '$OUT/html'")).1 = true := by decide +kernel
  obtain ⟨machine, hsave⟩ : ∃ machine, (saveTo (withDirectory "/custom/out/html")
      ⟨"saved"⟩ : Machine.Run _).run (keeping "output_dir = '$OUT/html'") = (true, machine) :=
    ⟨_, Prod.ext hsaves rfl⟩
  obtain ⟨stored, again, -, hagain, hsame, -⟩ := reload_same_iff hload hsave rfl
  refine ⟨machine, again, hsave, hagain, hsame.2 ?_⟩
  rintro dir ⟨⟩
  decide +kernel

/-- A dollar sign that stands for itself is written as it is, and begins a reference the next
time. -/
theorem reload_dollar :
    ∃ machine, (saveTo (withDirectory "$HOME") ⟨"saved"⟩ : Machine.Run _).run
        (keeping "output_dir = \"$$HOME\"\n") = (true, machine) ∧
      loaded? (keeping "output_dir = \"$$HOME\"\n") ⟨"kept"⟩ = some (withDirectory "$HOME") ∧
      loaded? machine ⟨"saved"⟩ = some (withDirectory "/home/oracle") ∧
      ¬(withDirectory "/home/oracle").Same (withDirectory "$HOME") := by
  have hsaves : ((saveTo (withDirectory "$HOME") ⟨"saved"⟩ : Machine.Run _).run
      (keeping "output_dir = \"$$HOME\"\n")).1 = true := by decide +kernel
  exact ⟨_, Prod.ext hsaves rfl, by decide +kernel, by decide +kernel, by decide⟩

end Configuration

end RichText
