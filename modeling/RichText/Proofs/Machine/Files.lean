import RichText.Host
set_option autoImplicit false

namespace RichText

def Path.parents (path : Path) : List Path := path.parent?.elim [] Path.lineage

namespace FileTree

variable {tree tree' : FileTree} {base : Location}

theorem locate?_mono (h : ∀ location, tree.isDirectory location = true →
    tree'.isDirectory location = true) {path : Path} {location : Location}
    (hlocate : tree.locate? base path = some location) :
    tree'.locate? base path = some location := by
  have hfollow : ∀ here part there, tree.follow? here part = some there →
      tree'.follow? here part = some there := by
    intro here part there hstep
    unfold follow? at hstep ⊢
    cases hdir : tree.isDirectory here with
    | false => simp [hdir] at hstep
    | true => simpa [hdir, h here hdir] using hstep
  have hfold : ∀ (parts : List (List Char)) here there,
      parts.foldlM (follow? tree) here = some there →
        parts.foldlM (follow? tree') here = some there := by
    intro parts
    induction parts with
    | nil => exact fun _ _ h => h
    | cons part parts ih =>
      intro here there hfolded
      rw [List.foldlM_cons] at hfolded ⊢
      obtain ⟨next, hnext, hrest⟩ := Option.bind_eq_some_iff.1 hfolded
      exact Option.bind_eq_some_iff.2 ⟨next, hfollow _ _ _ hnext, ih _ _ hrest⟩
  unfold locate? at hlocate ⊢
  split at hlocate
  · simp at hlocate
  · split at hlocate
    · rename_i hlength
      rw [if_pos hlength]
      exact hfold _ _ _ hlocate
    · simp at hlocate

theorem isDirectory_iff {location : Location} :
    tree.isDirectory location = true ↔ tree.get? location = some .directory := by
  unfold isDirectory
  split <;> simp_all

/-! Making directories -/

/-- At a location nothing has changed, or there is a new directory that some of the paths lead
to. -/
def GainsAt (base : Location) (paths : List Path) (tree tree' : FileTree) (location : Location) :
    Prop :=
  tree'.get? location = tree.get? location ∨
    tree.get? location = none ∧ tree'.get? location = some .directory ∧
      ∃ path ∈ paths, tree'.locate? base path = some location

/-- All that is new in `tree'` is directories, and some of the paths lead to them. -/
def Gains (base : Location) (paths : List Path) (tree tree' : FileTree) : Prop :=
  ∀ location, GainsAt base paths tree tree' location

theorem GainsAt.file? {paths : List Path} {location : Location}
    (h : GainsAt base paths tree tree' location) : tree'.file? location = tree.file? location := by
  obtain heq | ⟨hbefore, hafter, _⟩ := h
  · rw [FileTree.file?, FileTree.file?, heq]
  · simp [FileTree.file?, hbefore, hafter]

namespace Gains

variable {paths : List Path}

theorem refl (base : Location) (paths : List Path) (tree : FileTree) :
    Gains base paths tree tree := fun _ => .inl rfl

theorem isDirectory (h : Gains base paths tree tree') {location : Location}
    (hdir : tree.isDirectory location = true) : tree'.isDirectory location = true := by
  rw [isDirectory_iff] at hdir ⊢
  obtain heq | ⟨hnone, _⟩ := h location
  · rw [heq, hdir]
  · simp [hdir] at hnone

theorem trans {paths' : List Path} {tree'' : FileTree} (h : Gains base paths tree tree')
    (h' : Gains base paths' tree' tree'') : Gains base (paths ++ paths') tree tree'' := by
  intro location
  obtain heq' | ⟨hbefore', hafter', path, hpath, hlocate⟩ := h' location
  · obtain heq | ⟨hbefore, hafter, path, hpath, hlocate⟩ := h location
    · exact .inl (heq'.trans heq)
    · refine .inr ⟨hbefore, heq'.trans hafter, path, List.mem_append_left _ hpath, ?_⟩
      exact locate?_mono (fun _ => h'.isDirectory) hlocate
  · obtain heq | ⟨_, hafter, _⟩ := h location
    · exact .inr ⟨heq ▸ hbefore', hafter', path, List.mem_append_right _ hpath, hlocate⟩
    · simp [hafter] at hbefore'

end Gains

theorem gains_makeDirectory {refuses : Path → Bool} {path : Path}
    (h : tree.makeDirectory? refuses base path = some tree') : Gains base [path] tree tree' := by
  have hget := get?_makeDirectory h
  have hmono : ∀ location, tree.isDirectory location = true →
      tree'.isDirectory location = true := by
    intro location hdir
    rw [isDirectory_iff] at hdir ⊢
    obtain heq | ⟨hnone, _⟩ := hget location
    · rw [heq, hdir]
    · simp [hdir] at hnone
  intro location
  obtain heq | ⟨hbefore, hafter, hlocate⟩ := hget location
  · exact .inl heq
  · exact .inr ⟨hbefore, hafter, path, List.mem_singleton.2 rfl, locate?_mono hmono hlocate⟩

theorem gains_makeDirectories (refuses : Path → Bool) (base : Location) (paths : List Path)
    (tree : FileTree) : Gains base paths tree (makeDirectories refuses base paths tree).2 := by
  induction paths generalizing tree with
  | nil => exact .refl base [] tree
  | cons path paths ih =>
    unfold makeDirectories
    split
    · rename_i h
      exact (gains_makeDirectory h).trans (ih _)
    · exact .refl base _ tree

/-! Writing a file -/

variable {path : Path} {content : ByteArray}

theorem isDirectory_write (h : tree.write? base path content = some tree') (location : Location) :
    tree'.isDirectory location = tree.isDirectory location := by
  obtain ⟨place, hlocate, hget⟩ := get?_write h
  by_cases hplace : place = location
  · subst hplace
    unfold write? at h
    rw [hlocate, Option.bind_eq_bind, Option.bind_some] at h
    split at h
    · simp at h
    · rename_i hdir
      rw [Bool.eq_false_iff.2 hdir]
      simp [isDirectory, hget]
  · simp [isDirectory, hget, hplace]

theorem locate?_write (h : tree.write? base path content = some tree') {other : Path}
    {location : Location} (hlocate : tree.locate? base other = some location) :
    tree'.locate? base other = some location :=
  locate?_mono (fun location hdir => by rw [isDirectory_write h, hdir]) hlocate

end FileTree

namespace Machine

/-- The tree after a file has been written together with the directories that lead to it. -/
structure Holds (machine : Machine) (path : Path) (content : ByteArray) (place : Location)
    (files : FileTree) : Prop where
  locate : files.locate? machine.workingDirectory path = some place
  file : files.file? place = some content
  others : ∀ other, other ≠ place →
    FileTree.GainsAt machine.workingDirectory path.parents machine.files files other

theorem Holds.read {machine : Machine} {path : Path} {content : ByteArray} {place : Location}
    {files : FileTree} (h : machine.Holds path content place files) :
    files.read machine.workingDirectory path = .ok content := by
  have hfile := h.file
  unfold FileTree.file? at hfile
  split at hfile
  · rename_i hget
    rw [FileTree.read, h.locate, Option.bind_some, hget, Option.some.inj hfile]
  · simp at hfile

theorem holds_of_write {machine : Machine} {path : Path} {content : ByteArray}
    {made files : FileTree}
    (hgains : machine.files.Gains machine.workingDirectory path.parents made)
    (hwrite : made.write? machine.workingDirectory path content = some files) :
    ∃ place, machine.Holds path content place files := by
  obtain ⟨place, hlocate, hget⟩ := FileTree.get?_write hwrite
  refine ⟨place, FileTree.locate?_write hwrite hlocate, by simp [FileTree.file?, hget], ?_⟩
  intro other hother
  have hkeep : files.get? other = made.get? other := by rw [hget, if_neg (Ne.symm hother)]
  obtain heq | ⟨hbefore, hafter, parent, hparent, hleads⟩ := hgains other
  · exact .inl (hkeep.trans heq)
  · exact .inr ⟨hbefore, hkeep.trans hafter, parent, hparent, FileTree.locate?_write hwrite hleads⟩

theorem makeDirectories_spec (machine : Machine) (paths : List Path) :
    ∃ files, (machine.makeDirectories paths).2 = { machine with files := files } ∧
      machine.files.Gains machine.workingDirectory paths files :=
  ⟨_, rfl, FileTree.gains_makeDirectories _ _ _ _⟩

theorem write_spec (machine : Machine) (path : Path) (content : ByteArray) :
    machine.write path content = (false, machine) ∨
      ∃ files, machine.write path content = (true, { machine with files := files }) ∧
        machine.files.write? machine.workingDirectory path content = some files := by
  unfold write
  split
  · exact .inl rfl
  · split
    · rename_i files h
      exact .inr ⟨files, rfl, h⟩
    · exact .inl rfl

/-- Writing a file with the directories that lead to it succeeds as a whole, or makes some of the
directories at most. -/
theorem writeWithParents_spec (machine : Machine) (path : Path) (content : ByteArray) :
    ∃ written files, (Host.writeWithParents path content : Run Bool).run machine =
        (written, { machine with files := files }) ∧
      if written then ∃ place, machine.Holds path content place files
      else machine.files.Gains machine.workingDirectory path.parents files := by
  have hrun : (Host.writeWithParents path content : Run Bool).run machine =
      if (machine.makeDirectories path.parents).1 then
        (machine.makeDirectories path.parents).2.write path content
      else (false, (machine.makeDirectories path.parents).2) := by
    change (if (machine.makeDirectories path.parents).1 = true then Host.write path content
      else return false : Run Bool).run (machine.makeDirectories path.parents).2 = _
    split <;> rfl
  obtain ⟨made, hmade, hgains⟩ := makeDirectories_spec machine path.parents
  rw [hrun, hmade]
  split
  · obtain hwrite | ⟨files, hwrite, hfiles⟩ :=
      write_spec { machine with files := made } path content
    · exact ⟨false, made, hwrite, hgains⟩
    · exact ⟨true, files, hwrite, holds_of_write hgains hfiles⟩
  · exact ⟨false, made, rfl, hgains⟩

end Machine

end RichText
