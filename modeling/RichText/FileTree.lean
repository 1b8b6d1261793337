import RichText.Path
set_option autoImplicit false

/-!
File trees: files and directories by location, and how paths lead to them.

A path is followed part by part, so everything in front of its last part has to be a directory
that exists, also where the path goes up again. Main statements: `get?_write`, writing a file
changes what is at its location and nothing else, and `get?_makeDirectory`, a new directory
stands where there was nothing.
-/
namespace RichText

abbrev Location := List (List Char)

inductive FileTree.Item where
  | file (content : ByteArray)
  | directory

/-- The items below the root; of several at one location the first counts. -/
structure FileTree where
  items : List (Location × FileTree.Item) := []

namespace FileTree

def get? (tree : FileTree) (location : Location) : Option Item :=
  if location = [] then some .directory
  else (tree.items.find? (fun e => e.1 = location)).map Prod.snd

def isDirectory (tree : FileTree) (location : Location) : Bool :=
  match tree.get? location with
  | some .directory => true
  | _ => false

def file? (tree : FileTree) (location : Location) : Option ByteArray :=
  match tree.get? location with
  | some (.file content) => some content
  | _ => none

def insertInto (location : Location) (item : Item) :
    List (Location × Item) → List (Location × Item)
  | [] => [(location, item)]
  | e :: es => if e.1 = location then (location, item) :: es else e :: insertInto location item es

def insert (tree : FileTree) (location : Location) (item : Item) : FileTree :=
  ⟨insertInto location item tree.items⟩

def files (tree : FileTree) : List (Location × ByteArray) :=
  tree.items.filterMap fun
    | (location, .file content) => some (location, content)
    | (_, .directory) => none

/-! Following paths -/

def isUsable (part : List Char) : Bool :=
  (String.ofList part).utf8ByteSize ≤ 255 && !part.contains '\x00'

def follow? (tree : FileTree) (location : Location) (part : List Char) : Option Location :=
  if !tree.isDirectory location || !isUsable part then none
  else if Path.isIdle part then some location
  else if part = ['.', '.'] then some location.dropLast
  else some (location ++ [part])

def maxPathBytes : Nat := 4095

/-- The location that a path leads to from a working directory. There may be nothing at it, but
there is a directory around it. -/
def locate? (tree : FileTree) (base : Location) (path : Path) : Option Location :=
  match path.parts with
  | [[]] => none
  | parts =>
    if path.text.utf8ByteSize ≤ maxPathBytes then
      parts.foldlM (follow? tree) (if path.text.toList.head? = some '/' then [] else base)
    else none

/-! Reading and writing -/

inductive ReadFailure where
  | missing
  | unreadable
deriving DecidableEq

def read (tree : FileTree) (base : Location) (path : Path) : Except ReadFailure ByteArray :=
  match (tree.locate? base path).bind tree.get? with
  | none => .error .missing
  | some .directory => .error .unreadable
  | some (.file content) => .ok content

def write? (tree : FileTree) (base : Location) (path : Path) (content : ByteArray) :
    Option FileTree := do
  let location ← tree.locate? base path
  if tree.isDirectory location then none else some (tree.insert location (.file content))

def makeDirectory? (refuses : Path → Bool) (tree : FileTree) (base : Location) (path : Path) :
    Option FileTree := do
  let location ← tree.locate? base path
  match tree.get? location with
  | some .directory => some tree
  | some (.file _) => none
  | none => if refuses path then none else some (tree.insert location .directory)

/-- Makes directories one after another, and tells whether all are there; what was made before a
failure stays. -/
def makeDirectories (refuses : Path → Bool) (base : Location) :
    List Path → FileTree → Bool × FileTree
  | [], tree => (true, tree)
  | path :: paths, tree =>
    match tree.makeDirectory? refuses base path with
    | some tree => makeDirectories refuses base paths tree
    | none => (false, tree)

theorem find?_insertInto (location other : Location) (item : Item)
    (items : List (Location × Item)) :
    (insertInto location item items).find? (fun e => e.1 = other) =
      if location = other then some (location, item) else items.find? (fun e => e.1 = other) := by
  induction items with
  | nil => by_cases h : location = other <;> simp [insertInto, h]
  | cons e es ih =>
    unfold insertInto
    by_cases h : e.1 = location
    · rw [if_pos h]
      by_cases ho : location = other <;> simp [h, ho]
    · rw [if_neg h]
      by_cases he : e.1 = other
      · have hne : location ≠ other := fun e' => h (he.trans e'.symm)
        simp [he, hne]
      · simp [he, ih]

theorem get?_insert (tree : FileTree) {location : Location} (h : location ≠ []) (item : Item)
    (other : Location) :
    (tree.insert location item).get? other =
      if location = other then some item else tree.get? other := by
  unfold get? insert
  rw [find?_insertInto]
  by_cases hl : location = other
  · subst hl
    simp [h]
  · simp [hl]

theorem get?_write {tree tree' : FileTree} {base : Location} {path : Path} {content : ByteArray}
    (h : tree.write? base path content = some tree') :
    ∃ location, tree.locate? base path = some location ∧
      ∀ other, tree'.get? other =
        if location = other then some (.file content) else tree.get? other := by
  unfold write? at h
  cases hl : tree.locate? base path with
  | none => simp [hl] at h
  | some location =>
    rw [hl] at h
    simp only [Option.bind_eq_bind, Option.bind_some] at h
    split at h
    · simp at h
    · rename_i hd
      have hne : location ≠ [] := fun e => hd (by simp [e, isDirectory, get?])
      obtain rfl := Option.some.inj h
      exact ⟨location, rfl, get?_insert tree hne _⟩

theorem get?_makeDirectory {refuses : Path → Bool} {tree tree' : FileTree} {base : Location}
    {path : Path} (h : tree.makeDirectory? refuses base path = some tree') (other : Location) :
    tree'.get? other = tree.get? other ∨
      tree.get? other = none ∧ tree'.get? other = some .directory ∧
        tree.locate? base path = some other := by
  unfold makeDirectory? at h
  cases hl : tree.locate? base path with
  | none => simp [hl] at h
  | some location =>
    rw [hl] at h
    simp only [Option.bind_eq_bind, Option.bind_some] at h
    split at h
    · rw [Option.some.inj h]
      exact .inl rfl
    · simp at h
    · rename_i hn
      split at h
      · simp at h
      · have hne : location ≠ [] := fun e => by simp [e, get?] at hn
        obtain rfl := Option.some.inj h
        rw [get?_insert tree hne]
        by_cases ho : location = other
        · subst ho
          exact .inr ⟨hn, if_pos rfl, rfl⟩
        · exact .inl (if_neg ho)

end FileTree

end RichText
