import RichText.Text.CharacterClass
set_option autoImplicit false

/-!
Environment variables, and texts that refer to them.

A reference is a dollar sign with a name, bare or in braces; in braces a default may follow the
name. Two dollar signs stand for one, and a dollar sign that begins no reference stands for itself.
A tilde in front of a path stands for the home directory. Main statement: `expand_eq_self`, a path
without dollar sign and leading tilde stays as it is.
-/
namespace RichText

structure Environment where
  bindings : List (String × String) := []
  accountHome : Option String := none
deriving DecidableEq

namespace Environment

def get? (env : Environment) (name : String) : Option String := env.bindings.lookup name

def homeName : String := "HOME"

/-- The home directory: that of the variable unless it is missing or empty, else that of the
account. -/
def home? (env : Environment) : Option String :=
  ((env.get? homeName).filter (fun home => home ≠ "")).or env.accountHome

end Environment

inductive Piece where
  | char (c : Char)
  | variable (name : String) (default : Option String)
deriving DecidableEq

namespace Piece

def isNameChar (c : Char) : Bool := Text.isAlphanumeric c || c = '_'

def splitDefault? : List Char → Option (List Char × List Char)
  | ':' :: '-' :: rest => some ([], rest)
  | c :: rest => (splitDefault? rest).map fun (name, default) => (c :: name, default)
  | [] => none

def ofBraces (s : List Char) : Piece :=
  match splitDefault? s with
  | some (c :: name, default) =>
    .variable (String.ofList (c :: name)) (some (String.ofList default))
  | _ => .variable (String.ofList s) none

/-- The pieces of a text, in order. Braces that are not closed begin no reference. -/
def ofChars : List Char → List Piece
  | [] => []
  | '$' :: '\x7b' :: rest =>
    if rest.contains '\x7d' then
      ofBraces (rest.takeWhile (· ≠ '\x7d')) :: ofChars ((rest.dropWhile (· ≠ '\x7d')).tail)
    else .char '$' :: .char '\x7b' :: ofChars rest
  | '$' :: '$' :: rest => .char '$' :: ofChars rest
  | '$' :: rest =>
    if (rest.takeWhile isNameChar).isEmpty then .char '$' :: ofChars rest
    else
      .variable (String.ofList (rest.takeWhile isNameChar)) none ::
        ofChars (rest.dropWhile isNameChar)
  | c :: rest => .char c :: ofChars rest
termination_by s => s.length
decreasing_by
  all_goals
    have := (List.dropWhile_suffix (· ≠ '\x7d') (l := rest)).length_le
    have := (List.dropWhile_suffix isNameChar (l := rest)).length_le
    simp only [List.length_cons, List.length_tail]
    omega

def name? : Piece → Option String
  | .char _ => none
  | .variable name _ => some name

/-- What a piece stands for. A variable that is set counts even if it is empty. -/
def value? (env : Environment) : Piece → Option (List Char)
  | .char c => some [c]
  | .variable name default =>
    match env.get? name with
    | some value => some value.toList
    | none => default.map String.toList

end Piece

namespace Environment

def namesIn (s : String) : List String := homeName :: (Piece.ofChars s.toList).filterMap Piece.name?

def substitute? (env : Environment) (s : List Char) : Option (List Char) :=
  ((Piece.ofChars s).mapM (Piece.value? env)).map List.flatten

/-- The path with its leading tilde replaced by the home directory, if there is one. The tilde has
to be the whole first part of the path. -/
def expandTilde (env : Environment) (s : List Char) : List Char :=
  match s, env.home? with
  | ['~'], some home => home.toList
  | '~' :: '/' :: rest, some home => home.toList ++ '/' :: rest
  | _, _ => s

def startsWithTilde (s : List Char) : Bool := s.head? = some '~'

/-- The path with references and tilde replaced. A tilde that comes out of a variable stays, and
a path that refers to a variable without a value stays as a whole. -/
def expand (env : Environment) (path : String) : String :=
  match env.substitute? path.toList with
  | none => path
  | some s =>
    if startsWithTilde s && !startsWithTilde path.toList then String.ofList s
    else String.ofList (env.expandTilde s)

theorem ofChars_of_not_mem {s : List Char} (h : '$' ∉ s) : Piece.ofChars s = s.map .char := by
  induction s with
  | nil => simp [Piece.ofChars]
  | cons c rest ih =>
    have hc : c ≠ '$' := fun e => h (by simp [e])
    rw [Piece.ofChars, List.map_cons, ih (fun hm => h (List.mem_cons_of_mem _ hm))]
    all_goals simp_all

theorem substitute?_of_not_mem (env : Environment) {s : List Char} (h : '$' ∉ s) :
    env.substitute? s = some s := by
  rw [substitute?, ofChars_of_not_mem h]
  clear h
  induction s with
  | nil => rfl
  | cons c rest ih =>
    rw [List.map_cons, List.mapM_cons, Piece.value?]
    cases hm : List.mapM (Piece.value? env) (rest.map .char) with
    | none => simp [hm] at ih
    | some parts =>
      rw [hm, Option.map_some, Option.some.injEq] at ih
      simp [ih]

theorem expand_eq_self (env : Environment) {path : String} (h : '$' ∉ path.toList)
    (h' : startsWithTilde path.toList = false) : env.expand path = path := by
  have ht : env.expandTilde path.toList = path.toList := by
    unfold expandTilde
    split <;> simp_all [startsWithTilde]
  rw [expand, substitute?_of_not_mem env h]
  simp [h', ht]

end Environment

end RichText
