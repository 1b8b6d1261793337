set_option autoImplicit false

/-!
TOML values, and what may still be added to a table.

A table remembers how it came about. Dotted keys extend only what dotted keys made, a header
opens a table that was so far only implied by longer headers, and a table in braces is complete.
Each rule fails with `none`.
-/
namespace RichText

inductive Toml.Origin where
  /-- By a header of its own. -/
  | header
  /-- By the header of a table inside it. -/
  | implied
  /-- By a dotted key. -/
  | dotted
  /-- In braces. -/
  | braces
deriving DecidableEq

inductive Toml where
  | string (s : String)
  | integer (n : Int)
  /-- The digits are kept as they are spelled. -/
  | float (spelling : List Char)
  | boolean (b : Bool)
  | dateTime (spelling : List Char)
  | array (items : List Toml)
  /-- The tables under a repeated header: the one written last, and the others, last one first. -/
  | tables (latest : List (String × Toml)) (earlier : List (List (String × Toml)))
  | table (origin : Toml.Origin) (entries : List (String × Toml))

namespace Toml

/-- The entries of a table in order; keys do not repeat. -/
abbrev Table := List (String × Toml)

namespace Table

def get? (entries : Table) (key : String) : Option Toml :=
  (entries.find? (fun e => e.1 = key)).map Prod.snd

def update (key : String) (f : Option Toml → Option Toml) : Table → Option Table
  | [] => (f none).map fun value => [(key, value)]
  | (k, value) :: rest =>
    if k = key then (f (some value)).map fun value => (k, value) :: rest
    else (update key f rest).map fun rest => (k, value) :: rest

def enter (key : String) (value : Toml) (entries : Table) : Option Table :=
  update key (fun | none => some value | some _ => none) entries

/-- Enters a value under a dotted key, given as its path and its last part. The table that
directly holds the value has to be one that dotted keys made. -/
def assign (key : String) (value : Toml) : List String → Table → Option Table
  | [], entries => enter key value entries
  | [name], entries => update name
    (fun
      | none => some (.table .dotted [(key, value)])
      | some (.table .dotted inner) => (enter key value inner).map (.table .dotted)
      | some _ => none) entries
  | name :: path, entries => update name
    (fun
      | none => (assign key value path []).map (.table .dotted)
      | some (.table origin inner) =>
        if origin = .dotted ∨ origin = .implied then
          (assign key value path inner).map (.table origin)
        else none
      | some (.tables latest earlier) =>
        (assign key value path latest).map (.tables · earlier)
      | some _ => none) entries

/-- Changes the table at a path of header names. Tables on the way are implied. -/
def change (f : Table → Option Table) : List String → Table → Option Table
  | [], entries => f entries
  | name :: path, entries => update name
    (fun
      | none => (change f path []).map (.table .implied)
      | some (.table origin inner) =>
        if origin = .braces then none else (change f path inner).map (.table origin)
      | some (.tables latest earlier) => (change f path latest).map (.tables · earlier)
      | some _ => none) entries

def openTable (key : String) (entries : Table) : Option Table :=
  update key
    (fun
      | none => some (.table .header [])
      | some (.table .implied inner) => some (.table .header inner)
      | some _ => none) entries

def openNext (key : String) (entries : Table) : Option Table :=
  update key
    (fun
      | none => some (.tables [] [])
      | some (.tables latest earlier) => some (.tables [] (latest :: earlier))
      | some _ => none) entries

end Table

def items? : Toml → Option (List Toml)
  | .array items => some items
  | .tables latest earlier => some ((latest :: earlier).reverse.map (.table .header))
  | _ => none

end Toml

end RichText
