import RichText.Toml.Scalar
import RichText.Toml.Text
set_option autoImplicit false

/-!
Reading a TOML text: keys, values and statements, and the table that the statements make.

Readers take the characters that are left and return what is left after them. Values stand inside
each other up to a limit; the fuel of the readers only bounds their recursion, and twice the
length of the text is always enough, since at most every second step reads no character.
-/
namespace RichText.Toml

def maxDepth : Nat := 80

def returnsEndLines : List Char → Bool
  | [] => true
  | '\r' :: '\n' :: rest => returnsEndLines rest
  | c :: rest => c ≠ '\r' && returnsEndLines rest

/-- Skips blanks, line ends and comments; the flag tells that a comment is being skipped. -/
def skipLines : Bool → List Char → Option (List Char)
  | _, [] => some []
  | true, c :: rest =>
    if c = '\n' then skipLines false rest
    else if isControl c && c ≠ '\r' then none
    else skipLines true rest
  | false, c :: rest =>
    if c = '#' then skipLines true rest
    else if isBlank c || c = '\n' then skipLines false rest
    else some (c :: rest)

/-! Keys -/

structure Key where
  path : List String := []
  last : String
deriving DecidableEq

def Key.names (key : Key) : List String := key.path ++ [key.last]

def isBareChar (c : Char) : Bool := c.isAlphanum || c = '_' || c = '-'

def takeName? (s : List Char) : Option (String × List Char) :=
  match s with
  | '"' :: rest => (takeBasic? [] rest).map fun (name, rest) => (String.ofList name, rest)
  | '\x27' :: rest => (takeLiteral? [] rest).map fun (name, rest) => (String.ofList name, rest)
  | _ =>
    match s.takeWhile isBareChar with
    | [] => none
    | name => some (String.ofList name, s.dropWhile isBareChar)

def takeKey? : Nat → List Char → Option (Key × List Char)
  | 0, _ => none
  | fuel + 1, s =>
    match takeName? (s.dropWhile isBlank) with
    | none => none
    | some (name, s) =>
      match s.dropWhile isBlank with
      | '.' :: rest => (takeKey? fuel rest).map fun (key, rest) =>
        ({ key with path := name :: key.path }, rest)
      | rest => some ({ last := name }, rest)

def takeKeyEquals? (s : List Char) : Option (Key × List Char) :=
  match takeKey? (s.length + 1) s with
  | some (key, '=' :: rest) => some (key, rest.dropWhile isBlank)
  | _ => none

/-! Values -/

mutual

def takeValue? : Nat → Nat → List Char → Option (Toml × List Char)
  | 0, _, _ => none
  | fuel + 1, depth, s =>
    match s, depth with
    | '[' :: rest, depth + 1 =>
      (takeItems? fuel depth [] rest).map fun (items, rest) => (.array items, rest)
    | '\x7b' :: rest, depth + 1 =>
      (takeEntries? fuel depth [] rest).map fun (entries, rest) => (.table .braces entries, rest)
    | '"' :: _, _ | '\x27' :: _, _ => (takeString? s).map fun (s, rest) => (.string s, rest)
    | _, _ => takeWord? s

/-- Reads the rest of an array, after the items read so far, last one first. A comma may follow
the last item. -/
def takeItems? : Nat → Nat → List Toml → List Char → Option (List Toml × List Char)
  | 0, _, _, _ => none
  | fuel + 1, depth, items, s =>
    match skipLines false s with
    | none => none
    | some (']' :: rest) => some (items.reverse, rest)
    | some s =>
      match takeValue? fuel depth s with
      | none => none
      | some (item, s) =>
        match skipLines false s with
        | some (',' :: rest) => takeItems? fuel depth (item :: items) rest
        | some (']' :: rest) => some ((item :: items).reverse, rest)
        | _ => none

def takeEntries? : Nat → Nat → Table → List Char → Option (Table × List Char)
  | 0, _, _, _ => none
  | fuel + 1, depth, entries, s =>
    match skipLines false s with
    | none => none
    | some ('\x7d' :: rest) => some (entries, rest)
    | some s =>
      match takeKeyEquals? s with
      | none => none
      | some (key, s) =>
        match takeValue? fuel depth s with
        | none => none
        | some (value, s) =>
          match entries.assign key.last value key.path, skipLines false s with
          | some entries, some (',' :: rest) => takeEntries? fuel depth entries rest
          | some entries, some ('\x7d' :: rest) => some (entries, rest)
          | _, _ => none

end

/-! Statements -/

inductive Statement where
  | assign (key : Key) (value : Toml)
  | header (key : Key)
  | repeatedHeader (key : Key)

def takeStatement? (s : List Char) : Option (Statement × List Char) :=
  match s with
  | '[' :: '[' :: rest =>
    match takeKey? rest.length rest with
    | some (key, ']' :: ']' :: rest) => some (.repeatedHeader key, rest)
    | _ => none
  | '[' :: rest =>
    match takeKey? rest.length rest with
    | some (key, ']' :: rest) => some (.header key, rest)
    | _ => none
  | _ =>
    match takeKeyEquals? s with
    | some (key, rest) =>
      (takeValue? (2 * rest.length + 1) maxDepth rest).map fun (value, rest) =>
        (.assign key value, rest)
    | none => none

def atLineEnd (s : List Char) : Bool :=
  match s.dropWhile isBlank with
  | [] => true
  | c :: _ => c = '\n' || c = '#'

def takeStatements? : Nat → List Statement → List Char → Option (List Statement)
  | 0, _, _ => none
  | fuel + 1, read, s =>
    match skipLines false s with
    | none => none
    | some [] => some read.reverse
    | some s =>
      match takeStatement? s with
      | some (statement, rest) =>
        if atLineEnd rest then takeStatements? fuel (statement :: read) rest else none
      | none => none

def Table.perform (state : Table × List String) : Statement → Option (Table × List String)
  | .assign key value =>
    (state.1.change (assign key.last value key.path) state.2).map (·, state.2)
  | .header key => (state.1.change (openTable key.last) key.path).map (·, key.names)
  | .repeatedHeader key => (state.1.change (openNext key.last) key.path).map (·, key.names)

def Table.ofStatements? (statements : List Statement) : Option Table :=
  (statements.foldlM Table.perform ([], [])).map Prod.fst

def Table.parse? (s : String) : Option Table :=
  let chars := match s.toList with
    | '\ufeff' :: rest => rest
    | chars => chars
  if returnsEndLines chars then
    (takeStatements? (chars.length + 1) [] chars).bind Table.ofStatements?
  else none

end RichText.Toml
