import RichText.Text.Hexadecimal
set_option autoImplicit false

/-!
TOML strings: the four ways to write a text, and which of them a text is written in.

A basic string stands in double quotes and knows escapes, a literal string stands in single quotes
and knows none; tripled quotes let a string go over several lines. Carriage returns are taken to
stand only in front of line feeds.
-/
namespace RichText.Toml

def isControl (c : Char) : Bool := (c.toNat < 0x20 && c ≠ '\t') || c = '\x7f'

def isBlank (c : Char) : Bool := c = ' ' || c = '\t' || c = '\r'

/-! Reading -/

def namedChar? (digits : List Char) : Option Char := do
  let values ← digits.mapM Text.hexValue?
  let n := values.foldl (fun n d => n * 16 + d) 0
  if n.isValidChar then some (Char.ofNat n) else none

def simpleEscape? (c : Char) : Option Char :=
  if c = '"' || c = '\\' then some c
  else if c = 'b' then some '\x08'
  else if c = 'e' then some '\x1b'
  else if c = 'f' then some '\x0c'
  else if c = 'n' then some '\n'
  else if c = 'r' then some '\r'
  else if c = 't' then some '\t'
  else none

def takeBasic? : List Char → List Char → Option (List Char × List Char)
  | _, [] => none
  | read, '"' :: rest => some (read.reverse, rest)
  | read, '\\' :: 'u' :: a :: b :: c :: d :: rest =>
    match namedChar? [a, b, c, d] with
    | some named => takeBasic? (named :: read) rest
    | none => none
  | read, '\\' :: 'U' :: a :: b :: c :: d :: e :: f :: g :: h :: rest =>
    match namedChar? [a, b, c, d, e, f, g, h] with
    | some named => takeBasic? (named :: read) rest
    | none => none
  | read, '\\' :: 'x' :: a :: b :: rest =>
    match namedChar? [a, b] with
    | some named => takeBasic? (named :: read) rest
    | none => none
  | read, '\\' :: e :: rest =>
    match simpleEscape? e with
    | some c => takeBasic? (c :: read) rest
    | none => none
  | read, c :: rest => if isControl c || c = '\\' then none else takeBasic? (c :: read) rest

def takeLiteral? : List Char → List Char → Option (List Char × List Char)
  | _, [] => none
  | read, '\x27' :: rest => some (read.reverse, rest)
  | read, c :: rest => if isControl c then none else takeLiteral? (c :: read) rest

def isLineChar (c : Char) : Bool := !isControl c || c = '\n' || c = '\r'

def lineEnds (s : List Char) : Bool := (s.dropWhile isBlank).head? = some '\n'

/-- Splits off up to two quotes: they belong to the text, since a string ends with the last three
quotes of a run of at most five. -/
def spanQuotes (quote : Char) (s : List Char) : List Char × List Char :=
  match s with
  | a :: b :: rest =>
    if a = quote && b = quote then ([a, b], rest)
    else if a = quote then ([a], b :: rest)
    else ([], s)
  | [a] => if a = quote then ([a], []) else ([], s)
  | [] => ([], [])

/-- Reads the rest of a basic string over several lines. After a backslash at the end of a line,
everything is dropped up to the next character that is no blank and no line end. -/
def takeLines? : Bool → List Char → List Char → Option (List Char × List Char)
  | _, _, [] => none
  | _, read, '"' :: '"' :: '"' :: rest =>
    let (quotes, rest) := spanQuotes '"' rest
    some (read.reverse ++ quotes, rest)
  | _, read, '\\' :: rest =>
    if lineEnds rest then takeLines? true read rest
    else
      match rest with
      | 'u' :: a :: b :: c :: d :: rest =>
        match namedChar? [a, b, c, d] with
        | some named => takeLines? false (named :: read) rest
        | none => none
      | 'U' :: a :: b :: c :: d :: e :: f :: g :: h :: rest =>
        match namedChar? [a, b, c, d, e, f, g, h] with
        | some named => takeLines? false (named :: read) rest
        | none => none
      | 'x' :: a :: b :: rest =>
        match namedChar? [a, b] with
        | some named => takeLines? false (named :: read) rest
        | none => none
      | e :: rest =>
        match simpleEscape? e with
        | some c => takeLines? false (c :: read) rest
        | none => none
      | [] => none
  | dropping, read, c :: rest =>
    if dropping && (isBlank c || c = '\n') then takeLines? true read rest
    else if isLineChar c then takeLines? false (c :: read) rest
    else none

def takeLiteralLines? : List Char → List Char → Option (List Char × List Char)
  | _, [] => none
  | read, '\x27' :: '\x27' :: '\x27' :: rest =>
    let (quotes, rest) := spanQuotes '\x27' rest
    some (read.reverse ++ quotes, rest)
  | read, c :: rest =>
    if isLineChar c then takeLiteralLines? (c :: read) rest else none

def dropLineEnd (s : List Char) : List Char :=
  match s with
  | '\n' :: rest => rest
  | '\r' :: '\n' :: rest => rest
  | _ => s

def takeString? : List Char → Option (String × List Char)
  | '"' :: '"' :: '"' :: rest => finish (takeLines? false [] (dropLineEnd rest))
  | '\x27' :: '\x27' :: '\x27' :: rest => finish (takeLiteralLines? [] (dropLineEnd rest))
  | '"' :: rest => finish (takeBasic? [] rest)
  | '\x27' :: rest => finish (takeLiteral? [] rest)
  | _ => none
where
  finish (found : Option (List Char × List Char)) : Option (String × List Char) :=
    found.map fun (s, rest) => (String.ofList s, rest)

/-! Writing -/

inductive Quotation where
  | basic | literal | basicLines | literalLines
deriving DecidableEq

def longestRun (quote : Char) (s : List Char) : Nat :=
  (s.foldl (fun (longest, current) c =>
    let current := if c = quote then current + 1 else 0
    (max longest current, current)) ((0, 0) : Nat × Nat)).1

/-- A control character that only an escape can write; a tab and a line feed are none. -/
def needsEscape (c : Char) : Bool := isControl c && c ≠ '\n'

/-- The plainest way that fits: without escapes if there is one, on one line if there is one. -/
def quotationOf (s : List Char) : Quotation :=
  let newline := s.contains '\n'
  let escapes := s.any needsEscape
  let backslash := s.contains '\\'
  let double := longestRun '"' s
  let single := longestRun '\x27' s
  if !escapes && !backslash && double = 0 && !newline then .basic
  else if !escapes && single = 0 && !newline then .literal
  else if !escapes && !backslash && double ≤ 2 then .basicLines
  else if !escapes && single ≤ 2 then .literalLines
  else if newline then .basicLines
  else .basic

def writeChar (lines : Bool) (c : Char) : List Char :=
  if c = '\n' then if lines then [c] else ['\\', 'n']
  else if c = '\\' then ['\\', '\\']
  else if c = '\x08' then ['\\', 'b']
  else if c = '\t' then ['\\', 't']
  else if c = '\x0c' then ['\\', 'f']
  else if c = '\r' then ['\\', 'r']
  else if isControl c then
    ['\\', 'u', '0', '0'] ++ (Text.hexPair (UInt8.ofNat c.toNat)).map Char.toUpper
  else [c]

/-- Writes the text of a basic string. Over several lines two quotes in a row may stand as they
are; any other quote is escaped. The count is of the quotes just written as they are. -/
def writeBasic (lines : Bool) : Nat → List Char → List Char
  | _, [] => []
  | quotes, c :: rest =>
    if c = '"' then
      if lines && quotes < 2 then c :: writeBasic lines (quotes + 1) rest
      else '\\' :: c :: writeBasic lines 0 rest
    else writeChar lines c ++ writeBasic lines 0 rest

def leadingLineEnd (s : List Char) : List Char := if s.contains '\n' then ['\n'] else []

def quoteAs (s : List Char) : Quotation → List Char
  | .basic => ['"'] ++ writeBasic false 0 s ++ ['"']
  | .literal => ['\x27'] ++ s ++ ['\x27']
  | .basicLines =>
    ['"', '"', '"'] ++ leadingLineEnd s ++ writeBasic true 0 s ++ ['"', '"', '"']
  | .literalLines => ['\x27', '\x27', '\x27'] ++ leadingLineEnd s ++ s ++ ['\x27', '\x27', '\x27']

def quote (s : String) : List Char := quoteAs s.toList (quotationOf s.toList)

end RichText.Toml
