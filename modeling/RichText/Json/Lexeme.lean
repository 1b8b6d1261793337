import RichText.Json.Value
set_option autoImplicit false

/-!
Lexemes: the words of a JSON text. Blanks between them are space, tab, line feed and carriage
return only.
-/
namespace RichText.Json

inductive Lexeme where
  | leftBracket | rightBracket | leftBrace | rightBrace | comma | colon
  | null
  | bool (b : Bool)
  | number (lexeme : List Char)
  | string (raw : List Char)
deriving DecidableEq

namespace Lexeme

def isBlank (c : Char) : Bool := c = ' ' || c = '\t' || c = '\n' || c = '\r'

def punctuation? (c : Char) : Option Lexeme :=
  if c = '[' then some .leftBracket
  else if c = ']' then some .rightBracket
  else if c = '\x7b' then some .leftBrace
  else if c = '\x7d' then some .rightBrace
  else if c = ',' then some .comma
  else if c = ':' then some .colon
  else none

def isHexDigit (c : Char) : Bool := (Text.hexValue? c).isSome

/-- Reads the rest of a string through its closing quote, after the characters read so far, last
one first. Escapes have to be well formed, and control characters have to be escaped. -/
def takeString? : List Char → List Char → Option (List Char × List Char)
  | _, [] => none
  | read, '"' :: rest => some (read.reverse, rest)
  | read, '\\' :: 'u' :: a :: b :: c :: d :: rest =>
    if [a, b, c, d].all isHexDigit then
      takeString? (d :: c :: b :: a :: 'u' :: '\\' :: read) rest
    else none
  | read, '\\' :: e :: rest =>
    if (simpleEscape? e).isSome then takeString? (e :: '\\' :: read) rest else none
  | read, c :: rest =>
    if c.toNat < 0x20 || c = '\\' then none else takeString? (c :: read) rest

def spanDigits (s : List Char) : List Char × List Char :=
  (s.takeWhile Char.isDigit, s.dropWhile Char.isDigit)

def takeIntegral? (s : List Char) : Option (List Char × List Char) :=
  match s with
  | '0' :: rest => some (['0'], rest)
  | _ =>
    match spanDigits s with
    | ([], _) => none
    | parts => some parts

def takeFraction? (s : List Char) : Option (List Char × List Char) :=
  match s with
  | '.' :: rest =>
    match spanDigits rest with
    | ([], _) => none
    | (digits, rest) => some ('.' :: digits, rest)
  | _ => some ([], s)

def spanSign (s : List Char) : List Char × List Char :=
  match s with
  | '+' :: rest => (['+'], rest)
  | '-' :: rest => (['-'], rest)
  | _ => ([], s)

def takeExponent? (s : List Char) : Option (List Char × List Char) :=
  match s with
  | c :: rest =>
    if c = 'e' || c = 'E' then
      let (sign, rest) := spanSign rest
      match spanDigits rest with
      | ([], _) => none
      | (digits, rest) => some (c :: sign ++ digits, rest)
    else some ([], s)
  | [] => some ([], s)

def takeNumber? (s : List Char) : Option (List Char × List Char) := do
  let (sign, s) := match s with
    | '-' :: rest => (['-'], rest)
    | _ => ([], s)
  let (integral, s) ← takeIntegral? s
  let (fraction, s) ← takeFraction? s
  let (exponent, s) ← takeExponent? s
  return (sign ++ integral ++ fraction ++ exponent, s)

def take? : List Char → Option (Lexeme × List Char)
  | '"' :: rest => (takeString? [] rest).map fun (raw, rest) => (.string raw, rest)
  | 'n' :: 'u' :: 'l' :: 'l' :: rest => some (.null, rest)
  | 't' :: 'r' :: 'u' :: 'e' :: rest => some (.bool true, rest)
  | 'f' :: 'a' :: 'l' :: 's' :: 'e' :: rest => some (.bool false, rest)
  | c :: rest =>
    match punctuation? c with
    | some lexeme => some (lexeme, rest)
    | none => (takeNumber? (c :: rest)).map fun (n, rest) => (.number n, rest)
  | [] => none

/-- Reads the lexemes of a text after those read so far, last one first. The count bounds how
many characters are looked at. -/
def readAll : Nat → List Lexeme → List Char → Option (List Lexeme)
  | _, read, [] => some read.reverse
  | 0, _, _ :: _ => none
  | fuel + 1, read, c :: rest =>
    if isBlank c then readAll fuel read rest
    else
      match take? (c :: rest) with
      | some (lexeme, rest) => readAll fuel (lexeme :: read) rest
      | none => none

def ofChars (s : List Char) : Option (List Lexeme) := readAll s.length [] s

end Lexeme

end RichText.Json
