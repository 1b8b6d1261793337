import RichText.Text.Hexadecimal
set_option autoImplicit false

/-!
JSON values as they are written.

A string keeps the characters between its quotes and a number its digits, so that a reader can
tell spellings apart and a value that is skipped need not be understood. Main statement:
`unescape?_escape`, a text that is written as a string reads back.
-/
namespace RichText

inductive Json where
  | null
  | bool (b : Bool)
  | number (lexeme : List Char)
  /-- The characters between the quotes, escapes and all. -/
  | string (raw : List Char)
  | array (items : List Json)
  /-- Members in order, repeated keys included; a key is kept like a string. -/
  | object (members : List (List Char × Json))

namespace Json

def hexDigit (c : Char) : Nat := (Text.hexValue? c).getD 0

def codeUnit (a b c d : Char) : Nat :=
  ((hexDigit a * 16 + hexDigit b) * 16 + hexDigit c) * 16 + hexDigit d

def isHighSurrogate (n : Nat) : Bool := 0xD800 ≤ n && n < 0xDC00

def isLowSurrogate (n : Nat) : Bool := 0xDC00 ≤ n && n < 0xE000

def surrogatePair (high low : Nat) : Char :=
  Char.ofNat (0x10000 + (high - 0xD800) * 0x400 + (low - 0xDC00))

def simpleEscape? (c : Char) : Option Char :=
  if c = '"' || c = '\\' || c = '/' then some c
  else if c = 'b' then some '\x08'
  else if c = 'f' then some '\x0c'
  else if c = 'n' then some '\n'
  else if c = 'r' then some '\r'
  else if c = 't' then some '\t'
  else none

def unescapeAfter : List Char → List Char → Option (List Char)
  | read, [] => some read.reverse
  | read, '\\' :: 'u' :: a :: b :: c :: d :: rest =>
    let n := codeUnit a b c d
    if isHighSurrogate n then
      match rest with
      | '\\' :: 'u' :: a' :: b' :: c' :: d' :: rest =>
        let m := codeUnit a' b' c' d'
        if isLowSurrogate m then unescapeAfter (surrogatePair n m :: read) rest else none
      | _ => none
    else if isLowSurrogate n then none
    else unescapeAfter (Char.ofNat n :: read) rest
  | read, '\\' :: e :: rest =>
    match simpleEscape? e with
    | some c => unescapeAfter (c :: read) rest
    | none => none
  | read, c :: rest => unescapeAfter (c :: read) rest

/-- The text that the characters of a string stand for; `none` if half of a surrogate pair stands
alone, which is no text. -/
def unescape? (raw : List Char) : Option (List Char) := unescapeAfter [] raw

def escapeChar (c : Char) : List Char :=
  if c = '"' || c = '\\' then ['\\', c]
  else if c = '\x08' then ['\\', 'b']
  else if c = '\x0c' then ['\\', 'f']
  else if c = '\n' then ['\\', 'n']
  else if c = '\r' then ['\\', 'r']
  else if c = '\t' then ['\\', 't']
  else if c.toNat < 0x20 then ['\\', 'u', '0', '0'] ++ Text.hexPair (UInt8.ofNat c.toNat)
  else [c]

def escape (s : List Char) : List Char := s.flatMap escapeChar

def ofText (s : String) : Json := .string (escape s.toList)

def ofInt (n : Int) : Json :=
  .number (if n < 0 then '-' :: Nat.toDigits 10 n.natAbs else Nat.toDigits 10 n.natAbs)

def ofMembers (members : List (String × Json)) : Json :=
  .object (members.map fun (key, value) => (escape key.toList, value))

def text? : Json → Option String
  | .string raw => (unescape? raw).map String.ofList
  | _ => none

/-- The integer that a number spells with digits alone. A negative zero is no integer, and
neither is anything with a point or an exponent. -/
def integerOf? : List Char → Option Int
  | '-' :: digits =>
    if digits.all Char.isDigit && digits ≠ [] && digits.head? ≠ some '0' then
      some (-(Nat.ofDigitChars 10 digits 0 : Int))
    else none
  | digits =>
    if digits = ['0'] then some 0
    else if digits.all Char.isDigit && digits ≠ [] && digits.head? ≠ some '0' then
      some (Nat.ofDigitChars 10 digits 0 : Int)
    else none

def integer? : Json → Option Int
  | .number lexeme => integerOf? lexeme
  | _ => none

theorem unescapeAfter_hexPair (read rest : List Char) (n : Nat) (h : n < 0x20) :
    unescapeAfter read (['\\', 'u', '0', '0'] ++ Text.hexPair (UInt8.ofNat n) ++ rest) =
      unescapeAfter (Char.ofNat n :: read) rest := by
  have high : hexDigit (Nat.digitChar (n / 16)) = n / 16 := by
    rw [hexDigit, Text.hexValue?_digitChar _ (by omega)]; rfl
  have low : hexDigit (Nat.digitChar (n % 16)) = n % 16 := by
    rw [hexDigit, Text.hexValue?_digitChar _ (by omega)]; rfl
  have hunit : codeUnit '0' '0' (Nat.digitChar (n / 16)) (Nat.digitChar (n % 16)) = n := by
    rw [codeUnit, high, low, show hexDigit '0' = 0 from rfl]; omega
  have hn : (UInt8.ofNat n).toNat = n := by simp; omega
  have hhigh : isHighSurrogate n = false := by simp [isHighSurrogate]; omega
  have hlow : isLowSurrogate n = false := by simp [isLowSurrogate]; omega
  simp only [Text.hexPair, hn, List.cons_append, List.nil_append]
  rw [unescapeAfter.eq_def]
  simp [hunit, hhigh, hlow]

theorem unescapeAfter_escapeChar (read rest : List Char) (c : Char) :
    unescapeAfter read (escapeChar c ++ rest) = unescapeAfter (c :: read) rest := by
  unfold escapeChar
  split
  · rename_i h
    rcases (by simpa using h : c = '"' ∨ c = '\\') with rfl | rfl <;> rfl
  split
  · subst_vars; rfl
  split
  · subst_vars; rfl
  split
  · subst_vars; rfl
  split
  · subst_vars; rfl
  split
  · subst_vars; rfl
  split
  · rename_i h
    rw [unescapeAfter_hexPair read rest c.toNat h, Char.ofNat_toNat]
  · rename_i h _ _ _ _ _ _
    have hc : c ≠ '\\' := fun e => by simp [e] at h
    rw [List.singleton_append, unescapeAfter.eq_def]
    split <;> simp_all

theorem unescapeAfter_escape (read s : List Char) :
    unescapeAfter read (escape s) = some (read.reverse ++ s) := by
  induction s generalizing read with
  | nil => simp [escape, unescapeAfter]
  | cons c s ih =>
    rw [escape, List.flatMap_cons, ← escape, unescapeAfter_escapeChar, ih]
    simp

theorem unescape?_escape (s : List Char) : unescape? (escape s) = some s :=
  unescapeAfter_escape [] s

@[simp] theorem text?_ofText (s : String) : (ofText s).text? = some s := by
  simp [ofText, text?, unescape?_escape]

mutual

def chars : Json → List Char
  | .null => ['n', 'u', 'l', 'l']
  | .bool true => ['t', 'r', 'u', 'e']
  | .bool false => ['f', 'a', 'l', 's', 'e']
  | .number lexeme => lexeme
  | .string raw => '"' :: raw ++ ['"']
  | .array items => '[' :: itemChars items ++ [']']
  | .object members => '\x7b' :: memberChars members ++ ['\x7d']

def itemChars : List Json → List Char
  | [] => []
  | [item] => item.chars
  | item :: items => item.chars ++ ',' :: itemChars items

def memberChars : List (List Char × Json) → List Char
  | [] => []
  | [(key, value)] => '"' :: key ++ '"' :: ':' :: value.chars
  | (key, value) :: members =>
    '"' :: key ++ '"' :: ':' :: value.chars ++ ',' :: memberChars members

end

def write (value : Json) : String := String.ofList value.chars

end Json

end RichText
