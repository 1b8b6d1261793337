import RichText.Toml.Value
import RichText.Text.Hexadecimal
set_option autoImplicit false

/-!
TOML values that are written as a word: booleans, integers, floats and date-times.

Integers have up to 128 bits, with a sign or without. A float has to be within the range of a
binary float of 64 bits, unless it is spelled as infinite.
-/
namespace RichText.Toml

def groupedDigits? (isDigit : Char → Bool) : List Char → Option (List Char)
  | [] => none
  | [c] => if isDigit c then some [c] else none
  | c :: '_' :: rest =>
    if isDigit c then (groupedDigits? isDigit rest).map (c :: ·) else none
  | c :: rest => if isDigit c then (groupedDigits? isDigit rest).map (c :: ·) else none

/-- Decimal digits that start with a zero only if there is no other. -/
def decimalDigits? (s : List Char) : Option (List Char) :=
  match groupedDigits? Char.isDigit s with
  | some ['0'] => some ['0']
  | some ('0' :: _) => none
  | digits => digits

def splitSign (s : List Char) : Option Bool × List Char :=
  match s with
  | '+' :: rest => (some false, rest)
  | '-' :: rest => (some true, rest)
  | _ => (none, s)

/-! Integers -/

def base? (c : Char) : Option Nat :=
  if c = 'x' then some 16 else if c = 'o' then some 8 else if c = 'b' then some 2 else none

def isDigitOf (base : Nat) (c : Char) : Bool :=
  match Text.hexValue? c with
  | some digit => digit < base
  | none => false

def inRange (n : Int) : Bool := -(Nat.pow 2 127 : Int) ≤ n && n < (Nat.pow 2 128 : Int)

def prefixedInteger? (s : List Char) : Option Int :=
  match s with
  | '0' :: letter :: rest => do
    let base ← base? letter
    let digits ← groupedDigits? (isDigitOf base) rest
    return digits.foldl (fun n c => n * base + ((Text.hexValue? c).getD 0 : Nat)) 0
  | _ => none

def decimalInteger? (s : List Char) : Option Int := do
  let (sign, rest) := splitSign s
  let digits ← decimalDigits? rest
  let n : Int := Nat.ofDigitChars 10 digits 0
  return if sign = some true then -n else n

def integer? (s : List Char) : Option Int :=
  match prefixedInteger? s <|> decimalInteger? s with
  | some n => if inRange n then some n else none
  | none => none

/-! Floats -/

structure Decimal where
  integral : List Char
  fraction : List Char
  exponent : Int

def fraction? : List Char → Option (List Char)
  | [] => some []
  | '.' :: rest => groupedDigits? Char.isDigit rest
  | _ => none

def exponent? : List Char → Option Int
  | [] => some 0
  | _ :: s => do
    let (sign, rest) := splitSign s
    let digits ← groupedDigits? Char.isDigit rest
    let n : Int := Nat.ofDigitChars 10 digits 0
    return if sign = some true then -n else n

def isExponentLetter (c : Char) : Bool := c = 'e' || c = 'E'

def Decimal.ofChars? (s : List Char) : Option Decimal := do
  let mantissa := s.takeWhile (fun c => !isExponentLetter c)
  let integral ← decimalDigits? (mantissa.takeWhile (· ≠ '.'))
  let fraction ← fraction? (mantissa.dropWhile (· ≠ '.'))
  let exponent ← exponent? (s.dropWhile (fun c => !isExponentLetter c))
  if s.all Char.isDigit then none
  else some { integral := integral, fraction := fraction, exponent := exponent }

def floatLimit : Nat := Nat.pow 2 1024 - Nat.pow 2 970

/-- The number is within range. Numbers far from the limit are told by their size alone. -/
def Decimal.isFinite (d : Decimal) : Bool :=
  let n := Nat.ofDigitChars 10 (d.integral ++ d.fraction) 0
  let scale : Int := d.exponent - d.fraction.length
  let size : Int := scale + (Nat.toDigits 10 n).length
  if n = 0 || size < 309 then true
  else if 310 < size then false
  else if 0 ≤ scale then n * Nat.pow 10 scale.toNat < floatLimit
  else n < floatLimit * Nat.pow 10 (-scale).toNat

def isFloat (s : List Char) : Bool :=
  let rest := (splitSign s).2
  rest = ['i', 'n', 'f'] || rest = ['n', 'a', 'n'] ||
    match Decimal.ofChars? rest with
    | some d => d.isFinite
    | none => false

/-! Date-times -/

def takeDigits? (count : Nat) (s : List Char) : Option (Nat × List Char) :=
  let digits := s.take count
  if digits.length = count && digits.all Char.isDigit then
    some (Nat.ofDigitChars 10 digits 0, s.drop count)
  else none

def isLeapYear (year : Nat) : Bool := year % 4 = 0 && (year % 100 ≠ 0 || year % 400 = 0)

def daysInMonth (year month : Nat) : Nat :=
  if month = 2 then if isLeapYear year then 29 else 28
  else if month = 4 || month = 6 || month = 9 || month = 11 then 30
  else 31

def afterDate? (s : List Char) : Option (List Char) := do
  let (year, s) ← takeDigits? 4 s
  let '-' :: s := s | none
  let (month, s) ← takeDigits? 2 s
  let '-' :: s := s | none
  let (day, s) ← takeDigits? 2 s
  if 1 ≤ month && month ≤ 12 && 1 ≤ day && day ≤ daysInMonth year month then some s else none

def afterMinutes? (s : List Char) : Option (List Char) := do
  let (hour, s) ← takeDigits? 2 s
  let ':' :: s := s | none
  let (minute, s) ← takeDigits? 2 s
  if hour < 24 && minute < 60 then some s else none

def afterSeconds? (s : List Char) : Option (List Char) := do
  let (second, s) ← takeDigits? 2 s
  if 60 < second then none
  else
    match s with
    | '.' :: s =>
      if s.takeWhile Char.isDigit = [] then none else some (s.dropWhile Char.isDigit)
    | _ => some s

def afterTime? (s : List Char) : Option (List Char) :=
  match afterMinutes? s with
  | some (':' :: s) => afterSeconds? s
  | s => s

def isOffset : List Char → Bool
  | [] | ['Z'] | ['z'] => true
  | sign :: s => (sign = '+' || sign = '-') && afterMinutes? s = some []

def isDateTime (s : List Char) : Bool :=
  match afterDate? s with
  | some [] => true
  | some (separator :: s) =>
    (separator = 'T' || separator = 't' || separator = ' ') &&
      match afterTime? s with
      | some s => isOffset s
      | none => false
  | none => afterTime? s = some []

/-! Words -/

def ofWord? (s : List Char) : Option Toml :=
  if s = ['t', 'r', 'u', 'e'] then some (.boolean true)
  else if s = ['f', 'a', 'l', 's', 'e'] then some (.boolean false)
  else if isDateTime s then some (.dateTime s)
  else
    match integer? s with
    | some n => some (.integer n)
    | none => if isFloat s then some (.float s) else none

def isWordChar (c : Char) : Bool :=
  c.isAlphanum || c = '_' || c = '+' || c = '-' || c = '.' || c = ':'

/-- Splits off a word. Between a date and a time a space belongs to the word. -/
def spanWord (s : List Char) : List Char × List Char :=
  let word := s.takeWhile isWordChar
  let rest := s.dropWhile isWordChar
  match rest with
  | ' ' :: c :: more =>
    if c.isDigit && afterDate? word = some [] then
      (word ++ ' ' :: (c :: more).takeWhile isWordChar, (c :: more).dropWhile isWordChar)
    else (word, rest)
  | _ => (word, rest)

def takeWord? (s : List Char) : Option (Toml × List Char) :=
  let (word, rest) := spanWord s
  (ofWord? word).map fun value => (value, rest)

end RichText.Toml
