set_option autoImplicit false

namespace RichText.Text.Base64

def symbol (n : Nat) : Char :=
  if n < 26 then Char.ofNat (65 + n)
  else if n < 52 then Char.ofNat (71 + n)
  else if n < 62 then Char.ofNat (n - 4)
  else if n = 62 then '+' else '/'

/-- The characters for one, two or three bytes; what is missing of three is padded with `=`. -/
def quantum : List UInt8 → List Char
  | [a] =>
    let n := a.toNat * 16
    [symbol (n / 64), symbol (n % 64), '=', '=']
  | [a, b] =>
    let n := (a.toNat * 256 + b.toNat) * 4
    [symbol (n / 4096), symbol (n / 64 % 64), symbol (n % 64), '=']
  | [a, b, c] =>
    let n := (a.toNat * 256 + b.toNat) * 256 + c.toNat
    [symbol (n / 262144), symbol (n / 4096 % 64), symbol (n / 64 % 64), symbol (n % 64)]
  | _ => []

/-- Cuts a list of bytes into threes, after the pieces cut so far, last one first. -/
def threes : List (List UInt8) → List UInt8 → List (List UInt8)
  | pieces, a :: b :: c :: rest => threes ([a, b, c] :: pieces) rest
  | pieces, [] => pieces.reverse
  | pieces, piece => (piece :: pieces).reverse

def encode (bytes : List UInt8) : List Char := (threes [] bytes).flatMap quantum

theorem threes_eq (pieces : List (List UInt8)) (bytes : List UInt8) :
    threes pieces bytes = pieces.reverse ++ threes [] bytes := by
  match bytes with
  | a :: b :: c :: rest =>
    rw [threes, threes_eq _ rest, threes, threes_eq [_] rest]
    simp
  | [_, _] => simp [threes]
  | [_] => simp [threes]
  | [] => simp [threes]

theorem encode_short {bytes : List UInt8} (h : bytes.length ≤ 2) :
    encode bytes = quantum bytes := by
  match bytes, h with
  | [], _ | [_], _ | [_, _], _ => simp [encode, threes, quantum]

theorem encode_cons (a b c : UInt8) (rest : List UInt8) :
    encode (a :: b :: c :: rest) = quantum [a, b, c] ++ encode rest := by
  rw [encode, threes, threes_eq]
  simp [encode]

def value? (c : Char) : Option Nat :=
  let n := c.toNat
  if 65 ≤ n && n ≤ 90 then some (n - 65)
  else if 97 ≤ n && n ≤ 122 then some (n - 71)
  else if 48 ≤ n && n ≤ 57 then some (n + 4)
  else if c = '+' then some 62 else if c = '/' then some 63 else none

def decode : List Char → Option (List UInt8)
  | [] => some []
  | [p, q, '=', '='] => do
    let p ← value? p
    let q ← value? q
    if q % 16 = 0 then some [UInt8.ofNat (p * 4 + q / 16)] else none
  | [p, q, r, '='] => do
    let p ← value? p
    let q ← value? q
    let r ← value? r
    let n := (p * 64 + q) * 64 + r
    if r % 4 = 0 then some [UInt8.ofNat (n / 1024), UInt8.ofNat (n / 4 % 256)] else none
  | p :: q :: r :: s :: rest => do
    let p ← value? p
    let q ← value? q
    let r ← value? r
    let s ← value? s
    let n := ((p * 64 + q) * 64 + r) * 64 + s
    let more ← decode rest
    some (UInt8.ofNat (n / 65536) :: UInt8.ofNat (n / 256 % 256) :: UInt8.ofNat (n % 256) :: more)
  | _ => none

theorem value?_symbol : ∀ n, n < 64 → value? (symbol n) = some n := by decide

theorem symbol_ne_pad : ∀ n, n < 64 → symbol n ≠ '=' := by decide

example : encode [0, 255] = ['A', 'P', '8', '='] := by decide
example : decode ['A', 'P', '8', '='] = some [0, 255] := by decide

end RichText.Text.Base64
