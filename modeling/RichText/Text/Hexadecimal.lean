set_option autoImplicit false

namespace RichText.Text

def hexValue? (c : Char) : Option Nat :=
  let n := c.toNat
  if 48 ≤ n && n ≤ 57 then some (n - 48)
  else if 97 ≤ n && n ≤ 102 then some (n - 87)
  else if 65 ≤ n && n ≤ 70 then some (n - 55)
  else none

def bytesAfter : List UInt8 → List Nat → List UInt8
  | bytes, high :: low :: rest => bytesAfter (UInt8.ofNat (high * 16 + low) :: bytes) rest
  | bytes, _ => bytes.reverse

/-- Two digits make a byte, the high one first; a digit left over at the end is dropped. -/
def bytesOfDigits (digits : List Nat) : List UInt8 := bytesAfter [] digits

theorem bytesAfter_eq (bytes : List UInt8) (digits : List Nat) :
    bytesAfter bytes digits = bytes.reverse ++ bytesOfDigits digits := by
  unfold bytesOfDigits
  match digits with
  | high :: low :: rest =>
    rw [bytesAfter, bytesAfter_eq _ rest, bytesAfter, bytesAfter_eq [_] rest]
    simp
  | [_] => simp [bytesAfter]
  | [] => simp [bytesAfter]

@[simp] theorem bytesOfDigits_cons_cons (high low : Nat) (rest : List Nat) :
    bytesOfDigits (high :: low :: rest) =
      UInt8.ofNat (high * 16 + low) :: bytesOfDigits rest := by
  rw [bytesOfDigits, bytesAfter, bytesAfter_eq]
  rfl

/-- The bytes that the hexadecimal digits of a text spell; all other characters are skipped. -/
def decodeHex (s : List Char) : List UInt8 := bytesOfDigits (s.filterMap hexValue?)

def hexPair (b : UInt8) : List Char :=
  [Nat.digitChar (b.toNat / 16), Nat.digitChar (b.toNat % 16)]

theorem hexValue?_digitChar : ∀ n, n < 16 → hexValue? n.digitChar = some n := by decide

end RichText.Text
