import RichText.Group
import RichText.Picture
set_option autoImplicit false

/-!
The payload of a picture, written as text and read back: hexadecimal digits among other characters,
cut anywhere into texts, and base64 in the address of the picture. Main statement:
`payload_ofGroup`.
-/
namespace RichText

namespace Text

/-! Spelling bytes -/

def lowerDigits : List Char :=
  ['0', '1', '2', '3', '4', '5', '6', '7', '8', '9', 'a', 'b', 'c', 'd', 'e', 'f']

def upperDigits : List Char :=
  ['0', '1', '2', '3', '4', '5', '6', '7', '8', '9', 'A', 'B', 'C', 'D', 'E', 'F']

def isHexDigit (c : Char) : Bool := lowerDigits.contains c || upperDigits.contains c

def StandsFor (c : Char) (n : Nat) : Prop :=
  lowerDigits[n]? = some c ∨ upperDigits[n]? = some c

inductive PairsOf : List UInt8 → List Char → Prop where
  | nil : PairsOf [] []
  | cons {b : UInt8} {high low : Char} {bytes : List UInt8} {digits : List Char}
      (hhigh : StandsFor high (b.toNat / 16)) (hlow : StandsFor low (b.toNat % 16))
      (rest : PairsOf bytes digits) : PairsOf (b :: bytes) (high :: low :: digits)

/-- A text of digits with other characters anywhere between them. -/
inductive Interspersed : List Char → List Char → Prop where
  | nil : Interspersed [] []
  | digit {c : Char} {digits s : List Char} (rest : Interspersed digits s) :
      Interspersed (c :: digits) (c :: s)
  | noise {c : Char} {digits s : List Char} (hc : isHexDigit c = false)
      (rest : Interspersed digits s) : Interspersed digits (c :: s)

/-- The text spells the bytes, with a digit left over at most. -/
def Spells (bytes : List UInt8) (s : List Char) : Prop :=
  ∃ (digits : List Char) (leftOver : Option Char),
    PairsOf bytes digits ∧ (∀ c ∈ leftOver, isHexDigit c = true) ∧
      Interspersed (digits ++ leftOver.toList) s

theorem hexValue?_of_standsFor {c : Char} {n : Nat} (h : StandsFor c n) :
    hexValue? c = some n := by
  have hlower : ∀ n < 16, lowerDigits[n]?.bind hexValue? = some n := by decide
  have hupper : ∀ n < 16, upperDigits[n]?.bind hexValue? = some n := by decide
  obtain h | h := h
  · have hn : n < lowerDigits.length := (List.getElem?_eq_some_iff.1 h).1
    simpa [h] using hlower n hn
  · have hn : n < upperDigits.length := (List.getElem?_eq_some_iff.1 h).1
    simpa [h] using hupper n hn

theorem hexValue?_eq_none {c : Char} (h : isHexDigit c = false) : hexValue? c = none := by
  have hdigits : ∀ n < 103, 48 ≤ n ∧ n ≤ 57 ∨ 97 ≤ n ∧ n ≤ 102 ∨ 65 ≤ n ∧ n ≤ 70 →
      isHexDigit (Char.ofNat n) = true := by decide
  have hother : ¬(48 ≤ c.toNat ∧ c.toNat ≤ 57 ∨ 97 ≤ c.toNat ∧ c.toNat ≤ 102 ∨
      65 ≤ c.toNat ∧ c.toNat ≤ 70) := by
    intro hc
    have hdigit := hdigits c.toNat (by omega) hc
    rw [Char.ofNat_toNat, h] at hdigit
    exact Bool.noConfusion hdigit
  simp only [not_or] at hother
  simp [hexValue?, hother]

theorem PairsOf.filterMap_eq {bytes : List UInt8} {digits : List Char} (h : PairsOf bytes digits) :
    digits.filterMap hexValue? = bytes.flatMap fun b => [b.toNat / 16, b.toNat % 16] := by
  induction h with
  | nil => rfl
  | cons hhigh hlow rest ih =>
    simp [hexValue?_of_standsFor hhigh, hexValue?_of_standsFor hlow, ih]

theorem Interspersed.filterMap_eq {digits s : List Char} (h : Interspersed digits s) :
    s.filterMap hexValue? = digits.filterMap hexValue? := by
  induction h with
  | nil => rfl
  | digit rest ih => simp [List.filterMap_cons, ih]
  | noise hc rest ih => simp [hexValue?_eq_none hc, ih]

theorem bytesOfDigits_append (bytes : List UInt8) {rest : List Nat} (h : rest.length ≤ 1) :
    bytesOfDigits ((bytes.flatMap fun b => [b.toNat / 16, b.toNat % 16]) ++ rest) = bytes := by
  induction bytes with
  | nil =>
    match rest, h with
    | [], _ => rfl
    | [_], _ => rfl
  | cons b bytes ih =>
    have hb : b.toNat / 16 * 16 + b.toNat % 16 = b.toNat := by omega
    simp [hb, ih]

theorem decodeHex_of_spells {bytes : List UInt8} {s : List Char} (h : Spells bytes s) :
    decodeHex s = bytes := by
  obtain ⟨digits, leftOver, hpairs, -, hs⟩ := h
  have hleft : (leftOver.toList.filterMap hexValue?).length ≤ 1 :=
    Nat.le_trans (List.length_filterMap_le _ _) (by cases leftOver <;> simp)
  rw [decodeHex, hs.filterMap_eq, List.filterMap_append, hpairs.filterMap_eq]
  exact bytesOfDigits_append bytes hleft

/-! Base64 -/

namespace Base64

theorem decode_quantum {bytes : List UInt8} (h : bytes.length ≤ 2) :
    decode (quantum bytes) = some bytes := by
  match bytes, h with
  | [], _ => rfl
  | [a], _ =>
    have ha := a.toNat_lt
    have hhigh : value? (symbol (a.toNat * 16 / 64)) = some (a.toNat * 16 / 64) :=
      value?_symbol _ (by omega)
    have hlow : value? (symbol (a.toNat * 16 % 64)) = some (a.toNat * 16 % 64) :=
      value?_symbol _ (by omega)
    have hbits : a.toNat * 16 % 64 % 16 = 0 := by omega
    have hbyte : a.toNat * 16 / 64 * 4 + a.toNat * 16 % 64 / 16 = a.toNat := by omega
    simp only [quantum, decode, hhigh, hlow, Option.bind_eq_bind, Option.bind_some, hbits, if_true,
      hbyte, UInt8.ofNat_toNat]
  | [a, b], _ =>
    have ha := a.toNat_lt
    have hb := b.toNat_lt
    generalize hn : (a.toNat * 256 + b.toNat) * 4 = n
    have hfirst : value? (symbol (n / 4096)) = some (n / 4096) := value?_symbol _ (by omega)
    have hsecond : value? (symbol (n / 64 % 64)) = some (n / 64 % 64) := value?_symbol _ (by omega)
    have hthird : value? (symbol (n % 64)) = some (n % 64) := value?_symbol _ (by omega)
    have hpad : symbol (n % 64) ≠ '=' := symbol_ne_pad _ (by omega)
    have hbits : n % 64 % 4 = 0 := by omega
    have hjoined : (n / 4096 * 64 + n / 64 % 64) * 64 + n % 64 = n := by omega
    have hhigh : n / 1024 = a.toNat := by omega
    have hlow : n / 4 % 256 = b.toNat := by omega
    simp only [quantum, hn]
    rw [decode.eq_3 _ _ _ hpad]
    simp only [hfirst, hsecond, hthird, Option.bind_eq_bind, Option.bind_some, hbits, if_true,
      hjoined, hhigh, hlow, UInt8.ofNat_toNat]

theorem decode_encode_cons (a b c : UInt8) (rest : List UInt8) :
    decode (encode (a :: b :: c :: rest)) =
      (decode (encode rest)).map fun bytes => a :: b :: c :: bytes := by
  have ha := a.toNat_lt
  have hb := b.toNat_lt
  have hc := c.toNat_lt
  generalize hn : (a.toNat * 256 + b.toNat) * 256 + c.toNat = n
  have hfirst : value? (symbol (n / 262144)) = some (n / 262144) := value?_symbol _ (by omega)
  have hsecond : value? (symbol (n / 4096 % 64)) = some (n / 4096 % 64) :=
    value?_symbol _ (by omega)
  have hthird : value? (symbol (n / 64 % 64)) = some (n / 64 % 64) := value?_symbol _ (by omega)
  have hfourth : value? (symbol (n % 64)) = some (n % 64) := value?_symbol _ (by omega)
  have hpad : symbol (n % 64) ≠ '=' := symbol_ne_pad _ (by omega)
  have hjoined : ((n / 262144 * 64 + n / 4096 % 64) * 64 + n / 64 % 64) * 64 + n % 64 = n := by
    omega
  have hhigh : n / 65536 = a.toNat := by omega
  have hmiddle : n / 256 % 256 = b.toNat := by omega
  have hlow : n % 256 = c.toNat := by omega
  -- no padding can be seen here, since no symbol is a pad
  simp only [encode_cons, quantum, hn, List.cons_append, List.nil_append]
  rw [decode.eq_4 _ _ _ _ _ (fun _ hs _ => hpad hs) (fun hs _ => hpad hs)]
  simp only [hfirst, hsecond, hthird, hfourth, Option.bind_eq_bind, Option.bind_some, hjoined,
    hhigh, hmiddle, hlow, UInt8.ofNat_toNat]
  exact Option.map_eq_bind.symm

theorem decode_encode (bytes : List UInt8) : decode (encode bytes) = some bytes := by
  match bytes with
  | a :: b :: c :: rest => rw [decode_encode_cons, decode_encode rest, Option.map_some]
  | [] | [_] | [_, _] => rw [encode_short (by simp), decode_quantum (by simp)]

end Base64

end Text

/-! Pictures -/

def Token.binary? : Token → Option (List UInt8)
  | .atom (.binary bytes) => some bytes
  | _ => none

namespace Picture

def addressData (address : List Char) : List Char := (address.dropWhile (· ≠ ',')).drop 1

theorem flatMap_binary (contents : List Token) :
    contents.flatMap binary = (contents.filterMap Token.binary?).flatten := by
  induction contents with
  | nil => rfl
  | cons t contents ih =>
    rw [List.flatMap_cons, ih]
    unfold binary Token.binary?
    split <;> simp

theorem flatMap_spelling (contents : List Token) :
    contents.flatMap spelling = (String.join (Group.texts contents)).toList := by
  induction contents with
  | nil => rfl
  | cons t contents ih =>
    rw [List.flatMap_cons, ih, Group.texts, Group.texts]
    unfold spelling Token.text?
    split <;> simp [String.toList_join]

theorem comma_notMem_mediaType (picture : Picture) : ',' ∉ picture.mediaType.toList := by
  unfold mediaType
  cases picture.format with
  | none => decide
  | some format => cases format <;> decide

theorem addressData_dataUri (picture : Picture) :
    addressData picture.dataUri.toList = Text.Base64.encode picture.data := by
  have hmedia := comma_notMem_mediaType picture
  have hfront : ∀ c ∈ ("data:" ++ picture.mediaType ++ ";base64").toList,
      decide (c ≠ ',') = true := by
    intro c hc
    rw [decide_eq_true_iff]
    rintro rfl
    simp [hmedia] at hc
  have huri : picture.dataUri.toList = ("data:" ++ picture.mediaType ++ ";base64").toList ++
      ',' :: Text.Base64.encode picture.data := by
    simp [dataUri]
  rw [addressData, huri, List.dropWhile_append_of_pos hfront]
  rfl

/-- Whatever else is in a picture group, and however the texts in it are cut, the data of the
picture is its binary tokens and then the bytes that the texts spell, and its address holds just
this data. -/
theorem payload_ofGroup {contents : List Token} {bytes : List UInt8}
    (h : Text.Spells bytes (String.join (Group.texts contents)).toList) :
    (ofGroup contents).data = (contents.filterMap Token.binary?).flatten ++ bytes ∧
      Text.Base64.decode (addressData (ofGroup contents).dataUri.toList) =
        some ((contents.filterMap Token.binary?).flatten ++ bytes) := by
  have hdata : (ofGroup contents).data = (contents.filterMap Token.binary?).flatten ++ bytes := by
    rw [← flatMap_binary, ← Text.decodeHex_of_spells h, ← flatMap_spelling]
    rfl
  refine ⟨hdata, ?_⟩
  rw [addressData_dataUri, Text.Base64.decode_encode, hdata]

def cutPair : List Token :=
  [.atom (.destination .picture), .atom (.text "8"), .atom (.binary [1, 2]),
    .group [.atom (.text "77")], .atom (.text "9 x5"), .atom (.pictureFormat .png),
    .atom (.text "E\nA")]

theorem payload_ofGroup_cutPair :
    Text.Spells [0x89, 0x5E] (String.join (Group.texts cutPair)).toList ∧
      (ofGroup cutPair).data = [1, 2, 0x89, 0x5E] ∧
      Text.Base64.decode (addressData (ofGroup cutPair).dataUri.toList) =
        some [1, 2, 0x89, 0x5E] := by
  have hpairs : Text.PairsOf [0x89, 0x5E] ['8', '9', '5', 'E'] :=
    .cons (.inl rfl) (.inl rfl) (.cons (.inl rfl) (.inr rfl) .nil)
  have hspells : Text.Spells [0x89, 0x5E] (String.join (Group.texts cutPair)).toList :=
    ⟨_, some 'A', hpairs, fun _ hc => Option.some.inj hc ▸ rfl,
      .digit (.digit (.noise rfl (.noise rfl (.digit (.digit (.noise rfl (.digit .nil)))))))⟩
  exact ⟨hspells, payload_ofGroup hspells⟩

end Picture

end RichText
