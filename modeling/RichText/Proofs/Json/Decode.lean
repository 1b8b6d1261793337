import RichText.Json.Decode
import RichText.Proofs.Json.Writing
set_option autoImplicit false

/-!
Readers and writers in pairs. A value that was written reads back within every budget that its
containers fit in. Main statement for records: `fields?_ofMembers`.
-/
namespace RichText.Json

mutual

def depth : Json → Nat
  | .array items => depthOfItems items + 1
  | .object members => depthOfMembers members + 1
  | .null | .bool _ | .number _ | .string _ => 0

def depthOfItems : List Json → Nat
  | [] => 0
  | item :: items => max item.depth (depthOfItems items)

def depthOfMembers : List (List Char × Json) → Nat
  | [] => 0
  | (_, value) :: members => max value.depth (depthOfMembers members)

end

theorem depth_array_le {items : List Json} {n : Nat} :
    (array items).depth ≤ n + 1 ↔ ∀ item ∈ items, item.depth ≤ n := by
  rw [depth, Nat.add_le_add_iff_right]
  induction items with
  | nil => simp [depthOfItems]
  | cons item items ih => rw [depthOfItems, Nat.max_le, ih, List.forall_mem_cons]

theorem depth_ofMembers_le {members : List (String × Json)} {n : Nat} :
    (ofMembers members).depth ≤ n + 1 ↔ ∀ m ∈ members, m.2.depth ≤ n := by
  rw [ofMembers, depth, Nat.add_le_add_iff_right]
  induction members with
  | nil => simp [depthOfMembers]
  | cons m members ih =>
    rw [List.map_cons, depthOfMembers, Nat.max_le, ih, List.forall_mem_cons]

/-- What `write` makes of a value is one that `read` makes the value of again. -/
structure Codec {α : Type} (write : α → Json) (read : Reader α) : Prop where
  canonical : ∀ a, (write a).Canonical
  reads : ∀ a n, (write a).depth ≤ n → read n (write a) = some a

namespace Codec

theorem bool : Codec ofBool readBool := ⟨.bool, fun _ _ _ => rfl⟩

theorem text : Codec ofText readText := ⟨.text, fun s _ _ => text?_ofText s⟩

theorem enumeration {α : Type} [Enumeration α] : Codec (α := α) ofEnumeration readEnumeration :=
  ⟨fun a => .text (Enumeration.name a), fun a n _ => readEnumeration_ofEnumeration n a⟩

end Codec

/-! Integers -/

theorem integerOf?_toDigits (n : Nat) : integerOf? (Nat.toDigits 10 n) = some (n : Int) := by
  obtain rfl | hn := Nat.eq_zero_or_pos n
  · rfl
  have hdigit := isDigit_toDigits n
  have hhead := head?_toDigits hn
  have hvalue : Nat.ofDigitChars 10 (Nat.toDigits 10 n) 0 = n := Nat.ofDigitChars_ten_toDigits
  generalize Nat.toDigits 10 n = ds at hdigit hhead hvalue
  unfold integerOf?
  split
  · exact absurd (hdigit '-' (by simp)) (by decide)
  · split
    · simp_all
    · have hne : ds ≠ [] := by
        rintro rfl
        simp at hvalue
        omega
      simpa [hne, hhead, hvalue] using hdigit

theorem integerOf?_neg_toDigits {n : Nat} (hn : 0 < n) :
    integerOf? ('-' :: Nat.toDigits 10 n) = some (-(n : Int)) := by
  have hdigit := isDigit_toDigits n
  have hhead := head?_toDigits hn
  have hvalue : Nat.ofDigitChars 10 (Nat.toDigits 10 n) 0 = n := Nat.ofDigitChars_ten_toDigits
  simpa [integerOf?, hhead, hvalue, Nat.toDigits_ne_nil] using hdigit

theorem integer?_ofInt (n : Int) : (ofInt n).integer? = some n := by
  unfold ofInt
  split
  · rw [integer?, integerOf?_neg_toDigits (by omega)]
    exact congrArg some (by omega)
  · rw [integer?, integerOf?_toDigits]
    exact congrArg some (by omega)

/-! Integers as keys -/

theorem toList_toString (n : Int) : (toString n).toList = (ofInt n).chars := by
  rw [Int.toString_eq_repr, Int.repr_eq_if, ofInt]
  by_cases hn : n < 0
  · have hneg : (-n).toNat = n.natAbs := by omega
    rw [if_neg (by omega), if_pos hn, hneg, String.toList_append, Nat.repr_eq_ofList_toDigits,
      String.toList_ofList]
    simp [chars]
  · have hpos : n.toNat = n.natAbs := by omega
    rw [if_pos (by omega), if_neg hn, hpos, Nat.repr_eq_ofList_toDigits, String.toList_ofList]
    rfl

theorem escape_ofInt (n : Int) : escape (ofInt n).chars = (ofInt n).chars := by
  have hplain : ∀ c : Char, c.isDigit = true ∨ c = '-' → escapeChar c = [c] := by
    intro c hc
    have hcontrol : ¬c.toNat < 0x20 := by
      obtain hc | rfl := hc
      · simp only [Char.isDigit, Bool.and_eq_true, decide_eq_true_eq, ge_iff_le,
          UInt32.le_iff_toNat_le] at hc
        have hlow : UInt32.toNat 48 ≤ c.toNat := hc.1
        have hzero : UInt32.toNat 48 = 48 := rfl
        omega
      · decide
    have hquote : c ≠ '"' ∧ c ≠ '\\' :=
      ⟨Lexeme.ne_of_startsNumber hc (by decide), Lexeme.ne_of_startsNumber hc (by decide)⟩
    have hbreak : c ≠ '\x08' ∧ c ≠ '\x0c' ∧ c ≠ '\n' ∧ c ≠ '\r' ∧ c ≠ '\t' := by
      refine ⟨?_, ?_, ?_, ?_, ?_⟩ <;> exact Lexeme.ne_of_startsNumber hc (by decide)
    simp [escapeChar, hquote, hbreak, hcontrol]
  have hchars : ∀ c ∈ (ofInt n).chars, c.isDigit = true ∨ c = '-' := by
    unfold ofInt
    split
    · simpa [chars] using fun c hc => .inl (isDigit_toDigits n.natAbs c hc)
    · exact fun c hc => .inl (isDigit_toDigits n.natAbs c hc)
  generalize (ofInt n).chars = s at hchars
  induction s with
  | nil => rfl
  | cons c s ih =>
    have hs := ih (fun d hd => hchars d (by simp [hd]))
    rw [escape] at hs
    rw [escape, List.flatMap_cons, hplain c (hchars c (by simp)), hs, List.singleton_append]

theorem integerOf?_key (n : Int) : integerOf? (escape (toString n).toList) = some n := by
  have hread := integer?_ofInt n
  rw [toList_toString, escape_ofInt]
  unfold ofInt at hread ⊢
  exact hread

theorem int32Of?_toInt (n : Int32) : int32Of? n.toInt = some n := by
  have hmin := n.le_toInt
  have hmax := n.toInt_lt
  rw [int32Of?, if_pos (by omega), Int32.ofInt_toInt]

theorem naturalBelow?_ofNat {n bound : Nat} (h : n < bound) :
    naturalBelow? bound (ofNat n) = some n := by
  simp [naturalBelow?, ofNat, integer?_ofInt, h]

namespace Codec

theorem int32 : Codec ofInt32 readInt32 := by
  refine ⟨fun n => .int n.toInt, fun n _ _ => ?_⟩
  rw [readInt32, ofInt32, integer?_ofInt, Option.bind_some, int32Of?_toInt]

theorem uint8 : Codec (fun n : UInt8 => ofNat n.toNat) readUInt8 := by
  refine ⟨fun n => .int n.toNat, fun n _ _ => ?_⟩
  rw [readUInt8, naturalBelow?_ofNat n.toNat_lt, Option.map_some, UInt8.ofNat_toNat]

theorem uint16 : Codec (fun n : UInt16 => ofNat n.toNat) readUInt16 := by
  refine ⟨fun n => .int n.toNat, fun n _ _ => ?_⟩
  rw [readUInt16, naturalBelow?_ofNat n.toNat_lt, Option.map_some, UInt16.ofNat_toNat]

theorem uint64 : Codec (fun n : UInt64 => ofNat n.toNat) readUInt64 := by
  refine ⟨fun n => .int n.toNat, fun n _ _ => ?_⟩
  rw [readUInt64, naturalBelow?_ofNat n.toNat_lt, Option.map_some, UInt64.ofNat_toNat]

/-! Containers -/

theorem mapM_map {β γ δ : Type} {l : List β} {g : β → γ} {f : γ → Option δ} {k : β → δ}
    (h : ∀ b ∈ l, f (g b) = some (k b)) : (l.map g).mapM f = some (l.map k) := by
  induction l with
  | nil => rfl
  | cons b l ih => simp [h b, ih (fun c hc => h c (by simp [hc]))]

theorem exists_of_mapM {β γ : Type} {l : List β} {f : β → Option γ} {l' : List γ}
    (h : l.mapM f = some l') {b : β} (hb : b ∈ l) : ∃ c, f b = some c := by
  induction l generalizing l' with
  | nil => simp at hb
  | cons b' l ih =>
    simp only [List.mapM_cons, Option.bind_eq_bind, Option.bind_eq_some_iff] at h
    obtain ⟨c, hc, cs, hcs, -⟩ := h
    obtain rfl | hb := List.mem_cons.1 hb
    · exact ⟨c, hc⟩
    · exact ih hcs hb

variable {α : Type} {write : α → Json} {read : Reader α}

theorem option (h : Codec write read) (hnull : ∀ a, write a ≠ .null) :
    Codec (ofOption write) (readOption read) where
  canonical o := by
    cases o with
    | none => exact .null
    | some a => exact h.canonical a
  reads o n hn := by
    cases o with
    | none => rfl
    | some a =>
      have hread := h.reads a n hn
      rw [ofOption, readOption, hread]
      · rfl
      · exact hnull a

theorem list (h : Codec write read) :
    Codec (fun items : List α => .array (items.map write)) (readList read) where
  canonical items := .array (by
    intro item hitem
    obtain ⟨a, -, rfl⟩ := List.mem_map.1 hitem
    exact h.canonical a)
  reads items n hn := by
    cases n with
    | zero => simp [depth] at hn
    | succ n =>
      have hitems := depth_array_le.1 hn
      have hread := mapM_map (k := id)
        (fun a ha => h.reads a n (hitems _ (List.mem_map_of_mem ha)))
      rw [List.map_id] at hread
      exact hread

end Codec

/-! Choices and records -/

theorem readChoice_ofText {α : Type} {ofName? : String → Option α}
    {readPayload : String → Reader α} (name : String) (n : Nat) :
    readChoice ofName? readPayload n (ofText name) = ofName? name := by
  simp [ofText, readChoice, keyText?_escape]

theorem readChoice_ofMembers {α : Type} {ofName? : String → Option α}
    {readPayload : String → Reader α} (name : String) {payload : Json} (h : payload ≠ .null)
    (n : Nat) :
    readChoice ofName? readPayload (n + 1) (ofMembers [(name, payload)]) =
      readPayload name n payload := by
  rw [ofMembers, List.map_cons, List.map_nil, readChoice.eq_def]
  dsimp only
  rw [keyText?_escape]
  cases payload <;> first | exact absurd rfl h | rfl

theorem filter_eq_of_nodup {members : List (String × Json)} (h : (members.map Prod.fst).Nodup)
    {m : String × Json} (hm : m ∈ members) : members.filter (fun m' => m'.1 = m.1) = [m] := by
  induction members with
  | nil => simp at hm
  | cons m' members ih =>
    simp only [List.map_cons, List.nodup_cons, List.mem_map, not_exists, not_and] at h
    obtain rfl | hm := List.mem_cons.1 hm
    · have hnone : members.filter (fun m' => m'.1 = m.1) = [] := by
        simpa using fun key value hmem => h.1 (key, value) hmem
      simp [hnone]
    · have hne : m'.1 ≠ m.1 := fun e => h.1 m hm e.symm
      simp [hne, ih h.2 hm]

theorem fields?_ofMembers {members : List (String × Json)} (h : (members.map Prod.fst).Nodup) :
    fields? (members.map Prod.fst) (ofMembers members) = some (members.map fun m => some m.2) := by
  have hfields : (members.map Prod.fst).mapM (field? members) =
      some (members.map fun m => some m.2) :=
    Codec.mapM_map (fun m hm => by rw [field?, filter_eq_of_nodup h hm])
  simp only [ofMembers, fields?]
  rw [Codec.mapM_map (k := id), List.map_id]
  · exact hfields
  · intro m _
    simp [keyText?_escape]

theorem readRecord_ofMembers {members : List (String × Json)} {n : Nat}
    (hn : (ofMembers members).depth ≤ n) (h : (members.map Prod.fst).Nodup) :
    ∃ k, (∀ m ∈ members, m.2.depth ≤ k) ∧
      ∀ {α : Type} (build : Nat → List (Option Json) → Option α),
        readRecord (members.map Prod.fst) build n (ofMembers members) =
          build k (members.map fun m => some m.2) := by
  cases n with
  | zero => simp [ofMembers, depth] at hn
  | succ k =>
    refine ⟨k, depth_ofMembers_le.1 hn, fun build => ?_⟩
    rw [readRecord, fields?_ofMembers h, Option.bind_some]

/-! What it takes to be read -/

section Parts

variable {α : Type} {n : Nat}

theorem exists_of_readRecord {names : List String} {build : Nat → List (Option Json) → Option α}
    {value : Json} {a : α} {fields : List (Option Json)}
    (h : readRecord names build n value = some a) (hfields : fields? names value = some fields) : ∃ k, build k fields = some a := by
  cases n with
  | zero => simp [readRecord] at h
  | succ k =>
    rw [readRecord, hfields] at h
    exact ⟨k, h⟩

theorem exists_of_readList {read : Reader α} {items : List Json} {l : List α}
    (h : readList read n (.array items) = some l) {item : Json} (hitem : item ∈ items) :
    ∃ k a, read k item = some a := by
  cases n with
  | zero => simp [readList] at h
  | succ k =>
    obtain ⟨a, ha⟩ := Codec.exists_of_mapM h hitem
    exact ⟨k, a, ha⟩

end Parts

end RichText.Json
