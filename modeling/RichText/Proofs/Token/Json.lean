import RichText.Token.Json
import RichText.Proofs.Json.Decode
set_option autoImplicit false

namespace RichText

open Json

theorem Destination.codec : Codec toJson ofJson? where
  canonical d := by
    cases d with
    | other s => exact .members (by simpa using .text s)
    | _ => exact .text _
  reads d n hn := by
    cases n with
    | succ n => exact ofJson?_toJson n d
    | zero =>
      cases d with
      | other s => simp [toJson, ofMembers, depth] at hn
      | _ => rw [toJson, ofJson?_ofText] <;> first | rfl | simp

theorem Json.Codec.optionalInt32 : Codec (ofOption ofInt32) (readOption readInt32) :=
  Codec.int32.option (fun _ => by simp [ofInt32, ofInt])

theorem ControlWord.codec : Codec toJson ofJson? where
  canonical w := .members (by simpa using ⟨.text w.name, Codec.optionalInt32.canonical w.value⟩)
  reads w n hn := by
    obtain ⟨k, hbudget, hrecord⟩ := readRecord_ofMembers hn (by simp)
    obtain ⟨hname, hvalue, -⟩ := by simpa only [List.forall_mem_cons] using hbudget
    refine (hrecord _).trans ?_
    simp [required, Json.optional, Codec.text.reads _ _ hname,
      Codec.optionalInt32.reads _ _ hvalue]

namespace Atom

variable {α : Type} {write : α → Json} {read : Reader α}

theorem payload?_ne_null (a : Atom) : a.payload? ≠ some .null := by
  cases a with
  | destination d => cases d <;> simp [payload?, Destination.toJson, ofText, ofMembers]
  | _ => simp [payload?, ofText, ofBool, ofInt32, ofNat, ofInt, ofEnumeration, ofMembers,
      ControlWord.toJson]

def PayloadReads (a : Atom) (payload : Json) : Prop :=
  payload.Canonical ∧ ∀ n, payload.depth ≤ n → readPayload a.name n payload = some a

theorem payloadReads_of_codec (h : Codec write read) (x : α) (build : α → Atom)
    (hread : ∀ n payload, readPayload (build x).name n payload = (read n payload).map build) :
    PayloadReads (build x) (write x) := by
  refine ⟨h.canonical x, fun n hn => ?_⟩
  rw [hread, h.reads x n hn, Option.map_some]

theorem payloadReads {a : Atom} {payload : Json} (h : a.payload? = some payload) :
    PayloadReads a payload := by
  cases a with
  | ignoreUnrecognized | plainText | paragraphDefault | inTable | paragraphNumbering
  | cellMergeFirst | cellMerge | rowDefaults => simp [payload?] at h
  | text x =>
    obtain rfl := Option.some.inj h
    exact payloadReads_of_codec .text x _ (fun _ _ => rfl)
  | destination x =>
    obtain rfl := Option.some.inj h
    exact payloadReads_of_codec Destination.codec x _ (fun _ _ => rfl)
  | unrecognized x =>
    obtain rfl := Option.some.inj h
    exact payloadReads_of_codec ControlWord.codec x _ (fun _ _ => rfl)
  | binary x =>
    obtain rfl := Option.some.inj h
    exact payloadReads_of_codec (.list .uint8) x _ (fun _ _ => rfl)
  | fontSize x =>
    obtain rfl := Option.some.inj h
    exact payloadReads_of_codec .uint16 x _ (fun _ _ => rfl)
  | htmlRtf x | bold x | italic x | underline x | strike x | hidden x =>
    obtain rfl := Option.some.inj h
    exact payloadReads_of_codec .bool x _ (fun _ _ => rfl)
  | foregroundColor x | backgroundColor x | listLevelNumber x | borderColor x
  | cellBackground x =>
    obtain rfl := Option.some.inj h
    exact payloadReads_of_codec .uint64 x _ (fun _ _ => rfl)
  | breakMark x | script x | alignment x | numberingType x | borderPosition x | borderStyle x
  | cellVerticalAlign x | pictureFormat x =>
    obtain rfl := Option.some.inj h
    exact payloadReads_of_codec .enumeration x _ (fun _ _ => rfl)
  | _ x =>
    obtain rfl := Option.some.inj h
    exact payloadReads_of_codec .int32 x _ (fun _ _ => rfl)

end Atom

theorem Atom.name_ne_group (a : Atom) : a.name ≠ "Group" := by
  cases a <;> exact of_decide_eq_true rfl

theorem Atom.find?_plain {a : Atom} (h : a.payload? = none) :
    plain.find? (fun b => b.name = a.name) = some a := by
  cases a with
  | ignoreUnrecognized | plainText | paragraphDefault | inTable | paragraphNumbering
  | cellMergeFirst | cellMerge | rowDefaults => decide
  | _ => simp [payload?] at h

theorem Atom.codec : Codec toJson ofJson? where
  canonical a := by
    unfold toJson
    cases hpayload : a.payload? with
    | none => exact .text _
    | some payload => exact .members (by simpa using (payloadReads hpayload).1)
  reads a n hn := by
    unfold toJson at hn ⊢
    cases hpayload : a.payload? with
    | none => exact (readChoice_ofText a.name n).trans (find?_plain hpayload)
    | some payload =>
      rw [hpayload] at hn
      cases n with
      | zero => simp [ofMembers, depth] at hn
      | succ n =>
        obtain ⟨hbudget, -⟩ := by simpa only [List.forall_mem_cons] using depth_ofMembers_le.1 hn
        have hread := (payloadReads hpayload).2 n hbudget
        have hnull : payload ≠ .null := fun h => payload?_ne_null a (h ▸ hpayload)
        rw [ofJson?, readChoice_ofMembers a.name hnull]
        exact hread

namespace Token

theorem groupItems?_atom (a : Atom) : groupItems? a.toJson = none := by
  unfold Atom.toJson
  cases a.payload? with
  | none => rfl
  | some payload => simp [groupItems?, ofMembers, keyText?_escape, a.name_ne_group]

theorem groupItems?_group (contents : List Token) :
    groupItems? (toJson (.group contents)) = some (some (.array (listToJson contents))) := by
  have hfields : fields? ["contents"] (ofMembers [("contents", .array (listToJson contents))]) =
      some [some (.array (listToJson contents))] := fields?_ofMembers (by simp)
  rw [toJson, ofMembers, List.map_cons, List.map_nil, groupItems?, keyText?_escape, if_pos rfl,
    hfields]

theorem listToJson_eq_map (ts : List Token) : listToJson ts = ts.map toJson := by
  induction ts with
  | nil => rfl
  | cons t ts ih => rw [listToJson, ih, List.map_cons]

mutual

theorem canonical_toJson : ∀ t : Token, t.toJson.Canonical
  | .atom a => Atom.codec.canonical a
  | .group contents => by
    have hitems : (Json.array (listToJson contents)).Canonical := .array (canonical_items contents)
    have hbody : (ofMembers [("contents", .array (listToJson contents))]).Canonical :=
      .members (by simpa using hitems)
    exact .members (by simpa using hbody)

theorem canonical_items : ∀ ts : List Token, ∀ item ∈ listToJson ts, item.Canonical
  | [] => by simp [listToJson]
  | t :: ts => by
    rw [listToJson, List.forall_mem_cons]
    exact ⟨canonical_toJson t, canonical_items ts⟩

end

mutual

theorem ofJson?_toJson : ∀ (t : Token) (n : Nat), t.toJson.depth ≤ n → ofJson? n t.toJson = some t
  | .atom a, n, hn => by
    rw [toJson] at hn ⊢
    rw [ofJson?.eq_def, groupItems?_atom, Atom.codec.reads a n hn, Option.map_some]
  | .group contents, n, hn => by
    rw [toJson] at hn
    obtain ⟨n, rfl⟩ : ∃ k, n = k + 3 := by
      refine ⟨n - 3, ?_⟩
      simp only [ofMembers, List.map_cons, List.map_nil, depth, depthOfMembers] at hn
      omega
    have hitems : ∀ item ∈ listToJson contents, item.depth ≤ n := by
      simpa [depth_ofMembers_le, depth_array_le] using hn
    rw [ofJson?.eq_def, groupItems?_group]
    simp only [mapM_items contents n hitems, Option.map_some]

theorem mapM_items : ∀ (ts : List Token) (n : Nat), (∀ item ∈ listToJson ts, item.depth ≤ n) →
    (listToJson ts).mapM (fun item => ofJson? n item) = some ts
  | [], _, _ => rfl
  | t :: ts, n, hn => by
    rw [listToJson, List.forall_mem_cons] at hn
    simp [listToJson, ofJson?_toJson t n hn.1, mapM_items ts n hn.2]

end

theorem codec : Codec toJson ofJson? := ⟨canonical_toJson, ofJson?_toJson⟩

end Token

/-! What is read has the name that it is given by -/

def Json.choice? : Json → Option String
  | .string raw => keyText? raw
  | .object [(key, _)] => keyText? key
  | _ => none

theorem Json.readChoice_cases {α : Type} {ofName? : String → Option α}
    {readPayload : String → Reader α} {n : Nat} {value : Json} {a : α}
    (h : readChoice ofName? readPayload n value = some a) :
    ∃ name, value.choice? = some name ∧
      (ofName? name = some a ∨ ∃ n payload, readPayload name n payload = some a) := by
  unfold readChoice at h
  split at h
  · obtain ⟨name, hname, ha⟩ := Option.bind_eq_some_iff.1 h
    exact ⟨name, hname, .inl ha⟩
  · split at h
    · rename_i name hname
      exact ⟨name, hname, .inl h⟩
    · rename_i name hname _
      exact ⟨name, hname, .inr ⟨_, _, h⟩⟩
    · simp at h
  · simp at h

namespace Atom

theorem name_of_readPayload {name : String} {n : Nat} {payload : Json} {a : Atom}
    (h : readPayload name n payload = some a) : a.name = name := by
  unfold readPayload at h
  split at h <;> first
    | (obtain ⟨x, -, rfl⟩ := Option.map_eq_some_iff.1 h; rfl)
    | simp at h

theorem name_of_ofJson? {n : Nat} {value : Json} {a : Atom} (h : ofJson? n value = some a) :
    value.choice? = some a.name := by
  obtain ⟨name, hname, hplain | ⟨n, payload, hread⟩⟩ := readChoice_cases h
  · have hfind := List.find?_some hplain
    rw [hname, of_decide_eq_true hfind]
  · rw [hname, name_of_readPayload hread]

end Atom

namespace Token

def name : Token → String
  | .atom a => a.name
  | .group _ => "Group"

theorem choice?_of_groupItems? {value : Json} {items : Option Json}
    (h : groupItems? value = some items) : value.choice? = some "Group" := by
  unfold groupItems? at h
  split at h
  · split at h
    · assumption
    · simp at h
  · simp at h

theorem name_of_ofJson? {n : Nat} {value : Json} {t : Token} (h : ofJson? n value = some t) :
    value.choice? = some t.name := by
  rw [ofJson?.eq_def] at h
  split at h
  · rename_i items hitems
    rw [choice?_of_groupItems? hitems]
    split at h
    · obtain ⟨contents, -, rfl⟩ := Option.map_eq_some_iff.1 h
      rfl
    · simp at h
  · simp at h
  · rename_i hitems
    rw [choice?_of_groupItems? hitems]
    split at h
    · obtain rfl := Option.some.inj h
      rfl
    · simp at h
  · obtain ⟨a, ha, rfl⟩ := Option.map_eq_some_iff.1 h
    exact Atom.name_of_ofJson? ha

end Token

/-- The kinds of what styles hold besides tokens. -/
def Kind.isAssembled : Kind → Bool
  | .cell | .border _ | .hyperlink | .bookmark => true
  | _ => false

def assembledNames : List String := ["Cell", "Border", "Hyperlink", "Bookmark"]

theorem Token.isAssembled_kind (t : Token) : t.kind.isAssembled = false := by
  cases t with
  | group contents => rfl
  | atom a => cases a <;> rfl

theorem Token.name_notMem_assembledNames (t : Token) : t.name ∉ assembledNames := by
  cases t with
  | group contents => simp [assembledNames, name]
  | atom a => cases a <;> exact of_decide_eq_true rfl

theorem Token.ofJson?_eq_none {name : String} (h : name ∈ assembledNames) {value : Json}
    (hname : value.choice? = some name) (n : Nat) : ofJson? n value = none := by
  cases hread : ofJson? n value with
  | none => rfl
  | some t =>
    have ht := name_of_ofJson? hread
    rw [hname] at ht
    exact absurd (Option.some.inj ht ▸ h) t.name_notMem_assembledNames

/-- `value` stands in `outer` where a token is to be read, in a group of any depth. -/
inductive Token.Within : Json → Json → Prop where
  | refl (value : Json) : Within value value
  | group {outer item value : Json} {items : List Json}
      (hitems : groupItems? outer = some (some (.array items))) (hitem : item ∈ items)
      (h : Within item value) : Within outer value

/-- A token is read only if all that stands in it is read. -/
theorem Token.Within.reads {outer value : Json} (h : Within outer value) {n : Nat} {t : Token}
    (hread : ofJson? n outer = some t) : ∃ m u, ofJson? m value = some u := by
  induction h generalizing n t with
  | refl => exact ⟨n, t, hread⟩
  | group hitems hitem _ ih =>
    rw [ofJson?.eq_def, hitems] at hread
    dsimp only at hread
    split at hread
    · obtain ⟨ts, hts, -⟩ := Option.map_eq_some_iff.1 hread
      obtain ⟨u, hu⟩ := Codec.exists_of_mapM hts hitem
      exact ih hu
    · simp at hread

end RichText
