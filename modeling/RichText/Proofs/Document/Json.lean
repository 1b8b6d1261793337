import RichText.Document.Json
import RichText.Proofs.Token.Json
import RichText.Proofs.Walk.PlainReading
set_option autoImplicit false

namespace RichText

open Json

theorem Font.codec : Codec toJson ofJson? where
  canonical font := .members (by
    simpa using ⟨Codec.int32.canonical font.id, .text font.name,
      Codec.enumeration.canonical font.family⟩)
  reads font n hn := by
    obtain ⟨k, hbudget, hrecord⟩ := readRecord_ofMembers hn (by simp)
    obtain ⟨hid, hname, hfamily, -⟩ := by simpa only [List.forall_mem_cons] using hbudget
    refine (hrecord _).trans ?_
    simp [required, Json.optional, Codec.int32.reads _ _ hid, Codec.text.reads _ _ hname,
      Codec.enumeration.reads _ _ hfamily]

theorem FontTable.codec : Codec toJson ofJson? where
  canonical table := (Codec.list Font.codec).canonical table.fonts
  reads table n hn := by
    rw [ofJson?, toJson, (Codec.list Font.codec).reads table.fonts n hn, Option.map_some]

theorem Color.codec : Codec toJson ofJson? where
  canonical c := .members (by
    simpa using ⟨Codec.uint8.canonical c.red, Codec.uint8.canonical c.green,
      Codec.uint8.canonical c.blue⟩)
  reads c n hn := by
    obtain ⟨k, hbudget, hrecord⟩ := readRecord_ofMembers hn (by simp)
    obtain ⟨hred, hgreen, hblue, -⟩ := by simpa only [List.forall_mem_cons] using hbudget
    refine (hrecord _).trans ?_
    simp [required, Codec.uint8.reads _ _ hred, Codec.uint8.reads _ _ hgreen,
      Codec.uint8.reads _ _ hblue]

theorem Token.codecList : Codec (fun ts => .array (listToJson ts)) (readList ofJson?) := by
  have h := Codec.list Token.codec
  simp only [← listToJson_eq_map] at h
  exact h

theorem ListLevel.codec : Codec toJson ofJson? where
  canonical level := .members (by simpa using Token.codecList.canonical level.tokens)
  reads level n hn := by
    obtain ⟨k, hbudget, hrecord⟩ := readRecord_ofMembers hn (by simp)
    obtain ⟨htokens, -⟩ := by simpa only [List.forall_mem_cons] using hbudget
    refine (hrecord _).trans ?_
    simp [Json.optional, Token.codecList.reads _ _ htokens]

theorem ListStyle.codec : Codec toJson ofJson? where
  canonical style := .members (by
    simpa using (Codec.list ListLevel.codec).canonical style.levels)
  reads style n hn := by
    obtain ⟨k, hbudget, hrecord⟩ := readRecord_ofMembers hn (by simp)
    obtain ⟨hlevels, -⟩ := by simpa only [List.forall_mem_cons] using hbudget
    refine (hrecord _).trans ?_
    simp [Json.optional, (Codec.list ListLevel.codec).reads _ _ hlevels]

theorem ListLevel.exists_of_ofJson? {value item : Json} {items : List Json} {n : Nat}
    {level : ListLevel} (h : ofJson? n value = some level)
    (htokens : fields? ["tokens"] value = some [some (.array items)]) (hitem : item ∈ items) :
    ∃ k t, Token.ofJson? k item = some t := by
  obtain ⟨k, hbuild⟩ := exists_of_readRecord h htokens
  obtain ⟨ts, hts, -⟩ := Option.map_eq_some_iff.1 hbuild
  exact exists_of_readList hts hitem

theorem ListStyle.exists_of_ofJson? {value item : Json} {items : List Json} {n : Nat}
    {style : ListStyle} (h : ofJson? n value = some style)
    (hlevels : fields? ["levels"] value = some [some (.array items)]) (hitem : item ∈ items) :
    ∃ k level, ListLevel.ofJson? k item = some level := by
  obtain ⟨k, hbuild⟩ := exists_of_readRecord h hlevels
  obtain ⟨levels, hread, -⟩ := Option.map_eq_some_iff.1 hbuild
  exact exists_of_readList hread hitem

theorem ListStyles.exists_of_ofJson? {members : List (List Char × Json)} {key : List Char}
    {value : Json} {n : Nat} {styles : ListStyles} (h : ofJson? n (.object members) = some styles)
    (hvalue : (key, value) ∈ members) : ∃ k style, ListStyle.ofJson? k value = some style := by
  cases n with
  | zero => simp [ofJson?] at h
  | succ n =>
    simp only [ofJson?, Option.bind_eq_bind, Option.bind_eq_some_iff] at h
    obtain ⟨entries, hentries, -⟩ := h
    obtain ⟨e, he⟩ := Codec.exists_of_mapM hentries hvalue
    simp only [Option.bind_eq_some_iff] at he
    obtain ⟨_, _, style, hstyle, -⟩ := he
    exact ⟨n, style, hstyle⟩

namespace ListStyles

def ids (styles : ListStyles) : List Int32 := styles.entries.map Prod.fst

theorem insertInto_of_notMem {id : Int32} {style : ListStyle} {entries : List (Int32 × ListStyle)}
    (h : id ∉ entries.map Prod.fst) : insertInto id style entries = entries ++ [(id, style)] := by
  induction entries with
  | nil => rfl
  | cons e entries ih =>
    simp only [List.map_cons, List.mem_cons, not_or] at h
    rw [insertInto, if_neg (Ne.symm h.1), ih h.2, List.cons_append]

theorem foldl_insert {entries : List (Int32 × ListStyle)} (styles : ListStyles)
    (h : (styles.entries ++ entries).map Prod.fst |>.Nodup) :
    entries.foldl (fun styles e => styles.insert e.1 e.2) styles =
      ⟨styles.entries ++ entries⟩ := by
  induction entries generalizing styles with
  | nil => simp
  | cons e entries ih =>
    have hnew : e.1 ∉ styles.entries.map Prod.fst := by
      rw [List.map_append, List.map_cons] at h
      intro hmem
      exact (List.nodup_append.1 h).2.2 _ hmem _ (by simp) rfl
    have hinsert : styles.insert e.1 e.2 = ⟨styles.entries ++ [e]⟩ := by
      rw [insert, insertInto_of_notMem hnew]
    rw [List.foldl_cons, hinsert, ih _ (by simpa using h)]
    simp

theorem ofList_entries {styles : ListStyles} (h : styles.ids.Nodup) :
    ofList styles.entries = styles := by
  rw [ofList, foldl_insert {} h]
  simp

theorem canonical_toJson (styles : ListStyles) : styles.toJson.Canonical := by
  refine .members (fun m hm => ?_)
  obtain ⟨e, -, rfl⟩ := List.mem_map.1 hm
  exact ListStyle.codec.canonical e.2

theorem ofJson?_toJson {styles : ListStyles} (h : styles.ids.Nodup) (n : Nat)
    (hn : styles.toJson.depth ≤ n) : ofJson? n styles.toJson = some styles := by
  cases n with
  | zero => simp [toJson, ofMembers, depth] at hn
  | succ n =>
    have hbudget := depth_ofMembers_le.1 hn
    have hentries : (styles.entries.map fun e => (escape (toString e.1.toInt).toList,
        e.2.toJson)).mapM (fun m => do
          let id ← (integerOf? m.1).bind int32Of?
          let style ← ListStyle.ofJson? n m.2
          return (id, style)) = some (styles.entries.map id) := by
      refine Codec.mapM_map (fun e he => ?_)
      have hstyle := ListStyle.codec.reads e.2 n
        (hbudget (toString e.1.toInt, e.2.toJson) (List.mem_map.2 ⟨e, he, rfl⟩))
      simp only [integerOf?_key, Option.bind_some, int32Of?_toInt, hstyle]
      rfl
    rw [List.map_id] at hentries
    have hmembers : styles.toJson =
        .object (styles.entries.map fun e => (escape (toString e.1.toInt).toList, e.2.toJson)) := by
      simp [toJson, ofMembers, Function.comp_def]
    calc ofJson? (n + 1) styles.toJson = some (ofList styles.entries) := by
          rw [hmembers, ofJson?]
          exact congrArg (fun o => o.bind fun entries => some (ofList entries)) hentries
      _ = some styles := by rw [ofList_entries h]

end ListStyles

namespace Document

/-- All lists of tokens in a document: its contents, those of its list levels, and those of the
groups in them at any depth. -/
def lists (doc : Document) : List (List Token) :=
  let outer := doc.contents ::
    doc.listStyles.entries.flatMap (fun e => e.2.levels.map ListLevel.tokens)
  outer ++ outer.flatMap Token.listsOfList

theorem colorCodec : Codec (ofOption Color.toJson) (readOption Color.ofJson?) :=
  .option Color.codec (by simp [Color.toJson, ofMembers])

theorem canonical_toJson (doc : Document) : doc.toJson.Canonical :=
  .members (by
    have hcolors := (Codec.list colorCodec).canonical doc.colors
    simpa using ⟨Token.codecList.canonical doc.contents, FontTable.codec.canonical doc.fonts,
      hcolors, doc.listStyles.canonical_toJson, .bool doc.hasHtml⟩)

theorem ofJson?_toJson {doc : Document} (h : doc.listStyles.ids.Nodup) (n : Nat)
    (hn : doc.toJson.depth ≤ n) : ofJson? n doc.toJson = some doc := by
  obtain ⟨k, hbudget, hrecord⟩ := readRecord_ofMembers hn (by simp)
  obtain ⟨hcontents, hfonts, hcolors, hstyles, hhtml, -⟩ := by
    simpa only [List.forall_mem_cons] using hbudget
  refine (hrecord _).trans ?_
  simp [required, Json.optional, Token.codecList.reads _ _ hcontents,
    FontTable.codec.reads _ _ hfonts, (Codec.list colorCodec).reads _ _ hcolors,
    ListStyles.ofJson?_toJson h _ hstyles, Codec.bool.reads _ _ hhtml]

/-- `value` stands in the document `json` where a token is to be read: in the contents or in the
level of a list style, or in a group there. -/
inductive HoldsToken (json value : Json) : Prop where
  | contents {items : List Json} {item : Json} {rest : List (Option Json)}
      (hfields : fields? ["contents", "fonts", "colors", "list_styles", "has_html"] json =
        some (some (.array items) :: rest))
      (hitem : item ∈ items) (h : Token.Within item value)
  | level {contents fonts colors hasHtml : Option Json} {styles : List (List Char × Json)}
      {key : List Char} {style level item : Json} {levels items : List Json}
      (hfields : fields? ["contents", "fonts", "colors", "list_styles", "has_html"] json =
        some [contents, fonts, colors, some (.object styles), hasHtml])
      (hstyle : (key, style) ∈ styles)
      (hlevels : fields? ["levels"] style = some [some (.array levels)]) (hlevel : level ∈ levels)
      (htokens : fields? ["tokens"] level = some [some (.array items)])
      (hitem : item ∈ items) (h : Token.Within item value)

theorem HoldsToken.reads {json value : Json} (h : HoldsToken json value) {n : Nat} {doc : Document}
    (hread : ofJson? n json = some doc) : ∃ m t, Token.ofJson? m value = some t := by
  cases h with
  | contents hfields hitem h =>
    obtain ⟨k, hbuild⟩ := exists_of_readRecord hread hfields
    split at hbuild
    · rename_i heq
      obtain ⟨rfl, -⟩ := List.cons.inj heq
      simp only [Option.bind_eq_bind, Option.bind_eq_some_iff] at hbuild
      obtain ⟨ts, hts, -⟩ := hbuild
      obtain ⟨m, t, ht⟩ := exists_of_readList hts hitem
      exact h.reads ht
    · simp at hbuild
  | level hfields hstyle hlevels hlevel htokens hitem h =>
    obtain ⟨k, hbuild⟩ := exists_of_readRecord hread hfields
    simp only [Option.bind_eq_bind, Option.bind_eq_some_iff] at hbuild
    obtain ⟨_, -, _, -, _, -, styles, hstyles, -⟩ := hbuild
    obtain ⟨k, style, hread⟩ := ListStyles.exists_of_ofJson? hstyles hstyle
    obtain ⟨k, level, hread⟩ := ListStyle.exists_of_ofJson? hread hlevels hlevel
    obtain ⟨k, t, ht⟩ := ListLevel.exists_of_ofJson? hread htokens hitem
    exact h.reads ht

/-- The round trip of documents. -/
theorem reads_back :
    (∀ doc : Document, doc.listStyles.ids.Nodup → doc.toJson.depth ≤ maxDepth →
      parse? doc.write = some doc) ∧
    ∀ s json doc, Json.parse? s = some json → parse? s = some doc →
      (∀ ts ∈ doc.lists, ∀ t ∈ ts, t.kind.isAssembled = false) ∧
      ∀ value, HoldsToken json value → ∀ name ∈ assembledNames, value.choice? ≠ some name := by
  constructor
  · intro doc hids hdepth
    rw [parse?, write, Json.parse?_write doc.canonical_toJson, Option.bind_some,
      ofJson?_toJson hids maxDepth hdepth]
  · intro s json doc hjson hdoc
    refine ⟨fun _ _ t _ => t.isAssembled_kind, fun value hvalue name hname hchoice => ?_⟩
    rw [parse?, hjson, Option.bind_some] at hdoc
    obtain ⟨n, t, ht⟩ := hvalue.reads hdoc
    rw [Token.ofJson?_eq_none hname hchoice] at ht
    simp at ht

def nested : Document where
  contents := [.group [.text "a\"b"]]
  fonts := ⟨[⟨1, "A", .nil⟩, ⟨1, "B", .roman⟩]⟩
  colors := [none, some ⟨0, 128, 255⟩]
  listStyles := ⟨[(-2147483648, ⟨[⟨[.atom (.listLevelNumber 18446744073709551615)]⟩]⟩)]⟩

theorem reads_back_nested :
    (nested.listStyles.ids.Nodup ∧ nested.toJson.depth ≤ maxDepth ∧
      parse? nested.write = some nested) ∧
    Json.parse? nested.write = some nested.toJson ∧
    HoldsToken nested.toJson (Token.toJson (.text "a\"b")) ∧
    (∀ ts ∈ nested.lists, ∀ t ∈ ts, t.kind.isAssembled = false) ∧
    (Token.toJson (.text "a\"b")).choice? ≠ some "Cell" := by
  have hids : nested.listStyles.ids.Nodup := by decide
  have hdepth : nested.toJson.depth ≤ maxDepth := by decide
  have hread : parse? nested.write = some nested := reads_back.1 nested hids hdepth
  have hjson : Json.parse? nested.write = some nested.toJson :=
    Json.parse?_write nested.canonical_toJson
  have hfields : fields? ["contents", "fonts", "colors", "list_styles", "has_html"] nested.toJson =
      some _ := fields?_ofMembers (by simp)
  have hgroup : Token.Within (Token.toJson (.group [.text "a\"b"])) (Token.toJson (.text "a\"b")) :=
    .group (Token.groupItems?_group _) (by simp [Token.listToJson]) (.refl _)
  have hholds : HoldsToken nested.toJson (Token.toJson (.text "a\"b")) :=
    .contents hfields (List.mem_singleton_self _) hgroup
  have hsecond := reads_back.2 nested.write nested.toJson nested hjson hread
  exact ⟨⟨hids, hdepth, hread⟩, hjson, hholds, hsecond.1,
    hsecond.2 _ hholds "Cell" (by decide)⟩

end Document

end RichText
