import RichText.Proofs.Style.Resolution
set_option autoImplicit false

/-!
What a style takes over from the list level that it refers to: the first entry of each kind that
the style has none of. A reset among the tokens of the level clears the paragraph formatting of the
style instead. Main statement: `filter_kind_resolveList_iff`.
-/
namespace RichText

namespace ListLevel

def offer? (level : ListLevel) (kind : Kind) : Option Entry :=
  if kind ∈ withheld then none else level.formats.find? (fun e => e.kind = kind)

variable {level : ListLevel} {kind : Kind}

theorem paragraphDefault_mem_formats :
    .atom .paragraphDefault ∈ level.formats ↔ .atom .paragraphDefault ∈ level.tokens := by
  unfold formats
  rw [List.mem_map]
  constructor
  · rintro ⟨t, ht, htoken⟩
    rw [← Entry.token.inj htoken]
    exact (List.mem_filter.1 ht).1
  · intro h
    exact ⟨_, List.mem_filter.2 ⟨h, rfl⟩, rfl⟩

theorem contribution?_of_notMem (h : .atom .paragraphDefault ∉ level.tokens) :
    contribution? level.formats kind = level.offer? kind := by
  have hall : level.formats.rtakeWhile (· ≠ .atom .paragraphDefault) = level.formats := by
    rw [List.rtakeWhile_eq_self_iff]
    intro e he
    rw [decide_eq_true_iff]
    rintro rfl
    exact h (paragraphDefault_mem_formats.1 he)
  unfold contribution? offer?
  rw [hall]
  split
  · rename_i hwithheld
    simp [hwithheld]
  · rename_i hwithheld
    simp [hwithheld]

/-- Merging a level leaves what is in effect and adds its first entry otherwise, unless it has a
reset that clears what is in effect or what it says first. -/
theorem spare_or_contribution?_iff (level : ListLevel) (kind : Kind) (found : Option Entry) :
    (spare level.formats found).or (contribution? level.formats kind) =
        found.or (level.offer? kind) ↔
      .atom .paragraphDefault ∉ level.tokens ∨
        match found with
        | some e => e.category ≠ .paragraphFormat ∨ contribution? level.formats kind = some e
        | none => contribution? level.formats kind = level.offer? kind := by
  by_cases hreset : .atom .paragraphDefault ∈ level.tokens
  · have hspare : spare level.formats found =
        found.filter (fun e => e.category ≠ .paragraphFormat) :=
      if_pos (by simpa using paragraphDefault_mem_formats.2 hreset)
    rw [hspare]
    cases found with
    | none => simp [hreset]
    | some e => by_cases hcategory : e.category = .paragraphFormat <;> simp [hreset, hcategory]
  · have hspare : spare level.formats found = found :=
      if_neg (by simpa using fun h => hreset (paragraphDefault_mem_formats.1 h))
    rw [hspare, contribution?_of_notMem hreset]
    simp [hreset]

end ListLevel

namespace Style

variable {style : Style} {kind : Kind} {doc : Document}

def listLevelIn? (doc : Document) (style : Style) : Option ListLevel :=
  style.listStyleId?.bind fun id => (doc.listStyles.get? id).bind (·.level? style.listLevel)

theorem filter_kind_eq_toList (h : style.Unique) (kind : Kind) :
    style.entries.filter (fun e => e.kind = kind) = (style.find? kind).toList := by
  have hfind : style.find? kind = (style.entries.filter (fun e => e.kind = kind)).getLast? := by
    rw [find?, ← List.head?_filter, List.filter_reverse, List.head?_reverse]
  have hkinds : ∀ e ∈ style.entries.filter (fun e => e.kind = kind), e.kind = kind := by
    simp
  have hunique : ((style.entries.filter (fun e => e.kind = kind)).map Entry.kind).Nodup :=
    unique_filter h _
  rw [hfind]
  generalize style.entries.filter (fun e => e.kind = kind) = found at hkinds hunique
  rcases found with _ | ⟨e, _ | ⟨e', found⟩⟩
  · rfl
  · rfl
  · have hne : e.kind ≠ e'.kind := by
      intro hkind
      exact (List.nodup_cons.1 hunique).1 (hkind ▸ List.mem_cons_self)
    exact absurd ((hkinds e (by simp)).trans (hkinds e' (by simp)).symm) hne

theorem filter_kind_eq_toList_iff (h : style.Unique) {found : Option Entry} :
    style.entries.filter (fun e => e.kind = kind) = found.toList ↔ style.find? kind = found := by
  rw [filter_kind_eq_toList h]
  cases style.find? kind <;> cases found <;> simp

theorem findMap?_eq_bind {α : Type} {f : Entry → Option α}
    (h : ∀ e, (f e).isSome = true ↔ e.kind = kind) (style : Style) :
    style.findMap? f = (style.find? kind).bind f := by
  unfold findMap? find?
  induction style.entries.reverse with
  | nil => rfl
  | cons e entries ih =>
    rw [List.findSome?_cons, List.find?_cons]
    by_cases hkind : e.kind = kind
    · obtain ⟨a, ha⟩ := Option.isSome_iff_exists.1 ((h e).2 hkind)
      simp [ha, hkind]
    · have hnone : f e = none := by
        rw [← Option.isNone_iff_eq_none, ← Option.isSome_eq_false_iff, ← Bool.not_eq_true, h]
        exact hkind
      simp [hnone, hkind, ih]

theorem listStyleId?_eq_bind (style : Style) :
    style.listStyleId? = (style.find? .listStyleId).bind
      fun | .atom (.listStyleId id) => some id | _ => none := by
  refine findMap?_eq_bind ?_ style
  rintro ((a | contents) | _ | _ | _ | _)
  · cases a <;> simp [Entry.kind, Token.kind, Atom.kind]
  all_goals simp [Entry.kind, Token.kind]

theorem listStyleId?_eq_some_iff {id : Int32} :
    style.listStyleId? = some id ↔ style.find? .listStyleId = some (.atom (.listStyleId id)) := by
  rw [listStyleId?_eq_bind]
  constructor
  · intro h
    obtain ⟨e, hfind, hid⟩ := Option.bind_eq_some_iff.1 h
    obtain ⟨id', rfl⟩ := exists_id_of_find? hfind
    rw [hfind, Option.some.inj hid]
  · intro h
    rw [h]
    rfl

theorem levelOf_find? (style : Style) :
    levelOf (style.find? .listLevelNumber) = style.listLevel := by
  have hbind : ∀ f : Entry → Option UInt64,
      (∀ e, (f e).isSome = true ↔ e.kind = .listLevelNumber) →
        style.findMap? f = (style.find? .listLevelNumber).bind f :=
    fun f h => findMap?_eq_bind h style
  unfold listLevel
  rw [hbind]
  · cases style.find? .listLevelNumber with
    | none => rfl
    | some e =>
      unfold levelOf
      split
      · rename_i heq
        cases heq
        rfl
      · rename_i hother
        dsimp only [Option.bind_some]
        split
        · exact absurd rfl (hother _)
        · rfl
  · rintro ((a | contents) | _ | _ | _ | _)
    · cases a <;> simp [Entry.kind, Token.kind, Atom.kind]
    all_goals simp [Entry.kind, Token.kind]

theorem formats_referenceTo {id : Int32}
    (hid : style.find? .listStyleId = some (.atom (.listStyleId id))) :
    (style.referenceTo id).formats doc = (style.listLevelIn? doc).elim [] ListLevel.formats := by
  rw [ListReference.formats, referenceTo, levelOf_find?, listLevelIn?,
    listStyleId?_eq_some_iff.2 hid]
  rfl

theorem find?_resolveList_of_defined (h : style.WellFormed) {id : Int32} {definition : ListStyle}
    (hid : style.find? .listStyleId = some (.atom (.listStyleId id)))
    (hdefinition : doc.listStyles.get? id = some definition) (kind : Kind) :
    (style.resolveList doc).find? kind =
      if kind = .listStyleId then style.find? .listStyleId
      else if kind = .listLevelNumber then some (.atom (.listLevelNumber style.listLevel))
      else (ListLevel.spare ((style.referenceTo id).formats doc) (style.find? kind)).or
        (ListLevel.contribution? ((style.referenceTo id).formats doc) kind) := by
  have hbase : style.unreferred.WellFormed := (h.filter _).filter _
  rw [resolveList_of_defined h hid hdefinition, refer, find?_addAll_reference, hid,
    find?_addNew hbase,
    ListLevel.foldl_merge kind (fun _ he => ListReference.category_of_mem_formats he)]
  by_cases hk : kind = .listStyleId
  · subst hk
    rfl
  by_cases hk' : kind = .listLevelNumber
  · subst hk'
    simp [referenceTo, levelOf_find?]
  · simp only [unreferred, find?_erase, hk, hk', if_false]

theorem find?_resolveList_of_undefined (h : style.WellFormed)
    (hundefined : style.listStyleId?.bind doc.listStyles.get? = none) (kind : Kind) :
    (style.resolveList doc).find? kind = style.find? kind := by
  cases hid : style.find? .listStyleId with
  | none => rw [resolveList_of_find?_eq_none hid]
  | some e =>
    obtain ⟨id, rfl⟩ := exists_id_of_find? hid
    have hdefinition : doc.listStyles.get? id = none := by
      rw [listStyleId?_eq_some_iff.2 hid] at hundefined
      exact hundefined
    rw [resolveList_of_undefined h hid hdefinition, find?_add rfl, find?_erase]
    by_cases hk : kind = .listStyleId
    · subst hk
      exact hid.symm
    · have hne : (.atom (.listStyleId id) : Entry).kind ≠ kind := Ne.symm hk
      rw [if_neg hne, if_neg hk]

theorem find?_resolveList_of_listLevelIn?_eq_none (h : style.WellFormed)
    (hlevel : style.listLevelIn? doc = none) (kind : Kind) :
    (kind ≠ .listLevelNumber → (style.resolveList doc).find? kind = style.find? kind) ∧
      (style.resolveList doc).listLevel = style.listLevel := by
  rw [← levelOf_find?, ← levelOf_find?]
  cases hundefined : style.listStyleId?.bind doc.listStyles.get? with
  | none =>
    rw [find?_resolveList_of_undefined h hundefined, find?_resolveList_of_undefined h hundefined]
    exact ⟨fun _ => rfl, rfl⟩
  | some definition =>
    obtain ⟨id, hid, hdefinition⟩ := Option.bind_eq_some_iff.1 hundefined
    have hfind := listStyleId?_eq_some_iff.1 hid
    have hformats : (style.referenceTo id).formats doc = [] := by
      rw [formats_referenceTo hfind, hlevel]
      rfl
    have hresolved := find?_resolveList_of_defined h hfind hdefinition
    constructor
    · intro hkind
      rw [hresolved, hformats]
      by_cases hk : kind = .listStyleId
      · simp [hk]
      · simp [hk, hkind, ListLevel.spare, ListLevel.contribution?]
    · rw [hresolved, levelOf_find? style]
      rfl

/-- Of the kinds that the style has no entry of, the level adds its first entry, and all else stays,
exactly if no reset of the level takes the entry of the style away or comes after its own. Without
a level nothing is merged. -/
theorem filter_kind_resolveList_iff (h : style.Reachable) (doc : Document) :
    (∀ level, style.listLevelIn? doc = some level → ∀ kind,
      ((style.resolveList doc).entries.filter (fun e => e.kind = kind) =
          (if kind = .listLevelNumber then some (.atom (.listLevelNumber style.listLevel))
            else (style.find? kind).or (level.offer? kind)).toList ↔
        kind = .listStyleId ∨ kind = .listLevelNumber ∨
          .atom .paragraphDefault ∉ level.tokens ∨
          match style.find? kind with
          | some e => e.category ≠ .paragraphFormat ∨
              ListLevel.contribution? level.formats kind = some e
          | none => ListLevel.contribution? level.formats kind = level.offer? kind)) ∧
    (style.listLevelIn? doc = none →
      (∀ kind, kind ≠ .listLevelNumber →
        (style.resolveList doc).entries.filter (fun e => e.kind = kind) =
          style.entries.filter (fun e => e.kind = kind)) ∧
      (style.resolveList doc).listLevel = style.listLevel) ∧
    (style.listStyleId?.bind doc.listStyles.get? = none → ∀ kind,
      (style.resolveList doc).entries.filter (fun e => e.kind = kind) =
        style.entries.filter (fun e => e.kind = kind)) := by
  have hstyle := h.wellFormed
  have hresolved := hstyle.resolveList doc
  refine ⟨fun level hlevel kind => ?_, fun hlevel => ?_, fun hundefined kind => ?_⟩
  · obtain ⟨id, hid, hdefined⟩ := Option.bind_eq_some_iff.1 hlevel
    obtain ⟨definition, hdefinition, -⟩ := Option.bind_eq_some_iff.1 hdefined
    have hfind := listStyleId?_eq_some_iff.1 hid
    have hformats : (style.referenceTo id).formats doc = level.formats := by
      rw [formats_referenceTo hfind, hlevel]
      rfl
    rw [filter_kind_eq_toList_iff hresolved.unique,
      find?_resolveList_of_defined hstyle hfind hdefinition, hformats]
    by_cases hk : kind = .listStyleId
    · simp [hk, hfind]
    by_cases hk' : kind = .listLevelNumber
    · simp [hk']
    · simp only [hk, hk', if_false, false_or]
      exact ListLevel.spare_or_contribution?_iff level kind (style.find? kind)
  · have hfind := find?_resolveList_of_listLevelIn?_eq_none hstyle hlevel
    refine ⟨fun kind hkind => ?_, (hfind .listLevelNumber).2⟩
    rw [filter_kind_eq_toList hresolved.unique, filter_kind_eq_toList hstyle.unique,
      (hfind kind).1 hkind]
  · rw [filter_kind_eq_toList hresolved.unique, filter_kind_eq_toList hstyle.unique,
      find?_resolveList_of_undefined hstyle hundefined]

end Style

namespace Document

open Style

def repetitiveLevel : Document where
  listStyles := ⟨[(1, ⟨[{}, ⟨[.atom (.listStyleId 7), .atom (.spaceAfter 20), .atom .inTable,
    .atom (.spaceBefore 10), .atom (.leftIndent 720), .atom (.bold true),
    .atom (.spaceBefore 30)]⟩]⟩)]⟩

theorem filter_kind_resolveList_repetitiveLevel :
    let style := ofList [.atom (.spaceAfter 60), .atom (.listLevelNumber 1),
      .atom (.italic true), .atom (.listStyleId 1)]
    style.Reachable ∧
      style.resolveList repetitiveLevel = ⟨[.atom (.spaceAfter 60), .atom (.italic true),
        .atom .inTable, .atom (.spaceBefore 10), .atom (.listStyleId 1),
        .atom (.listLevelNumber 1)]⟩ ∧
      ∃ level, style.listLevelIn? repetitiveLevel = some level ∧ ∀ kind,
        (style.resolveList repetitiveLevel).entries.filter (fun e => e.kind = kind) =
          (if kind = .listLevelNumber then some (.atom (.listLevelNumber 1))
            else (style.find? kind).or (level.offer? kind)).toList := by
  intro style
  have hstyle : style.Reachable := reachable_ofList _
  obtain ⟨hmerged, -, -⟩ := filter_kind_resolveList_iff hstyle repetitiveLevel
  refine ⟨hstyle, by decide, _, rfl, fun kind => (hmerged _ rfl kind).2 ?_⟩
  exact .inr (.inr (.inl (by decide)))

def resettingLevel : Document where
  listStyles := ⟨[(1, ⟨[⟨[.atom .paragraphDefault]⟩]⟩)]⟩

theorem find?_resolveList_resettingLevel :
    let style := ofList [.atom (.alignment .center), .atom (.listStyleId 1)]
    style.Reachable ∧
      style.listLevelIn? resettingLevel = some ⟨[.atom .paragraphDefault]⟩ ∧
      style.find? .alignment = some (.atom (.alignment .center)) ∧
      (style.resolveList resettingLevel).find? .alignment = none :=
  ⟨reachable_ofList _, by decide, by decide, by decide⟩

end Document

end RichText
