import RichText.Style.ListResolution
import RichText.Proofs.Style.Ledger
import Mathlib.Data.List.DropRight
set_option autoImplicit false

/-!
References to list levels one after another in one scope. What a level contributes stays in the
style, and a later reference takes it for formatting of the paragraph itself. Main statements:
`find?_resolveList_refer`, what is in effect once a reference is resolved, and
`find?_resolveList_twice_iff`, when an earlier reference leaves no trace.
-/
namespace RichText

namespace ListLevel

/-- What the resets among the formats of a level leave of an entry in effect. -/
def spare (formats : List Entry) (found : Option Entry) : Option Entry :=
  if formats.contains (.atom .paragraphDefault) then
    found.filter (fun e => e.category ≠ .paragraphFormat)
  else found

/-- What the formats of a level say of a kind: the first entry after the last reset. -/
def contribution? (formats : List Entry) (kind : Kind) : Option Entry :=
  (formats.rtakeWhile (· ≠ .atom .paragraphDefault)).find?
    (fun e => e.kind = kind && !withheld.contains kind)

variable {formats : List Entry} {kind : Kind} {found : Option Entry}

theorem category_of_mem_formats {level : ListLevel} {e : Entry} (h : e ∈ level.formats) :
    e.category = .paragraphFormat := by
  obtain ⟨t, ht, rfl⟩ := List.mem_map.1 h
  exact of_decide_eq_true (List.mem_filter.1 ht).2

theorem clears_eq_nil {e : Entry} (hcategory : e.category = .paragraphFormat)
    (hreset : e ≠ .atom .paragraphDefault) : e.clears = [] := by
  unfold Entry.clears
  split
  · exact absurd rfl hreset
  · exact absurd hcategory (by decide)
  · exact absurd hcategory (by decide)
  · rfl

theorem category_of_contribution? (h : ∀ e ∈ formats, e.category = .paragraphFormat) {e : Entry}
    (hcontribution : contribution? formats kind = some e) : e.category = .paragraphFormat :=
  h e ((List.rtakeWhile_suffix _ _).subset (List.mem_of_find?_eq_some hcontribution))

theorem filter_or_contribution? (kind : Kind) (h : ∀ e ∈ formats, e.category = .paragraphFormat)
    (found : Option Entry) :
    ((spare formats found).or (contribution? formats kind)).filter
        (fun e => e.category ≠ .paragraphFormat) =
      found.filter (fun e => e.category ≠ .paragraphFormat) := by
  have hnone : (contribution? formats kind).filter (fun e => e.category ≠ .paragraphFormat) =
      none := by
    cases hcontribution : contribution? formats kind with
    | none => rfl
    | some e => simp [category_of_contribution? h hcontribution]
  have hor : ∀ before : Option Entry,
      (before.or (contribution? formats kind)).filter (fun e => e.category ≠ .paragraphFormat) =
        before.filter (fun e => e.category ≠ .paragraphFormat) := by
    intro before
    cases before with
    | none => simpa using hnone
    | some e => rfl
  rw [hor]
  unfold spare
  split
  · rw [Option.filter_filter]
    simp
  · rfl

theorem foldl_merge (kind : Kind) (h : ∀ e ∈ formats, e.category = .paragraphFormat)
    (found : Option Entry) :
    formats.foldl (Entry.merge withheld kind) found =
      (spare formats found).or (contribution? formats kind) := by
  induction formats using List.reverseRecOn with
  | nil => simp [spare, contribution?]
  | append_singleton formats e ih =>
    have hformats : ∀ e ∈ formats, e.category = .paragraphFormat :=
      fun e he => h e (List.mem_append_left _ he)
    rw [List.foldl_append, List.foldl_cons, List.foldl_nil, ih hformats]
    by_cases hreset : e = .atom .paragraphDefault
    · subst hreset
      have hnone : contribution? (formats ++ [.atom .paragraphDefault]) kind = none := by
        simp [contribution?]
      have hspare : spare (formats ++ [.atom .paragraphDefault]) found =
          found.filter (fun e => e.category ≠ .paragraphFormat) := by
        simp [spare]
      rw [hnone, hspare, Option.or_none, ← filter_or_contribution? kind hformats]
      simp [Entry.merge, Entry.kind, Token.kind, Atom.kind, withheld, Entry.clears]
    · have hclears := clears_eq_nil (h e (by simp)) hreset
      have hspare : spare (formats ++ [e]) found = spare formats found := by
        simp [spare, Ne.symm hreset]
      have hcontribution : contribution? (formats ++ [e]) kind =
          (contribution? formats kind).or
            (if e.kind = kind ∧ kind ∉ withheld then some e else none) := by
        unfold contribution?
        rw [List.rtakeWhile_concat_pos _ _ _ (by simpa using hreset), List.find?_append]
        congr 1
        by_cases hkind : e.kind = kind <;> by_cases hwithheld : kind ∈ withheld <;>
          simp [hkind, hwithheld]
      rw [hspare, hcontribution, ← Option.or_assoc]
      by_cases hkind : e.kind = kind
      · by_cases hwithheld : kind ∈ withheld
        · simp [Entry.merge, hkind, hwithheld]
        · simp [Entry.merge, hkind, hwithheld, hclears]
      · simp [Entry.merge, hkind, hclears]

end ListLevel

structure ListReference where
  id : Int32
  level : UInt64
deriving DecidableEq

namespace ListReference

def formats (doc : Document) (r : ListReference) : List Entry :=
  ((doc.listStyles.get? r.id).bind (fun style => style.level? r.level)).elim [] ListLevel.formats

def resets (doc : Document) (r : ListReference) : Bool :=
  (r.formats doc).contains (.atom .paragraphDefault)

def contribution? (doc : Document) (r : ListReference) (kind : Kind) : Option Entry :=
  ListLevel.contribution? (r.formats doc) kind

/-- What the level leaves in effect of a kind, given what is in effect before. -/
def merged? (doc : Document) (r : ListReference) (kind : Kind) (found : Option Entry) :
    Option Entry :=
  (ListLevel.spare (r.formats doc) found).or (r.contribution? doc kind)

variable {doc : Document} {r r₁ r₂ : ListReference} {kind : Kind}

theorem category_of_mem_formats {e : Entry} (h : e ∈ r.formats doc) :
    e.category = .paragraphFormat := by
  unfold formats at h
  cases hlevel : (doc.listStyles.get? r.id).bind (fun style => style.level? r.level) with
  | none => simp [hlevel] at h
  | some level =>
    rw [hlevel] at h
    exact ListLevel.category_of_mem_formats h

/-- Merging one level before another makes no difference for a kind exactly if the second level
clears it, or the first neither clears nor adds anything that the second does not add as well. -/
theorem merged?_merged?_iff (found : Option Entry) :
    r₂.merged? doc kind (r₁.merged? doc kind found) = r₂.merged? doc kind found ↔
      r₂.resets doc = true ∨
        match found with
        | none => r₁.contribution? doc kind = none ∨
            r₁.contribution? doc kind = r₂.contribution? doc kind
        | some e => (r₁.resets doc = true → e.category ≠ .paragraphFormat) ∨
            (r₁.contribution? doc kind).or (r₂.contribution? doc kind) = some e := by
  cases hreset : r₂.resets doc with
  | true =>
    have hformats : ∀ e ∈ r₁.formats doc, e.category = .paragraphFormat :=
      fun _ he => category_of_mem_formats he
    have hfilter := ListLevel.filter_or_contribution? kind hformats found
    have hspare : ∀ before : Option Entry, ListLevel.spare (r₂.formats doc) before =
        before.filter (fun e => e.category ≠ .paragraphFormat) := by
      intro before
      exact if_pos hreset
    simp only [true_or, iff_true]
    unfold merged?
    rw [hspare, hspare, contribution?, hfilter]
  | false =>
    have hspare : ∀ before : Option Entry, ListLevel.spare (r₂.formats doc) before = before := by
      intro before
      exact if_neg (by rw [← resets, hreset]; exact Bool.false_ne_true)
    simp only [Bool.false_eq_true, false_or]
    unfold merged?
    rw [hspare, hspare]
    cases found with
    | none =>
      have hnone : ListLevel.spare (r₁.formats doc) none = none := by simp [ListLevel.spare]
      rw [hnone]
      cases r₁.contribution? doc kind <;> simp [eq_comm]
    | some e =>
      cases hreset₁ : r₁.resets doc with
      | true =>
        have hspare₁ : ListLevel.spare (r₁.formats doc) (some e) =
            (some e).filter (fun e => e.category ≠ .paragraphFormat) := if_pos hreset₁
        rw [hspare₁]
        by_cases hcategory : e.category = .paragraphFormat <;> simp [hcategory]
      | false =>
        have hspare₁ : ListLevel.spare (r₁.formats doc) (some e) = some e :=
          if_neg (by rw [← resets, hreset₁]; exact Bool.false_ne_true)
        simp [hspare₁]

end ListReference

namespace Style

variable {style : Style} {doc : Document} {r : ListReference} {kind : Kind}

def refer (style : Style) (r : ListReference) : Style :=
  style.addAll [.atom (.listStyleId r.id), .atom (.listLevelNumber r.level)]

theorem find?_addAll_reference (style : Style) (r : ListReference) (kind : Kind) :
    (style.addAll [.atom (.listStyleId r.id), .atom (.listLevelNumber r.level)]).find? kind =
      if kind = .listStyleId then some (.atom (.listStyleId r.id))
      else if kind = .listLevelNumber then some (.atom (.listLevelNumber r.level))
      else style.find? kind := by
  have hlevel : (.atom (.listLevelNumber r.level) : Entry).clears = [] := rfl
  have hid : (.atom (.listStyleId r.id) : Entry).clears = [] := rfl
  rw [addAll, List.foldl_cons, List.foldl_cons, List.foldl_nil, find?_add hlevel, find?_add hid]
  by_cases hk : kind = .listStyleId
  · subst hk
    rfl
  by_cases hk' : kind = .listLevelNumber
  · subst hk'
    rfl
  · simp [Entry.kind, Token.kind, Atom.kind, hk, hk', Ne.symm hk, Ne.symm hk']

theorem mergeLevel_eq (style : Style) {definition : ListStyle}
    (h : doc.listStyles.get? r.id = some definition) :
    style.mergeLevel definition r.level = style.addNew (r.formats doc) ListLevel.withheld := by
  unfold mergeLevel ListReference.formats
  rw [h, Option.bind_some]
  cases definition.level? r.level <;> rfl

/-- Resolving the reference that was added last merges its level into what was there before. -/
theorem find?_resolveList_refer (h : style.WellFormed) (doc : Document) (r : ListReference)
    (kind : Kind) :
    ((style.refer r).resolveList doc).find? kind =
      if kind = .listStyleId then some (.atom (.listStyleId r.id))
      else if kind = .listLevelNumber then some (.atom (.listLevelNumber r.level))
      else r.merged? doc kind (style.find? kind) := by
  have hrefer : (style.refer r).WellFormed := h.addAll _
  have hid : (style.refer r).find? .listStyleId = some (.atom (.listStyleId r.id)) :=
    find?_addAll_reference style r .listStyleId
  have hrest : ((style.refer r).erase .listStyleId).WellFormed := hrefer.filter _
  have hlevel : ((style.refer r).erase .listStyleId).find? .listLevelNumber =
      some (.atom (.listLevelNumber r.level)) := by
    rw [find?_erase]
    exact find?_addAll_reference style r .listLevelNumber
  unfold resolveList
  rw [removeLast_eq hrefer.unique, hid]
  dsimp only
  cases hdefinition : doc.listStyles.get? r.id with
  | none =>
    have hformats : r.formats doc = [] := by simp [ListReference.formats, hdefinition]
    have hmerged : ∀ found, r.merged? doc kind found = found := by
      simp [ListReference.merged?, ListReference.contribution?, hformats, ListLevel.spare,
        ListLevel.contribution?]
    dsimp only
    rw [find?_add rfl, find?_erase, refer, find?_addAll_reference, hmerged]
    by_cases hk : kind = .listStyleId
    · subst hk
      rfl
    · simp [Entry.kind, Token.kind, Atom.kind, hk, Ne.symm hk]
  | some definition =>
    dsimp only
    rw [removeLast_eq hrest.unique, hlevel]
    dsimp only [levelOf]
    have hbase : (((style.refer r).erase .listStyleId).erase .listLevelNumber).WellFormed :=
      hrest.filter _
    rw [find?_addAll_reference, mergeLevel_eq _ hdefinition, find?_addNew hbase,
      ListLevel.foldl_merge kind (fun _ he => ListReference.category_of_mem_formats he),
      find?_erase, find?_erase, refer, find?_addAll_reference]
    by_cases hk : kind = .listStyleId
    · simp [hk]
    by_cases hk' : kind = .listLevelNumber
    · simp [hk']
    · simp [hk, hk', ListReference.merged?, ListReference.contribution?]

theorem WellFormed.resolveList (h : style.WellFormed) (doc : Document) :
    (style.resolveList doc).WellFormed := by
  have hrest : (style.erase .listStyleId).WellFormed := h.filter _
  unfold Style.resolveList
  rw [removeLast_eq h.unique]
  split
  · exact h
  · rename_i heq
    obtain ⟨_, rfl⟩ := Prod.mk.inj heq
    split
    · exact hrest.add _
    · have hbase : ((style.erase .listStyleId).erase .listLevelNumber).WellFormed :=
        hrest.filter _
      rw [removeLast_eq hrest.unique]
      refine WellFormed.addAll ?_ _
      unfold mergeLevel
      split
      · exact hbase.addNew _ _
      · exact hbase
  · rename_i heq
    obtain ⟨_, rfl⟩ := Prod.mk.inj heq
    exact hrest.add _

/-- However a style was built up, a list reference that was resolved before leaves no trace in
what another one resolves to exactly if, for each kind, the level of the second clears it, or that
of the first neither clears nor adds an entry that the second does not add as well. -/
theorem find?_resolveList_twice_iff (doc : Document) (entries : List Entry)
    (r₁ r₂ : ListReference) :
    let style := ofList entries
    (∀ kind, ((((style.refer r₁).resolveList doc).refer r₂).resolveList doc).find? kind =
        ((style.refer r₂).resolveList doc).find? kind) ↔
      ∀ kind, kind ≠ .listStyleId → kind ≠ .listLevelNumber →
        r₂.resets doc = true ∨
          match style.find? kind with
          | none => r₁.contribution? doc kind = none ∨
              r₁.contribution? doc kind = r₂.contribution? doc kind
          | some e => (r₁.resets doc = true → e.category ≠ .paragraphFormat) ∨
              (r₁.contribution? doc kind).or (r₂.contribution? doc kind) = some e := by
  intro style
  have hstyle : style.WellFormed := wellFormed_ofList entries
  have hfirst : ((style.refer r₁).resolveList doc).WellFormed :=
    WellFormed.resolveList (hstyle.addAll _) doc
  refine forall_congr' (fun kind => ?_)
  rw [find?_resolveList_refer hfirst, find?_resolveList_refer hstyle,
    find?_resolveList_refer hstyle]
  by_cases hk : kind = .listStyleId
  · simp [hk]
  by_cases hk' : kind = .listLevelNumber
  · simp [hk']
  · simp only [hk, hk', if_false, ne_eq, not_false_eq_true, forall_const]
    exact ListReference.merged?_merged?_iff (style.find? kind)

end Style

namespace Document

def twoLists : Document where
  listStyles := ⟨[(1, ⟨[⟨[.atom (.numberingType .bullet)]⟩]⟩),
    (2, ⟨[⟨[.atom (.numberingType .decimal)]⟩]⟩)]⟩

theorem find?_resolveList_twoLists :
    let once := (({} : Style).refer ⟨2, 0⟩).resolveList twoLists
    let twice := ((({} : Style).refer ⟨1, 0⟩).resolveList twoLists |>.refer ⟨2, 0⟩).resolveList
      twoLists
    once.find? .numberingType = some (.atom (.numberingType .decimal)) ∧
      twice.find? .numberingType = some (.atom (.numberingType .bullet)) ∧
      twice.find? .numberingType ≠ once.find? .numberingType := by
  decide

end Document

end RichText
