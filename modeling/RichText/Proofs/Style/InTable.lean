import RichText.Style.ListResolution
set_option autoImplicit false

namespace RichText

namespace Style

variable {style : Style} {e : Entry}

theorem isInTable_iff : style.isInTable = true ↔ .atom .inTable ∈ style.entries := by
  have hkind : ∀ e : Entry, e.kind = .inTable → e = .atom .inTable := by
    intro e h
    cases e with
    | token t =>
      cases t with
      | group contents => exact Kind.noConfusion h
      | atom a => cases a <;> first | rfl | exact Kind.noConfusion h
    | _ => exact Kind.noConfusion h
  rw [isInTable, contains, find?, List.find?_isSome]
  constructor
  · rintro ⟨e, he, h⟩
    rw [← hkind e (of_decide_eq_true h)]
    exact List.mem_reverse.1 he
  · intro h
    exact ⟨_, List.mem_reverse.2 h, rfl⟩

theorem isInTable_setInTable_false (style : Style) : (style.setInTable false).isInTable = false := by
  rw [← Bool.not_eq_true, isInTable_iff]
  simp [setInTable]

theorem mem_of_mem_add {new : Entry} (h : e ∈ (style.add new).entries) :
    e ∈ style.entries ∨ e = new := by
  unfold add at h
  split at h
  · obtain h | h := List.mem_append.1 h
    · exact .inl (List.mem_filter.1 h).1
    · exact .inr (List.mem_singleton.1 h)
  · exact .inl (List.mem_filter.1 h).1

theorem mem_of_mem_addAll {entries : List Entry} (h : e ∈ (style.addAll entries).entries) :
    e ∈ style.entries ∨ e ∈ entries := by
  induction entries generalizing style with
  | nil => exact .inl h
  | cons new entries ih =>
    rw [addAll, List.foldl_cons] at h
    obtain h | h := ih h
    · exact (mem_of_mem_add h).imp id (fun h => List.mem_cons.2 (.inl h))
    · exact .inr (List.mem_cons_of_mem _ h)

theorem mem_of_mem_addNew {entries : List Entry} {excluded : List Kind}
    (h : e ∈ (style.addNew entries excluded).entries) : e ∈ style.entries ∨ e ∈ entries := by
  unfold addNew at h
  induction entries generalizing style with
  | nil => exact .inl h
  | cons new entries ih =>
    rw [List.foldl_cons] at h
    obtain h | h := ih h
    · split at h
      · exact .inl h
      · exact (mem_of_mem_add h).imp id (fun h => List.mem_cons.2 (.inl h))
    · exact .inr (List.mem_cons_of_mem _ h)

theorem mem_of_mem_removeLast {kind : Kind} (h : e ∈ (style.removeLast kind).2.entries) :
    e ∈ style.entries := by
  have hmem : e ∈ style.entries.reverse.eraseP (fun e => e.kind = kind) := List.mem_reverse.1 h
  exact List.mem_reverse.1 (List.mem_of_mem_eraseP hmem)

end Style

namespace Document

/-- No list level puts what refers to it into a table. -/
def LevelsOutsideTables (doc : Document) : Prop :=
  ∀ p ∈ doc.listStyles.entries, ∀ level ∈ p.2.levels, .atom .inTable ∉ level.tokens

instance (doc : Document) : Decidable doc.LevelsOutsideTables :=
  inferInstanceAs (Decidable (∀ p ∈ doc.listStyles.entries, ∀ level ∈ p.2.levels,
    .atom .inTable ∉ level.tokens))

end Document

namespace Style

theorem isInTable_of_mergeLevel {doc : Document} (hlevels : doc.LevelsOutsideTables) {id : Int32}
    {definition : ListStyle} (hdefinition : doc.listStyles.get? id = some definition)
    {style : Style} {level : UInt64}
    (h : .atom .inTable ∈ (style.mergeLevel definition level).entries) :
    .atom .inTable ∈ style.entries := by
  unfold mergeLevel at h
  split at h
  · rename_i found hfound
    obtain h | h := mem_of_mem_addNew h
    · exact h
    · obtain ⟨p, hp, rfl⟩ : ∃ p, doc.listStyles.entries.find? (fun e => e.1 = id) = some p ∧
          p.2 = definition := by simpa [ListStyles.get?] using hdefinition
      have hlevel : found ∈ p.2.levels := List.mem_of_getElem? hfound
      obtain ⟨t, ht, heq⟩ := List.mem_map.1 h
      obtain rfl := Entry.token.inj heq
      exact absurd (List.mem_filter.1 ht).1
        (hlevels p (List.mem_of_find?_eq_some hp) found hlevel)
  · exact h

/-- Resolving puts no style into a table unless some list level does. -/
theorem isInTable_of_resolveList {doc : Document} (hlevels : doc.LevelsOutsideTables)
    {style : Style} (h : (style.resolveList doc).isInTable = true) : style.isInTable = true := by
  rw [isInTable_iff] at h ⊢
  unfold resolveList at h
  have hrest : ∀ e ∈ (style.removeLast .listStyleId).2.entries, e ∈ style.entries :=
    fun e he => mem_of_mem_removeLast he
  have hfound : ∀ e, (style.removeLast .listStyleId).1 = some e → e ∈ style.entries :=
    fun e he => List.mem_reverse.1 (List.mem_of_find?_eq_some he)
  generalize style.removeLast .listStyleId = removed at h hrest hfound
  obtain ⟨e?, rest⟩ := removed
  split at h
  · exact h
  · rename_i id rest' heq
    obtain ⟨-, rfl⟩ := Prod.mk.inj heq
    split at h
    · obtain h | h := mem_of_mem_add h
      · exact hrest _ h
      · simp at h
    · rename_i definition hdefinition
      obtain h | h := mem_of_mem_addAll h
      · have hmerged := isInTable_of_mergeLevel hlevels hdefinition h
        exact hrest _ (mem_of_mem_removeLast hmerged)
      · simp at h
  · rename_i e rest' _ heq
    obtain ⟨rfl, rfl⟩ := Prod.mk.inj heq
    obtain h | h := mem_of_mem_add h
    · exact hrest _ h
    · rw [h]
      exact hfound _ rfl

end Style

end RichText
