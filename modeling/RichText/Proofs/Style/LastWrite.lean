import RichText.Proofs.Style.Reachable
set_option autoImplicit false

/-!
The last write wins. What a style that was built up entry by entry holds of a kind is the last
entry of that kind that no later reset clears, and its entries stand in the order in which their
kinds were last written. Main statement: `lastWrites_ofList`.
-/
namespace RichText

def Kind.category : Kind → Category
  | .text => .text
  | .group => .group
  | .destination => .destination
  | .ignoreUnrecognized | .unrecognized | .htmlRtf | .paragraphNumbering => .none
  | .binary | .pictureFormat | .pictureWidth | .pictureHeight | .pictureGoalWidth
  | .pictureGoalHeight => .picture
  | .defaultFontRef | .defaultTabWidth => .document
  | .headerDistance | .footerDistance => .headerTag
  | .breakMark => .breakTag
  | .plainText | .bold | .italic | .underline | .strike | .hidden | .fontRef | .fontSize
  | .foregroundColor | .backgroundColor | .script => .characterFormat
  | .paragraphDefault | .inTable | .alignment | .leftIndent | .rightIndent | .firstLineIndent
  | .spaceBefore | .spaceAfter | .listStyleId | .listLevelNumber | .numberingType =>
    .paragraphFormat
  | .borderPosition side | .border side => side.category
  | .borderStyle | .borderWidth | .borderColor | .borderSpacing => .borderProperty
  | .cellVerticalAlign | .cellBackground | .cellMerge | .rightCellBoundary | .cell => .cellFormat
  | .rowDefaults | .rowHeight | .rowLeftOffset => .rowFormat
  | .hyperlink | .bookmark => .format

namespace Entry

def IsReset (e : Entry) : Prop :=
  e = .atom .paragraphDefault ∨ e = .atom .plainText ∨ e = .atom .rowDefaults

/-- Each reset has formatting of its own to clear. -/
def IsClearedBy (e reset : Entry) : Prop :=
  reset = .atom .paragraphDefault ∧ e.category = .paragraphFormat ∨
    reset = .atom .plainText ∧ e.category = .characterFormat ∨
    reset = .atom .rowDefaults ∧ (e.category = .rowFormat ∨ e.category = .cellFormat)

instance (e : Entry) : Decidable e.IsReset :=
  inferInstanceAs (Decidable (_ ∨ _ ∨ _))

instance (e reset : Entry) : Decidable (e.IsClearedBy reset) :=
  inferInstanceAs (Decidable (_ ∧ _ ∨ _ ∧ _ ∨ _ ∧ (_ ∨ _)))

theorem isReset_iff {e : Entry} : e.IsReset ↔ e.clears ≠ [] := by
  unfold IsReset clears
  split <;> simp_all

theorem isClearedBy_iff {e reset : Entry} : e.IsClearedBy reset ↔ e.category ∈ reset.clears := by
  unfold IsClearedBy clears
  split <;> simp_all

theorem category_eq {e : Entry} (h : e.kind ≠ .destination) : e.category = e.kind.category := by
  cases e with
  | token t =>
    cases t with
    | group contents => rfl
    | atom a =>
      cases a with
      | destination d => exact absurd rfl h
      | _ => rfl
  | _ => rfl

theorem contains_of_kind_eq_destination {e : Entry} (h : e.kind = .destination) :
    e.category.contains .destination = true := by
  cases e with
  | token t =>
    cases t with
    | group contents => exact Kind.noConfusion h
    | atom a =>
      cases a with
      | destination d =>
        cases d with
        | header | footer | htmlTag => decide
        | _ => exact Category.contains_self .destination
      | _ => exact Kind.noConfusion h
  | _ => exact Kind.noConfusion h

theorem IsClearedBy.kind_ne_destination {e reset : Entry} (h : e.IsClearedBy reset) :
    e.kind ≠ .destination := by
  intro hkind
  have hcontains := contains_of_kind_eq_destination hkind
  obtain ⟨-, hcategory⟩ | ⟨-, hcategory⟩ | ⟨-, hcategory | hcategory⟩ := h
  all_goals
    rw [hcategory] at hcontains
    exact absurd hcontains (by decide)

theorem IsClearedBy.of_kind_eq {e e' reset : Entry} (hkind : e.kind = e'.kind)
    (h : e.IsClearedBy reset) : e'.IsClearedBy reset := by
  have hne := h.kind_ne_destination
  have hcategory : e'.category = e.category := by
    rw [category_eq hne, category_eq (hkind ▸ hne), hkind]
  rw [isClearedBy_iff] at h ⊢
  rwa [hcategory]

end Entry

namespace Style

variable {entries : List Entry} {e : Entry} {kind : Kind}

def uncleared : List Entry → List Entry
  | [] => []
  | e :: later =>
    if ¬e.IsReset ∧ ∀ reset ∈ later, ¬e.IsClearedBy reset then e :: uncleared later
    else uncleared later

/-- The last write of a kind after which no reset clears it. -/
def lastWrite? (entries : List Entry) (kind : Kind) : Option Entry :=
  ((uncleared entries).filter (fun e => e.kind = kind)).getLast?

/-- How many entries came after the last one of a kind. -/
def age (entries : List Entry) (kind : Kind) : Nat :=
  entries.reverse.findIdx (fun e => e.kind = kind)

theorem uncleared_concat (entries : List Entry) (e : Entry) :
    uncleared (entries ++ [e]) =
      (uncleared entries).filter (fun e' => ¬e'.IsClearedBy e) ++
        if e.IsReset then [] else [e] := by
  induction entries with
  | nil => by_cases hreset : e.IsReset <;> simp [uncleared, hreset]
  | cons first entries ih =>
    rw [List.cons_append, uncleared, uncleared, ih]
    by_cases hkept : ¬first.IsReset ∧ ∀ reset ∈ entries, ¬first.IsClearedBy reset
    · have hlater : (¬first.IsReset ∧ ∀ reset ∈ entries ++ [e], ¬first.IsClearedBy reset) ↔
          ¬first.IsClearedBy e := by
        rw [List.forall_mem_append, List.forall_mem_singleton]
        tauto
      rw [if_pos hkept]
      by_cases hclears : first.IsClearedBy e
      · rw [if_neg (fun h => hlater.1 h hclears)]
        simp [hclears]
      · rw [if_pos (hlater.2 hclears)]
        simp [hclears]
    · have hlost : ¬(¬first.IsReset ∧ ∀ reset ∈ entries ++ [e], ¬first.IsClearedBy reset) := by
        rintro ⟨hreset, hlater⟩
        exact hkept ⟨hreset, fun reset h => hlater reset (List.mem_append_left _ h)⟩
      rw [if_neg hkept, if_neg hlost]

theorem age_concat (entries : List Entry) (e : Entry) (kind : Kind) :
    age (entries ++ [e]) kind = if e.kind = kind then 0 else age entries kind + 1 := by
  by_cases hkind : e.kind = kind <;> simp [age, List.findIdx_cons, hkind]

/-! One more entry -/

theorem entries_add_of_isReset (style : Style) (h : e.IsReset) :
    (style.add e).entries = style.entries.filter (fun e' => ¬e'.IsClearedBy e) := by
  have hclears := Entry.isReset_iff.1 h
  unfold add
  split
  · rename_i hnil
    exact absurd hnil hclears
  · simp [clear, Entry.isClearedBy_iff]

theorem entries_add_of_not_isReset (style : Style) (h : ¬e.IsReset) :
    (style.add e).entries = style.entries.filter (fun e' => e'.kind ≠ e.kind) ++ [e] := by
  have hclears : e.clears = [] := by simpa [Entry.isReset_iff] using h
  unfold add
  rw [hclears]
  rfl

theorem getLast?_filter_not_isClearedBy (entries : List Entry) (kind : Kind) (reset : Entry) :
    ((entries.filter (fun e => e.kind = kind)).filter (fun e => ¬e.IsClearedBy reset)).getLast? =
      (entries.filter (fun e => e.kind = kind)).getLast?.filter
        (fun e => ¬e.IsClearedBy reset) := by
  have hkind : ∀ e ∈ entries.filter (fun e => e.kind = kind), e.kind = kind := by
    simp
  generalize entries.filter (fun e => e.kind = kind) = writes at hkind
  cases hlast : writes.getLast? with
  | none => simp [List.getLast?_eq_none_iff.1 hlast]
  | some last =>
    have hmem : last ∈ writes := List.mem_of_getLast? hlast
    by_cases hclears : last.IsClearedBy reset
    · have hall : ∀ e ∈ writes, e.IsClearedBy reset := fun e he =>
        hclears.of_kind_eq ((hkind last hmem).trans (hkind e he).symm)
      have hnil : writes.filter (fun e => ¬e.IsClearedBy reset) = [] :=
        List.filter_eq_nil_iff.2 (by simpa using hall)
      rw [hnil]
      simp [Option.filter, hclears]
    · have hnone : ∀ e ∈ writes, ¬e.IsClearedBy reset := fun e he h =>
        hclears (h.of_kind_eq ((hkind e he).trans (hkind last hmem).symm))
      have hself : writes.filter (fun e => ¬e.IsClearedBy reset) = writes :=
        List.filter_eq_self.2 (by simpa using hnone)
      rw [hself, hlast]
      simp [Option.filter, hclears]

/-! All entries -/

theorem filter_kind_ofList (entries : List Entry) (kind : Kind) :
    (ofList entries).entries.filter (fun e => e.kind = kind) =
      (lastWrite? entries kind).toList := by
  unfold lastWrite?
  induction entries using List.reverseRecOn with
  | nil => rfl
  | append_singleton entries e ih =>
    rw [ofList_concat, uncleared_concat]
    by_cases hreset : e.IsReset
    · rw [entries_add_of_isReset _ hreset, if_pos hreset, List.append_nil, List.filter_comm, ih,
        List.filter_comm, getLast?_filter_not_isClearedBy, Option.toList_filter]
    · have hnone : ∀ e' : Entry, ¬e'.IsClearedBy e := by
        intro e' h
        rw [Entry.isClearedBy_iff] at h
        exact hreset (Entry.isReset_iff.2 (List.ne_nil_of_mem h))
      rw [entries_add_of_not_isReset _ hreset, if_neg hreset]
      by_cases hkind : e.kind = kind
      · subst hkind
        simp [hnone, List.filter_filter]
      · have hothers : ∀ e' : Entry, (decide (e'.kind = kind) && decide (e'.kind ≠ e.kind)) =
            decide (e'.kind = kind) := by
          intro e'
          by_cases he' : e'.kind = kind
          · simp [he', Ne.symm hkind]
          · simp [he']
        simp only [List.filter_append, List.filter_filter, hothers, ih, hnone]
        simp [hkind]

theorem pairwise_age_ofList (entries : List Entry) :
    (ofList entries).entries.Pairwise (fun e e' => age entries e'.kind < age entries e.kind) := by
  induction entries using List.reverseRecOn with
  | nil => exact List.Pairwise.nil
  | append_singleton entries e ih =>
    have holder : ∀ p : Entry → Bool,
        (∀ e' ∈ (ofList entries).entries.filter p, e'.kind ≠ e.kind) →
        ((ofList entries).entries.filter p).Pairwise
          (fun e₁ e₂ => age (entries ++ [e]) e₂.kind < age (entries ++ [e]) e₁.kind) := by
      intro p hkinds
      refine (ih.filter p).imp_of_mem (fun {e₁ e₂} h₁ h₂ hlt => ?_)
      rw [age_concat, age_concat, if_neg (hkinds e₁ h₁).symm, if_neg (hkinds e₂ h₂).symm]
      exact Nat.add_lt_add_right hlt 1
    rw [ofList_concat]
    by_cases hreset : e.IsReset
    · rw [entries_add_of_isReset _ hreset]
      refine holder _ (fun e' he' hkind => ?_)
      have hclears := Entry.isReset_iff.1 hreset
      have hstored := (wellFormed_ofList entries).clears_eq_nil e' (List.mem_filter.1 he').1
      rw [Entry.eq_of_kind_eq hclears hkind] at hstored
      exact hclears hstored
    · have hkinds : ∀ e' ∈ (ofList entries).entries.filter (fun e' => e'.kind ≠ e.kind),
          e'.kind ≠ e.kind := by
        intro e' he'
        simpa using (List.mem_filter.1 he').2
      rw [entries_add_of_not_isReset _ hreset]
      refine List.pairwise_append.2 ⟨holder _ hkinds, List.pairwise_singleton _ _, ?_⟩
      intro e' he' last hlast
      rw [List.mem_singleton.1 hlast, age_concat, age_concat, if_pos rfl,
        if_neg (hkinds e' he').symm]
      exact Nat.succ_pos _

/-- A style holds of each kind the last write that no reset has cleared since, in the order of the
last writes. Whatever else is done to styles, they hold one entry of a kind and no reset. -/
theorem lastWrites_ofList (entries : List Entry) :
    (∀ kind, (ofList entries).entries.filter (fun e => e.kind = kind) =
      (lastWrite? entries kind).toList) ∧
    (ofList entries).entries.Pairwise (fun e e' => age entries e'.kind < age entries e.kind) ∧
    ∀ style, Reachable style ↔ style.Unique ∧ ∀ e ∈ style.entries, ¬e.IsReset := by
  refine ⟨filter_kind_ofList entries, pairwise_age_ofList entries, fun style => ?_⟩
  have hstored : ∀ e : Entry, ¬e.IsReset ↔ e.clears = [] := by
    intro e
    rw [Entry.isReset_iff, not_not]
  rw [reachable_iff_wellFormed]
  constructor
  · intro h
    exact ⟨h.unique, fun e he => (hstored e).2 (h.clears_eq_nil e he)⟩
  · rintro ⟨hunique, hresets⟩
    exact ⟨hunique, fun e he => (hstored e).1 (hresets e he)⟩

end Style

end RichText
