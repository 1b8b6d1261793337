import RichText.Style
import Mathlib.Data.List.Nodup
import Mathlib.Tactic.ByContra
import Mathlib.Tactic.Tauto
set_option autoImplicit false

/-!
Styles as ledgers: which entry of a kind is in effect after each operation. A style that is built
up entry by entry holds one entry of each kind and no reset. Main statements: `find?_addNew`, what
a merge leaves in effect of a kind depends on what was in effect of that kind, and `removeLast_eq`.
-/
namespace RichText

namespace Entry

theorem eq_of_kind_eq {e e' : Entry} (h : e.clears ≠ []) (hkind : e'.kind = e.kind) : e' = e := by
  unfold clears at h
  split at h
  all_goals first | exact absurd rfl h | skip
  all_goals
    cases e' with
    | token t =>
      cases t with
      | atom a => cases a <;> first | rfl | exact Kind.noConfusion hkind
      | group => exact Kind.noConfusion hkind
    | _ => exact Kind.noConfusion hkind

/-- What is in effect of a kind once an entry has been merged, given what was in effect before. -/
def merge (excluded : List Kind) (kind : Kind) (found : Option Entry) (e : Entry) : Option Entry :=
  if e.kind ∈ excluded then found
  else
    match e.clears with
    | [] => if e.kind = kind then found.or (some e) else found
    | categories => found.filter (fun e => !categories.contains e.category)

end Entry

namespace Style

/-- What holds of a style that is built up entry by entry. -/
structure WellFormed (style : Style) : Prop where
  unique : style.Unique
  clears_eq_nil : ∀ e ∈ style.entries, e.clears = []

variable {style : Style} {kind : Kind}

theorem wellFormed_empty : WellFormed {} := ⟨unique_empty, by simp⟩

theorem WellFormed.filter (h : style.WellFormed) (p : Entry → Bool) :
    WellFormed ⟨style.entries.filter p⟩ :=
  ⟨unique_filter h.unique p, fun e he => h.clears_eq_nil e (List.mem_filter.1 he).1⟩

theorem WellFormed.add (h : style.WellFormed) (entry : Entry) : (style.add entry).WellFormed := by
  refine ⟨unique_add h.unique entry, ?_⟩
  unfold Style.add
  split
  · rename_i hclears
    intro e he
    rcases List.mem_append.1 he with hold | hnew
    · exact (h.filter _).clears_eq_nil e hold
    · rw [List.mem_singleton.1 hnew, hclears]
  · exact (h.filter _).clears_eq_nil

theorem WellFormed.addAll (h : style.WellFormed) (entries : List Entry) :
    (style.addAll entries).WellFormed := by
  induction entries generalizing style with
  | nil => exact h
  | cons e entries ih => exact ih (h.add e)

theorem wellFormed_ofList (entries : List Entry) : (ofList entries).WellFormed :=
  wellFormed_empty.addAll entries

theorem WellFormed.addNew (h : style.WellFormed) (entries : List Entry) (excluded : List Kind) :
    (style.addNew entries excluded).WellFormed := by
  unfold Style.addNew
  induction entries generalizing style with
  | nil => exact h
  | cons e entries ih =>
    rw [List.foldl_cons]
    split
    · exact ih h
    · exact ih (h.add e)

/-! What is in effect -/

theorem find?_eq_some_iff (h : style.Unique) {e : Entry} :
    style.find? kind = some e ↔ e ∈ style.entries ∧ e.kind = kind := by
  constructor
  · intro hfind
    have hmem := List.mem_of_find?_eq_some hfind
    have hkind := List.find?_some hfind
    exact ⟨List.mem_reverse.1 hmem, by simpa using hkind⟩
  · rintro ⟨hmem, hkind⟩
    obtain ⟨e', hfind⟩ : ∃ e', style.find? kind = some e' := by
      apply Option.isSome_iff_exists.1
      rw [find?, List.find?_isSome]
      exact ⟨e, by simpa using hmem, by simpa using hkind⟩
    have hmem' := List.mem_reverse.1 (List.mem_of_find?_eq_some hfind)
    have hkind' : e'.kind = kind := by simpa using List.find?_some hfind
    rw [hfind, List.inj_on_of_nodup_map h hmem' hmem (hkind'.trans hkind.symm)]

theorem find?_filter (h : style.Unique) (p : Entry → Bool) :
    find? ⟨style.entries.filter p⟩ kind = (style.find? kind).filter p := by
  ext e
  rw [find?_eq_some_iff (unique_filter h p), Option.filter_eq_some_iff, find?_eq_some_iff h,
    List.mem_filter]
  tauto

theorem find?_clear (h : style.Unique) (categories : List Category) :
    (style.clear categories).find? kind =
      (style.find? kind).filter (fun e => !categories.contains e.category) :=
  find?_filter h _

theorem find?_add {e : Entry} (h : e.clears = []) :
    (style.add e).find? kind = if e.kind = kind then some e else style.find? kind := by
  split
  · rename_i hkind
    rw [← hkind, find?_add_self h]
  · rename_i hkind
    exact find?_add_of_ne h hkind

theorem find?_erase (erased : Kind) :
    (style.erase erased).find? kind = if kind = erased then none else style.find? kind := by
  unfold find? erase
  rw [← List.filter_reverse, List.find?_filter]
  split
  · rename_i hkind
    simp [hkind]
  · rename_i hkind
    congr 1
    funext e
    by_cases he : e.kind = kind
    · simp [he, hkind]
    · simp [he]

theorem WellFormed.contains_eq_false (h : style.WellFormed) {e : Entry} (hclears : e.clears ≠ []) :
    style.contains e.kind = false := by
  rw [Style.contains, Option.isSome_eq_false_iff, Option.isNone_iff_eq_none]
  by_contra hfind
  obtain ⟨e', hfind⟩ := Option.ne_none_iff_exists'.1 hfind
  obtain ⟨hmem, hkind⟩ := (find?_eq_some_iff h.unique).1 hfind
  rw [← Entry.eq_of_kind_eq hclears hkind] at hclears
  exact hclears (h.clears_eq_nil e' hmem)

theorem find?_addNew_singleton (h : style.WellFormed) (e : Entry) (excluded : List Kind) :
    (style.addNew [e] excluded).find? kind = e.merge excluded kind (style.find? kind) := by
  unfold addNew Entry.merge
  rw [List.foldl_cons, List.foldl_nil]
  by_cases hexcluded : e.kind ∈ excluded
  · simp [hexcluded]
  cases hclears : e.clears with
  | nil =>
    by_cases hkind : e.kind = kind
    · subst hkind
      cases hfind : style.find? e.kind with
      | none => simp [hexcluded, contains, hfind, find?_add_self hclears]
      | some e' => simp [hexcluded, contains, hfind]
    · by_cases hcontains : style.contains e.kind = true
      · simp [hcontains, hkind]
      · simp [hcontains, hkind, hexcluded, find?_add_of_ne hclears hkind]
  | cons category categories =>
    have hcontains := h.contains_eq_false (e := e) (by simp [hclears])
    have hadd : style.add e = style.clear (category :: categories) := by simp [add, hclears]
    simp [hexcluded, hcontains, hadd, find?_clear h.unique]

/-- What a merge leaves in effect of a kind does not depend on the other kinds. -/
theorem find?_addNew (h : style.WellFormed) (entries : List Entry) (excluded : List Kind) :
    (style.addNew entries excluded).find? kind =
      entries.foldl (Entry.merge excluded kind) (style.find? kind) := by
  induction entries generalizing style with
  | nil => rfl
  | cons e entries ih =>
    have hcons : style.addNew (e :: entries) excluded =
        (style.addNew [e] excluded).addNew entries excluded := rfl
    rw [hcons, ih (h.addNew [e] excluded), find?_addNew_singleton h, List.foldl_cons]

theorem removeLast_eq (h : style.Unique) (kind : Kind) :
    style.removeLast kind = (style.find? kind, style.erase kind) := by
  have hfilter : ∀ entries : List Entry, (entries.map Entry.kind).Nodup →
      entries.eraseP (fun e => e.kind = kind) = entries.filter (fun e => e.kind ≠ kind) := by
    intro entries hentries
    induction entries with
    | nil => rfl
    | cons e entries ih =>
      rw [List.map_cons, List.nodup_cons] at hentries
      by_cases he : e.kind = kind
      · have hothers : ∀ e' ∈ entries, e'.kind ≠ kind := by
          intro e' he' hkind
          exact hentries.1 (List.mem_map.2 ⟨e', he', hkind.trans he.symm⟩)
        have hself : entries.filter (fun e => e.kind ≠ kind) = entries :=
          List.filter_eq_self.2 (by simpa using hothers)
        rw [List.eraseP_cons_of_pos (by simpa using he),
          List.filter_cons_of_neg (by simpa using he), hself]
      · simp [he, ih hentries.2]
  have hreverse : (style.entries.reverse.map Entry.kind).Nodup := by
    rw [List.map_reverse, List.nodup_reverse]
    exact h
  unfold removeLast erase
  dsimp only
  rw [hfilter _ hreverse, List.filter_reverse, List.reverse_reverse]
  rfl

end Style

end RichText
