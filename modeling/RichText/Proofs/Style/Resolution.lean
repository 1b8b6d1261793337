import RichText.Proofs.Style.Reachable
import Mathlib.Logic.Function.Iterate
set_option autoImplicit false

/-!
Resolved styles: a style whose list reference has been resolved already. Merging a level a second
time finds everything that it adds in place. Main statements: `resolveList_resolveList`, and
`iterate_resolveList` for any number of times.
-/
namespace RichText

namespace Style

variable {style : Style} {formats : List Entry} {excluded : List Kind}

theorem erase_of_contains_eq_false {kind : Kind} (h : style.contains kind = false) :
    style.erase kind = style := by
  rw [contains, Option.isSome_eq_false_iff, Option.isNone_iff_eq_none, find?,
    List.find?_eq_none] at h
  have hself : style.entries.filter (fun e => e.kind ≠ kind) = style.entries :=
    List.filter_eq_self.2 (fun e he => by simpa using h e (List.mem_reverse.2 he))
  rw [erase, hself]

theorem erase_add_self (style : Style) {e : Entry} (hclears : e.clears = []) :
    (style.add e).erase e.kind = style.erase e.kind := by
  simp [add, hclears, erase, List.filter_filter]

theorem erase_add_of_ne {kind : Kind} {e : Entry} (h : e.kind ≠ kind) :
    (style.add e).erase kind = (style.erase kind).add e := by
  unfold add
  split
  · simp [erase, h, List.filter_filter, Bool.and_comm]
  · simp [erase, clear, List.filter_filter, Bool.and_comm]

theorem erase_erase_self (style : Style) (kind : Kind) :
    (style.erase kind).erase kind = style.erase kind := by
  simp [erase, List.filter_filter]

theorem erase_comm (style : Style) (kind kind' : Kind) :
    (style.erase kind).erase kind' = (style.erase kind').erase kind := by
  simp [erase, List.filter_filter, Bool.and_comm]

theorem contains_add {kind : Kind} (h : style.contains kind = true) {e : Entry} (hclears : e.clears = []) :
    (style.add e).contains kind = true := by
  rw [contains, find?_add hclears]
  split
  · rfl
  · exact h

theorem addNew_cons (style : Style) (e : Entry) (formats : List Entry) (excluded : List Kind) :
    style.addNew (e :: formats) excluded =
      (if excluded.contains e.kind || style.contains e.kind then style
        else style.add e).addNew formats excluded :=
  rfl

theorem addNew_append (style : Style) (first second : List Entry) (excluded : List Kind) :
    style.addNew (first ++ second) excluded =
      (style.addNew first excluded).addNew second excluded :=
  List.foldl_append

theorem addNew_of_contains
    (h : ∀ e ∈ formats, e.kind ∈ excluded ∨ style.contains e.kind = true) :
    style.addNew formats excluded = style := by
  induction formats with
  | nil => rfl
  | cons e formats ih =>
    have he := h e List.mem_cons_self
    rw [addNew_cons, if_pos (by simpa using he)]
    exact ih (fun e' he' => h e' (List.mem_cons_of_mem _ he'))

theorem contains_addNew {kind : Kind} (h : style.contains kind = true)
    (hclears : ∀ e ∈ formats, e.clears = []) :
    (style.addNew formats excluded).contains kind = true := by
  induction formats generalizing style with
  | nil => exact h
  | cons e formats ih =>
    have htail : ∀ e' ∈ formats, e'.clears = [] :=
      fun e' he' => hclears e' (List.mem_cons_of_mem _ he')
    rw [addNew_cons]
    split
    · exact ih h htail
    · exact ih (contains_add h (hclears e List.mem_cons_self)) htail

theorem contains_addNew_of_mem (hclears : ∀ e ∈ formats, e.clears = []) :
    ∀ e ∈ formats, e.kind ∈ excluded ∨ (style.addNew formats excluded).contains e.kind = true := by
  induction formats generalizing style with
  | nil => simp
  | cons e formats ih =>
    have htail : ∀ e' ∈ formats, e'.clears = [] :=
      fun e' he' => hclears e' (List.mem_cons_of_mem _ he')
    intro e' he'
    rw [addNew_cons]
    obtain rfl | he' := List.mem_cons.1 he'
    · split
      · rename_i hskipped
        rw [Bool.or_eq_true] at hskipped
        refine hskipped.imp (by simp) (fun h => contains_addNew h htail)
      · have hadded : (style.add e').contains e'.kind = true := by
          rw [contains, find?_add_self (hclears e' List.mem_cons_self)]
          rfl
        exact .inr (contains_addNew hadded htail)
    · exact ih htail e' he'

theorem clear_addNew (h : ∀ e ∈ formats, e.category = .paragraphFormat) :
    (style.addNew formats excluded).clear [.paragraphFormat] =
      style.clear [.paragraphFormat] := by
  induction formats generalizing style with
  | nil => rfl
  | cons e formats ih =>
    have htail : ∀ e' ∈ formats, e'.category = .paragraphFormat :=
      fun e' he' => h e' (List.mem_cons_of_mem _ he')
    have hcategory := h e List.mem_cons_self
    rw [addNew_cons, ih htail]
    split
    · rfl
    · rename_i hadded
      rw [Bool.or_eq_true, not_or, Bool.not_eq_true, Bool.not_eq_true] at hadded
      by_cases hreset : e = .atom .paragraphDefault
      · subst hreset
        simp [add, Entry.clears, clear]
      · simp [add, ListLevel.clears_eq_nil hcategory hreset, erase_of_contains_eq_false hadded.2,
          clear, hcategory]

/-- What comes before a reset among the formats is without effect. -/
theorem addNew_reset (hstyle : style.WellFormed) (before after : List Entry)
    (h : ∀ e ∈ before, e.category = .paragraphFormat)
    (hexcluded : Kind.paragraphDefault ∉ excluded) :
    style.addNew (before ++ .atom .paragraphDefault :: after) excluded =
      (style.clear [.paragraphFormat]).addNew after excluded := by
  have hcontains : (style.addNew before excluded).contains .paragraphDefault = false :=
    (hstyle.addNew before excluded).contains_eq_false 
      (e := .atom .paragraphDefault) (by simp [Entry.clears])
  have hkind : (.atom .paragraphDefault : Entry).kind = .paragraphDefault := rfl
  have hclear : (style.addNew before excluded).add (.atom .paragraphDefault) =
      style.clear [.paragraphFormat] := clear_addNew h
  rw [addNew_append, addNew_cons, hkind, hcontains, if_neg (by simpa using hexcluded), hclear]

theorem addNew_addNew (hstyle : style.WellFormed)
    (h : ∀ e ∈ formats, e.category = .paragraphFormat)
    (hexcluded : Kind.paragraphDefault ∉ excluded) :
    (style.addNew formats excluded).addNew formats excluded = style.addNew formats excluded := by
  by_cases hreset : (.atom .paragraphDefault : Entry) ∈ formats
  · obtain ⟨before, after, rfl⟩ := List.append_of_mem hreset
    have hbefore : ∀ e ∈ before, e.category = .paragraphFormat :=
      fun e he => h e (List.mem_append_left _ he)
    rw [addNew_reset (hstyle.addNew _ _) before after hbefore hexcluded, clear_addNew h,
      addNew_reset hstyle before after hbefore hexcluded]
  · refine addNew_of_contains (contains_addNew_of_mem (fun e he => ?_))
    refine ListLevel.clears_eq_nil (h e he) ?_
    rintro rfl
    exact hreset he

theorem erase_addNew {kind : Kind} (h : ∀ e ∈ formats, e.category = .paragraphFormat)
    (hkind : kind ≠ .paragraphDefault) :
    (style.addNew formats excluded).erase kind =
      (style.erase kind).addNew formats (kind :: excluded) := by
  induction formats generalizing style with
  | nil => rfl
  | cons e formats ih =>
    have htail : ∀ e' ∈ formats, e'.category = .paragraphFormat :=
      fun e' he' => h e' (List.mem_cons_of_mem _ he')
    rw [addNew_cons, addNew_cons, ih htail]
    congr 1
    by_cases hself : e.kind = kind
    · have hclears : e.clears = [] := by
        refine ListLevel.clears_eq_nil (h e List.mem_cons_self) ?_
        rintro rfl
        exact hkind hself.symm
      have hadd : (style.add e).erase kind = style.erase kind := by
        rw [← hself, erase_add_self style hclears]
      have hskipped : ((kind :: excluded).contains e.kind || (style.erase kind).contains e.kind) =
          true := by
        simp [hself]
      rw [hskipped, if_pos rfl]
      split
      · rfl
      · exact hadd
    · have hcontains : (style.erase kind).contains e.kind = style.contains e.kind := by
        rw [contains, find?_erase, if_neg hself, contains]
      have hor : ((kind :: excluded).contains e.kind || (style.erase kind).contains e.kind) =
          (excluded.contains e.kind || style.contains e.kind) := by
        simp [hcontains, hself]
      rw [hor]
      split
      · rfl
      · exact erase_add_of_ne hself

/-! Resolving -/

variable {doc : Document}

/-- The reference of a style to a list level, the first level unless it says otherwise. -/
def referenceTo (style : Style) (id : Int32) : ListReference :=
  ⟨id, levelOf (style.find? .listLevelNumber)⟩

def unreferred (style : Style) : Style := (style.erase .listStyleId).erase .listLevelNumber

theorem unreferred_unreferred (style : Style) : style.unreferred.unreferred = style.unreferred := by
  unfold unreferred
  rw [erase_comm _ .listLevelNumber .listStyleId, erase_erase_self, erase_erase_self]

theorem unreferred_refer (style : Style) (r : ListReference) :
    (style.refer r).unreferred = style.unreferred := by
  have hrefer : style.refer r =
      (style.add (.atom (.listStyleId r.id))).add (.atom (.listLevelNumber r.level)) := rfl
  have hid : (style.add (.atom (.listStyleId r.id))).erase .listStyleId =
      style.erase .listStyleId := erase_add_self style (e := .atom (.listStyleId r.id)) rfl
  have hlevel : ((style.erase .listStyleId).add (.atom (.listLevelNumber r.level))).erase
      .listLevelNumber = (style.erase .listStyleId).erase .listLevelNumber :=
    erase_add_self _ (e := .atom (.listLevelNumber r.level)) rfl
  have hkind : (.atom (.listLevelNumber r.level) : Entry).kind ≠ .listStyleId := Kind.noConfusion
  rw [unreferred, hrefer, erase_add_of_ne hkind, hid, hlevel, unreferred]

theorem refer_unreferred (style : Style) (r : ListReference) :
    style.unreferred.refer r = style.refer r := by
  have hadd : ∀ (base : Style) (e : Entry), e.clears = [] →
      (base.erase e.kind).add e = base.add e := by
    intro base e hclears
    simp [add, hclears, erase, List.filter_filter]
  have hrefer : ∀ base : Style, base.refer r =
      (base.add (.atom (.listStyleId r.id))).add (.atom (.listLevelNumber r.level)) :=
    fun _ => rfl
  have hid := hadd style (.atom (.listStyleId r.id)) rfl
  have hlevel := hadd (style.add (.atom (.listStyleId r.id))) (.atom (.listLevelNumber r.level)) rfl
  have hkind : (.atom (.listStyleId r.id) : Entry).kind ≠ .listLevelNumber := Kind.noConfusion
  have hkinds : (.atom (.listStyleId r.id) : Entry).kind = .listStyleId ∧
      (.atom (.listLevelNumber r.level) : Entry).kind = .listLevelNumber := ⟨rfl, rfl⟩
  rw [hkinds.1] at hid
  rw [hkinds.2] at hlevel
  rw [hrefer, hrefer, unreferred, ← erase_add_of_ne hkind, hid, hlevel]

theorem refer_addNew_refer (h : style.WellFormed)
    (hformats : ∀ e ∈ formats, e.category = .paragraphFormat) (r : ListReference) :
    ((((style.unreferred.addNew formats ListLevel.withheld).refer r).unreferred).addNew formats
      ListLevel.withheld).refer r =
        (style.unreferred.addNew formats ListLevel.withheld).refer r := by
  have hbase : style.unreferred.WellFormed := (h.filter _).filter _
  have hunreferred : ∀ base : Style, (base.addNew formats ListLevel.withheld).unreferred =
      base.unreferred.addNew formats (.listLevelNumber :: .listStyleId :: ListLevel.withheld) := by
    intro base
    unfold unreferred
    rw [erase_addNew hformats Kind.noConfusion, erase_addNew hformats Kind.noConfusion]
  have hmerged : (style.unreferred.addNew formats ListLevel.withheld).unreferred =
      style.unreferred.addNew formats (.listLevelNumber :: .listStyleId :: ListLevel.withheld) := by
    rw [hunreferred, unreferred_unreferred]
  rw [unreferred_refer, ← refer_unreferred, hunreferred, unreferred_unreferred, hmerged,
    addNew_addNew hbase hformats (by decide), ← hmerged, refer_unreferred]

theorem referenceTo_refer (style : Style) (r : ListReference) :
    (style.refer r).referenceTo r.id = r := by
  rw [referenceTo, refer, find?_addAll_reference]
  rfl

theorem resolveList_of_defined (h : style.WellFormed) {id : Int32} {definition : ListStyle}
    (hid : style.find? .listStyleId = some (.atom (.listStyleId id)))
    (hdefinition : doc.listStyles.get? id = some definition) :
    style.resolveList doc =
      (style.unreferred.addNew ((style.referenceTo id).formats doc) ListLevel.withheld).refer
        (style.referenceTo id) := by
  have hrest : (style.erase .listStyleId).WellFormed := h.filter _
  have hlevel : (style.erase .listStyleId).find? .listLevelNumber =
      style.find? .listLevelNumber := by
    rw [find?_erase, if_neg (by decide)]
  unfold resolveList
  rw [removeLast_eq h.unique, hid]
  dsimp only
  rw [hdefinition]
  dsimp only
  rw [removeLast_eq hrest.unique, hlevel]
  dsimp only
  exact congrArg (fun merged => merged.refer (style.referenceTo id))
    (mergeLevel_eq (r := style.referenceTo id) style.unreferred hdefinition)

theorem resolveList_of_undefined (h : style.WellFormed) {id : Int32}
    (hid : style.find? .listStyleId = some (.atom (.listStyleId id)))
    (hdefinition : doc.listStyles.get? id = none) :
    style.resolveList doc = (style.erase .listStyleId).add (.atom (.listStyleId id)) := by
  unfold resolveList
  rw [removeLast_eq h.unique, hid]
  dsimp only
  rw [hdefinition]

theorem exists_id_of_find? {e : Entry} (h : style.find? .listStyleId = some e) :
    ∃ id, e = .atom (.listStyleId id) := by
  have hkind : e.kind = .listStyleId := by simpa using List.find?_some h
  cases e with
  | token t =>
    cases t with
    | group contents => exact Kind.noConfusion hkind
    | atom a => cases a <;> first | exact ⟨_, rfl⟩ | exact Kind.noConfusion hkind
  | _ => exact Kind.noConfusion hkind

/-- What a style resolves to stays as it is when it is resolved again. -/
theorem resolveList_resolveList (h : style.WellFormed) (doc : Document) :
    (style.resolveList doc).resolveList doc = style.resolveList doc := by
  have hresolved : (style.resolveList doc).WellFormed := h.resolveList doc
  cases hid : style.find? .listStyleId with
  | none =>
    have hnone : style.resolveList doc = style := resolveList_of_find?_eq_none hid
    rw [hnone, hnone]
  | some e =>
    obtain ⟨id, rfl⟩ := exists_id_of_find? hid
    cases hdefinition : doc.listStyles.get? id with
    | none =>
      have hagain : ((style.erase .listStyleId).add (.atom (.listStyleId id))).find?
          .listStyleId = some (.atom (.listStyleId id)) := find?_add_self rfl
      have hresolve := resolveList_of_undefined h hid hdefinition
      rw [hresolve] at hresolved ⊢
      rw [resolveList_of_undefined hresolved hagain hdefinition]
      have hself : ((style.erase .listStyleId).add (.atom (.listStyleId id))).erase .listStyleId =
          (style.erase .listStyleId).erase .listStyleId :=
        erase_add_self _ (e := .atom (.listStyleId id)) rfl
      rw [hself, erase_erase_self]
    | some definition =>
      have hformats : ∀ e ∈ (style.referenceTo id).formats doc, e.category = .paragraphFormat :=
        fun _ he => ListReference.category_of_mem_formats he
      have hresolve := resolveList_of_defined h hid hdefinition
      rw [hresolve] at hresolved ⊢
      have hagain := find?_addAll_reference (style.unreferred.addNew
        ((style.referenceTo id).formats doc) ListLevel.withheld) (style.referenceTo id) .listStyleId
      rw [resolveList_of_defined hresolved hagain hdefinition, referenceTo_refer,
        refer_addNew_refer h hformats]

/-- However often a style is resolved, it has the same entries in the same order as after the first
time. -/
theorem iterate_resolveList (h : style.Reachable) (doc : Document) (n : Nat) :
    (resolveList doc)^[n + 1] style = style.resolveList doc := by
  induction n with
  | zero => rfl
  | succ n ih =>
    rw [Function.iterate_succ_apply', ih]
    exact resolveList_resolveList h.wellFormed doc

end Style

namespace Document

open Style

def unrulyLevel : Document where
  listStyles := ⟨[(1, ⟨[⟨[.atom (.spaceAfter 120), .atom .paragraphDefault,
    .atom (.listStyleId 7), .atom (.spaceAfter 60), .atom .inTable, .atom (.listLevelNumber 3),
    .atom (.spaceAfter 20)]⟩]⟩)]⟩

theorem iterate_resolveList_unrulyLevel :
    let style := ofList [.atom (.listStyleId 1), .atom (.bold true), .atom (.leftIndent 720)]
    style.Reachable ∧
      style.resolveList unrulyLevel = ⟨[.atom (.bold true), .atom (.spaceAfter 60), .atom .inTable,
        .atom (.listStyleId 1), .atom (.listLevelNumber 0)]⟩ ∧
      (resolveList unrulyLevel)^[2] style = style.resolveList unrulyLevel :=
  ⟨reachable_ofList _, by decide, iterate_resolveList (reachable_ofList _) unrulyLevel 1⟩

end Document

end RichText
