import RichText.Proofs.Style.ListReference
set_option autoImplicit false

namespace RichText.Style

inductive Reachable : Style → Prop where
  | empty : Reachable {}
  | add {style : Style} (h : Reachable style) (e : Entry) : Reachable (style.add e)
  | addNew {style : Style} (h : Reachable style) (entries : List Entry) (excluded : List Kind) :
      Reachable (style.addNew entries excluded)
  | removeLast {style : Style} (h : Reachable style) (kind : Kind) :
      Reachable (style.removeLast kind).2
  | setInTable {style : Style} (h : Reachable style) (inTable : Bool) :
      Reachable (style.setInTable inTable)
  | resolveList {style : Style} (h : Reachable style) (doc : Document) :
      Reachable (style.resolveList doc)

variable {style : Style}

theorem WellFormed.removeLast (h : style.WellFormed) (kind : Kind) :
    (style.removeLast kind).2.WellFormed := by
  rw [removeLast_eq h.unique]
  exact h.filter _

theorem WellFormed.setInTable (h : style.WellFormed) (inTable : Bool) :
    (style.setInTable inTable).WellFormed := by
  unfold Style.setInTable
  split
  · exact h.add _
  · exact h.filter _

theorem Reachable.wellFormed (h : Reachable style) : style.WellFormed := by
  induction h with
  | empty => exact wellFormed_empty
  | add _ e ih => exact ih.add e
  | addNew _ entries excluded ih => exact ih.addNew entries excluded
  | removeLast _ kind ih => exact ih.removeLast kind
  | setInTable _ inTable ih => exact ih.setInTable inTable
  | resolveList _ doc ih => exact ih.resolveList doc

theorem ofList_concat (entries : List Entry) (e : Entry) :
    ofList (entries ++ [e]) = (ofList entries).add e := by
  simp [ofList, addAll]

theorem reachable_ofList (entries : List Entry) : Reachable (ofList entries) := by
  induction entries using List.reverseRecOn with
  | nil => exact .empty
  | append_singleton entries e ih =>
    rw [ofList_concat]
    exact ih.add e

theorem entries_ofList_of_nodup {entries : List Entry} (hkinds : (entries.map Entry.kind).Nodup)
    (hclears : ∀ e ∈ entries, e.clears = []) : (ofList entries).entries = entries := by
  induction entries using List.reverseRecOn with
  | nil => rfl
  | append_singleton entries e ih =>
    rw [List.map_append, List.map_singleton, List.nodup_append] at hkinds
    obtain ⟨hbefore, -, hnew⟩ := hkinds
    have hold := ih hbefore (fun e' he' => hclears e' (List.mem_append_left _ he'))
    have hothers : ∀ e' ∈ entries, e'.kind ≠ e.kind :=
      fun e' he' => hnew _ (List.mem_map_of_mem he') _ List.mem_cons_self
    have hself : entries.filter (fun e' => e'.kind ≠ e.kind) = entries :=
      List.filter_eq_self.2 (by simpa using hothers)
    rw [ofList_concat]
    unfold add
    rw [hclears e (by simp), erase, hold, hself]

/-- What every operation keeps is all that there is to say of the styles that can be reached. -/
theorem reachable_iff_wellFormed : Reachable style ↔ style.WellFormed := by
  constructor
  · exact Reachable.wellFormed
  · intro h
    have hstyle : ofList style.entries = style :=
      congrArg Style.mk (entries_ofList_of_nodup h.unique h.clears_eq_nil)
    rw [← hstyle]
    exact reachable_ofList style.entries

end RichText.Style
