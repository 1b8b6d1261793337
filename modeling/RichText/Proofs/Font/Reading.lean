import RichText.Proofs.Document.Json
import RichText.Proofs.Font.Insertion
set_option autoImplicit false

/-!
Font tables that are read and font tables that are collected. Reading keeps every font of an array,
so it makes the same table as inserting the fonts one after another only if no id comes twice. Main
statement: `agrees_ofJson?_iff`.
-/
namespace RichText.FontTable

open Json

/-- The tables answer alike. -/
structure Agrees (table table' : FontTable) : Prop where
  get?_eq : ∀ id, table.get? id = table'.get? id
  first?_eq : table.first? = table'.first?
  size_eq : table.size = table'.size

theorem insertInto_of_notMem {font : Font} {fonts : List Font}
    (h : font.id ∉ fonts.map Font.id) : insertInto font fonts = fonts ++ [font] := by
  induction fonts with
  | nil => rfl
  | cons f fonts ih =>
    simp only [List.map_cons, List.mem_cons, not_or] at h
    rw [insertInto, if_neg (Ne.symm h.1), ih h.2, List.cons_append]

theorem ofList_of_nodup {fonts : List Font} (h : (fonts.map Font.id).Nodup) :
    ofList fonts = ⟨fonts⟩ := by
  induction fonts using List.reverseRecOn with
  | nil => rfl
  | append_singleton fonts font ih =>
    rw [List.map_append, List.nodup_append] at h
    obtain ⟨hfonts, -, hnew⟩ := h
    have hnotMem : font.id ∉ fonts.map Font.id := fun hmem => hnew _ hmem _ (by simp) rfl
    rw [ofList_concat, ih hfonts, insert, insertInto_of_notMem hnotMem]

/-! The answers of a table with all fonts of a list -/

theorem get?_eq_head? (fonts : List Font) (id : Int32) :
    get? ⟨fonts⟩ id = (fonts.filter fun f => f.id = id).head? :=
  List.head?_filter.symm

theorem first?_eq_ofList_iff (fonts : List Font) :
    first? ⟨fonts⟩ = (ofList fonts).first? ↔
      ∀ first ∈ fonts.head?, latest? fonts first.id = some first := by
  rw [first?_ofList]
  cases fonts with
  | nil => simp [first?]
  | cons first fonts => simpa [first?] using eq_comm

theorem size_eq_ofList_iff (fonts : List Font) :
    size ⟨fonts⟩ = (ofList fonts).size ↔ (fonts.map Font.id).Nodup := by
  have hcard : (fonts.map Font.id).toFinset.card = (fonts.map Font.id).length ↔
      (fonts.map Font.id).Nodup :=
    Multiset.toFinset_card_eq_card_iff_nodup
  rw [List.length_map] at hcard
  rw [size_ofList, ← hcard]
  exact eq_comm

theorem agrees_ofList_iff (fonts : List Font) :
    Agrees ⟨fonts⟩ (ofList fonts) ↔ (fonts.map Font.id).Nodup := by
  constructor
  · intro h
    exact (size_eq_ofList_iff fonts).1 h.size_eq
  · intro h
    rw [ofList_of_nodup h]
    exact ⟨fun _ => rfl, rfl, rfl⟩

theorem parse_write (fonts : List Font) :
    (Json.parse? (toJson ⟨fonts⟩).write).bind (ofJson? maxDepth) = some ⟨fonts⟩ := by
  have hdepth : (toJson ⟨fonts⟩).depth ≤ maxDepth := by
    refine depth_array_le.2 fun item hitem => ?_
    obtain ⟨font, -, rfl⟩ := List.mem_map.1 hitem
    refine depth_ofMembers_le.2 ?_
    simp [ofText, ofInt32, ofInt, ofEnumeration, depth]
  rw [Json.parse?_write (codec.canonical _), Option.bind_some, codec.reads _ _ hdepth]

/-- The table that is read from an array of fonts and the one that is collected from these fonts
answer alike, with ids that are unique in both, just if no id comes twice. Otherwise the one that is
read has more fonts, and it finds the first font with an id and not the last. -/
theorem agrees_ofJson?_iff (fonts : List Font) :
    ∃ table, (Json.parse? (toJson ⟨fonts⟩).write).bind (ofJson? maxDepth) = some table ∧
      (table.Agrees (ofList fonts) ∧ table.ids.Nodup ∧ (ofList fonts).ids.Nodup ↔
        (fonts.map Font.id).Nodup) ∧
      (ofList fonts).ids.Nodup ∧
      (∀ id, table.get? id = (ofList fonts).get? id ↔
        (fonts.filter fun f => f.id = id).head? = (fonts.filter fun f => f.id = id).getLast?) ∧
      (table.first? = (ofList fonts).first? ↔
        ∀ first ∈ fonts.head?, (fonts.filter fun f => f.id = first.id).getLast? = some first) ∧
      (table.size = (ofList fonts).size ↔ (fonts.map Font.id).Nodup) := by
  have hnodup := nodup_ids_ofList fonts
  refine ⟨⟨fonts⟩, parse_write fonts, ?_, hnodup, fun id => ?_, first?_eq_ofList_iff fonts,
    size_eq_ofList_iff fonts⟩
  · rw [agrees_ofList_iff]
    exact ⟨fun h => h.1, fun h => ⟨h, h, hnodup⟩⟩
  · rw [get?_eq_head?, get?_ofList, latest?]

def repeatedId : List Font := [⟨0, "Times", .roman⟩, ⟨0, "Courier", .modern⟩]

theorem disagrees_repeatedId :
    ∃ table, (Json.parse? (toJson ⟨repeatedId⟩).write).bind (ofJson? maxDepth) = some table ∧
      table.get? 0 = some ⟨0, "Times", .roman⟩ ∧
      (ofList repeatedId).get? 0 = some ⟨0, "Courier", .modern⟩ ∧
      table.first? ≠ (ofList repeatedId).first? ∧
      table.size = 2 ∧ (ofList repeatedId).size = 1 ∧ ¬table.ids.Nodup :=
  ⟨⟨repeatedId⟩, parse_write repeatedId, by decide, by decide, by decide, rfl, rfl, by decide⟩

end RichText.FontTable
