import Mathlib.Data.Finset.Card
import Mathlib.Data.List.Induction
import RichText.Font
set_option autoImplicit false

namespace RichText.FontTable

def latest? (fonts : List Font) (id : Int32) : Option Font :=
  (fonts.filter fun f => f.id = id).getLast?

theorem latest?_concat (fonts : List Font) (font : Font) (id : Int32) :
    latest? (fonts ++ [font]) id = if font.id = id then some font else latest? fonts id := by
  by_cases hid : font.id = id <;> simp [latest?, hid]

theorem ofList_concat (fonts : List Font) (font : Font) :
    ofList (fonts ++ [font]) = (ofList fonts).insert font := by
  simp [ofList]

theorem get?_ofList (fonts : List Font) (id : Int32) :
    (ofList fonts).get? id = latest? fonts id := by
  induction fonts using List.reverseRecOn with
  | nil => rfl
  | append_singleton fonts font ih => rw [ofList_concat, get?_insert, latest?_concat, ih]

theorem ids_ofList (fonts : List Font) : (ofList fonts).ids = (fonts.map Font.id).eraseDups := by
  induction fonts using List.reverseRecOn with
  | nil => rfl
  | append_singleton fonts font ih =>
    rw [ofList_concat, ids_insert, ih, List.map_append, List.map_singleton, List.eraseDups_append]
    split <;> simp_all [List.removeAll, List.eraseDups_cons]

theorem nodup_ids_ofList (fonts : List Font) : (ofList fonts).ids.Nodup := by
  induction fonts using List.reverseRecOn with
  | nil => exact List.nodup_nil
  | append_singleton fonts font ih =>
    rw [ofList_concat]
    exact nodup_ids_insert ih font

theorem size_ofList (fonts : List Font) :
    (ofList fonts).size = (fonts.map Font.id).toFinset.card := by
  have hsame : (ofList fonts).ids.toFinset = (fonts.map Font.id).toFinset := by
    ext id
    rw [ids_ofList, List.mem_toFinset, List.mem_eraseDups, List.mem_toFinset]
  rw [← hsame, List.toFinset_card_of_nodup (nodup_ids_ofList fonts), ids, List.length_map, size]

theorem first?_eq_bind_get? (table : FontTable) :
    table.first? = table.ids.head?.bind table.get? := by
  obtain ⟨fonts⟩ := table
  cases fonts <;> simp [first?, ids, get?]

theorem first?_ofList (fonts : List Font) :
    (ofList fonts).first? = fonts.head?.bind fun first => latest? fonts first.id := by
  have hget : (ofList fonts).get? = latest? fonts := funext (get?_ofList fonts)
  rw [first?_eq_bind_get?, ids_ofList, hget]
  cases fonts <;> simp [List.eraseDups_cons]

/-- Fonts that are inserted one after another make a map in the order of insertion: the last font
with an id is found under it, ids stand in the order in which they first came, and the first font is
the last one with the first id. -/
theorem lookups_ofList (fonts : List Font) :
    (∀ id, (ofList fonts).get? id = latest? fonts id) ∧
      (ofList fonts).ids = (fonts.map Font.id).eraseDups ∧
      (ofList fonts).ids.Nodup ∧
      ((ofList fonts).first? = fonts.head?.bind fun first => latest? fonts first.id) ∧
      (ofList fonts).size = (fonts.map Font.id).toFinset.card :=
  ⟨get?_ofList fonts, ids_ofList fonts, nodup_ids_ofList fonts, first?_ofList fonts,
    size_ofList fonts⟩

end RichText.FontTable
