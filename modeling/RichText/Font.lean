import RichText.Property
set_option autoImplicit false

namespace RichText

structure Font where
  id : Int32
  name : String
  family : FontFamily := .nil
deriving DecidableEq

structure FontTable where
  fonts : List Font := []
deriving DecidableEq

namespace FontTable

def insertInto (font : Font) : List Font → List Font
  | [] => [font]
  | f :: fs => if f.id = font.id then font :: fs else f :: insertInto font fs

def insert (table : FontTable) (font : Font) : FontTable := ⟨insertInto font table.fonts⟩

def get? (table : FontTable) (id : Int32) : Option Font :=
  table.fonts.find? (fun f => f.id = id)

/-- The font declared first, which stands in for a font that is missing. -/
def first? (table : FontTable) : Option Font := table.fonts.head?

def size (table : FontTable) : Nat := table.fonts.length

def isEmpty (table : FontTable) : Bool := table.fonts.isEmpty

def ofList (fonts : List Font) : FontTable := fonts.foldl insert {}

def ids (table : FontTable) : List Int32 := table.fonts.map Font.id

theorem find?_insertInto (font : Font) (fs : List Font) (id : Int32) :
    (insertInto font fs).find? (fun f => f.id = id) =
      if font.id = id then some font else fs.find? (fun f => f.id = id) := by
  induction fs with
  | nil => simp [insertInto, List.find?_cons]; split <;> simp_all
  | cons f fs ih =>
    unfold insertInto
    by_cases h : f.id = font.id
    · rw [if_pos h]
      by_cases hid : font.id = id <;> simp [h, hid]
    · rw [if_neg h]
      by_cases hf : f.id = id
      · have hne : font.id ≠ id := fun e => h (hf.trans e.symm)
        simp [hf, hne]
      · simp [hf, ih]

theorem get?_insert (table : FontTable) (font : Font) (id : Int32) :
    (table.insert font).get? id = if font.id = id then some font else table.get? id :=
  find?_insertInto font table.fonts id

theorem map_id_insertInto (font : Font) (fs : List Font) :
    (insertInto font fs).map Font.id =
      if font.id ∈ fs.map Font.id then fs.map Font.id else fs.map Font.id ++ [font.id] := by
  induction fs with
  | nil => simp [insertInto]
  | cons f fs ih =>
    by_cases h : f.id = font.id
    · simp [insertInto, h]
    · have h' : font.id ≠ f.id := fun e => h e.symm
      simp only [insertInto, h, if_false, List.map_cons, ih, List.mem_cons, h', false_or]
      split <;> simp

theorem ids_insert (table : FontTable) (font : Font) :
    (table.insert font).ids =
      if font.id ∈ table.ids then table.ids else table.ids ++ [font.id] :=
  map_id_insertInto font table.fonts

theorem nodup_ids_insert {table : FontTable} (h : table.ids.Nodup) (font : Font) :
    (table.insert font).ids.Nodup := by
  rw [ids_insert]
  split
  · exact h
  · rename_i hn
    exact List.nodup_append.2 ⟨h, by simp, by
      intro a ha b hb
      rw [List.mem_singleton] at hb
      subst hb
      exact fun e => hn (e ▸ ha)⟩

end FontTable

end RichText
