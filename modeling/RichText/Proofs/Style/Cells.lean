import RichText.Proofs.Style.Resolution
set_option autoImplicit false

/-!
The cells in a style. Only row defaults and other cells touch them. Main statements: `chains_add`,
`chains_resolveList`, and `Declares.chain`, what the chain is of a style with the cells of a row.
-/
namespace RichText

namespace CellChain

theorem map_index_ofList (cells : List Cell) :
    (ofList cells).map index = List.range cells.length := by
  induction cells with
  | nil => rfl
  | cons cell cells ih =>
    rw [ofList, List.map_append, ih, List.length_cons, List.range_succ]
    rfl

theorem map_index_initialChains (chain : CellChain) :
    chain.initialChains.map index = List.range chain.cells.length := by
  rw [initialChains, map_index_ofList, cells, List.length_reverse]

end CellChain

namespace Entry

def chain? : Entry → Option CellChain
  | .cell chain => some chain
  | _ => none

theorem kind_eq_cell_iff (e : Entry) : e.kind = .cell ↔ e.chain?.isSome = true := by
  cases e with
  | token t =>
    cases t with
    | group contents => simp [kind, Token.kind, chain?]
    | atom a => cases a <;> simp [kind, Token.kind, Atom.kind, chain?]
  | _ => simp [kind, chain?]

theorem category_of_chain? {e : Entry} (h : e.chain?.isSome = true) :
    e.category = .cellFormat := by
  cases e with
  | cell chain => rfl
  | _ => exact absurd h Bool.false_ne_true

structure SparesCells (e : Entry) : Prop where
  chain : e.chain? = none
  clears : .cellFormat ∉ e.clears

theorem sparesCells_of_clears {e : Entry} (hchain : e.chain? = none) (h : e.clears = []) :
    e.SparesCells :=
  ⟨hchain, by simp [h]⟩

theorem sparesCells_atom {a : Atom} (h : a ≠ .rowDefaults) : (Entry.atom a).SparesCells := by
  refine ⟨rfl, ?_⟩
  unfold Entry.clears
  split
  · decide
  · decide
  · rename_i heq
    exact absurd (Token.atom.inj (Entry.token.inj heq)) h
  · exact List.not_mem_nil

theorem sparesCells_of_category {t : Token} (h : t.category = .paragraphFormat) :
    (Entry.token t).SparesCells := by
  cases t with
  | group contents => exact ⟨rfl, by simp [Entry.clears]⟩
  | atom a =>
    apply sparesCells_atom
    rintro rfl
    exact absurd h (by decide)

end Entry

namespace Style

variable {style : Style} {entries : List Entry}

def chains (style : Style) : List CellChain := style.entries.filterMap Entry.chain?

def cells (style : Style) : List Cell := style.cellChain?.elim [] CellChain.cells

theorem cellChain?_eq (style : Style) : style.cellChain? = style.chains.getLast? := by
  have hfind : style.cellChain? = style.entries.reverse.findSome? Entry.chain? := by
    rw [cellChain?, findMap?]
    congr 1
  rw [hfind, ← List.head?_filterMap, List.filterMap_reverse, List.head?_reverse]
  rfl

theorem cells_congr {style' : Style} (h : style.chains = style'.chains) :
    style.cells = style'.cells := by
  rw [cells, cells, cellChain?_eq, cellChain?_eq, h]

theorem chains_filter {p : Entry → Bool} (h : ∀ e : Entry, e.chain?.isSome = true → p e = true) :
    chains ⟨style.entries.filter p⟩ = style.chains := by
  simp only [chains, List.filterMap_filter]
  congr 1
  funext e
  cases hchain : e.chain? with
  | none => simp
  | some chain => simp [h e (by simp [hchain])]

theorem chains_add {e : Entry} (h : e.SparesCells) : (style.add e).chains = style.chains := by
  have hkind : e.kind ≠ .cell := by
    rw [Ne, e.kind_eq_cell_iff, h.chain]
    exact Bool.false_ne_true
  have hclears := h.clears
  unfold add
  split
  · have herase : chains (style.erase e.kind) = style.chains := by
      refine chains_filter (fun e' he' => ?_)
      rw [(e'.kind_eq_cell_iff).2 he']
      exact decide_eq_true hkind.symm
    have happend : chains ⟨(style.erase e.kind).entries ++ [e]⟩ = chains (style.erase e.kind) := by
      simp [chains, h.chain]
    rw [happend, herase]
  · refine chains_filter (fun e' he' => ?_)
    rw [Entry.category_of_chain? he']
    simpa using hclears

theorem chains_add_cell (style : Style) (chain : CellChain) :
    (style.add (.cell chain)).chains = [chain] := by
  have herase : (style.erase .cell).chains = [] := by
    refine List.filterMap_eq_nil_iff.2 (fun e he => ?_)
    have hkind : e.kind ≠ .cell := of_decide_eq_true (List.mem_filter.1 he).2
    rw [Ne, e.kind_eq_cell_iff] at hkind
    simpa using hkind
  rw [chains] at herase
  simp [add, Entry.clears, chains, Entry.kind, herase, Entry.chain?]

theorem chains_add_rowDefaults (style : Style) : (style.add (.atom .rowDefaults)).chains = [] := by
  refine List.filterMap_eq_nil_iff.2 (fun e he => ?_)
  have hcategory := (List.mem_filter.1 he).2
  cases hchain : e.chain? with
  | none => rfl
  | some chain =>
    rw [Entry.category_of_chain? (by simp [hchain])] at hcategory
    exact absurd hcategory (by decide)

theorem chains_addAll (h : ∀ e ∈ entries, e.SparesCells) :
    (style.addAll entries).chains = style.chains := by
  induction entries generalizing style with
  | nil => rfl
  | cons e entries ih =>
    rw [addAll, List.foldl_cons]
    exact (ih (fun e he => h e (List.mem_cons_of_mem _ he))).trans
      (chains_add (h e List.mem_cons_self))

theorem chains_addNew (excluded : List Kind) (h : ∀ e ∈ entries, e.SparesCells) :
    (style.addNew entries excluded).chains = style.chains := by
  unfold addNew
  induction entries generalizing style with
  | nil => rfl
  | cons e entries ih =>
    rw [List.foldl_cons, ih (fun e he => h e (List.mem_cons_of_mem _ he))]
    split
    · rfl
    · exact chains_add (h e List.mem_cons_self)

theorem chains_removeLast {kind : Kind} (h : kind ≠ .cell) :
    (style.removeLast kind).2.chains = style.chains := by
  rw [chains, chains, removeLast]
  simp only [List.filterMap_reverse]
  rw [← List.reverse_inj, List.reverse_reverse, ← List.filterMap_reverse]
  obtain heq | ⟨e, before, after, _, hkind, hentries, heq⟩ :=
    List.exists_or_eq_self_of_eraseP (fun e : Entry => e.kind = kind) style.entries.reverse
  · rw [heq]
  · have hchain : e.chain? = none := by
      have hcell : e.kind ≠ .cell := by
        rw [of_decide_eq_true hkind]
        exact h
      rw [Ne, e.kind_eq_cell_iff] at hcell
      simpa using hcell
    rw [heq, hentries, List.filterMap_append, List.filterMap_append,
      List.filterMap_cons_none hchain]

theorem chains_setInTable_false (style : Style) : (style.setInTable false).chains = style.chains := by
  refine chains_filter (fun e he => ?_)
  cases e with
  | cell chain => rfl
  | _ => exact absurd he Bool.false_ne_true

theorem chains_mergeLevel (definition : ListStyle) (level : UInt64) :
    (style.mergeLevel definition level).chains = style.chains := by
  unfold mergeLevel
  split
  · refine chains_addNew _ (fun e he => ?_)
    obtain ⟨t, ht, rfl⟩ := List.mem_map.1 he
    exact Entry.sparesCells_of_category (of_decide_eq_true (List.mem_filter.1 ht).2)
  · rfl

theorem chains_resolveList (doc : Document) (style : Style) :
    (style.resolveList doc).chains = style.chains := by
  unfold resolveList
  have hrest : (style.removeLast .listStyleId).2.chains = style.chains :=
    chains_removeLast (by decide)
  have hfound : ∀ e, (style.removeLast .listStyleId).1 = some e →
      ∃ id, e = .atom (.listStyleId id) := fun e he => exists_id_of_find? he
  generalize style.removeLast .listStyleId = removed at hrest hfound
  obtain ⟨e?, rest⟩ := removed
  split
  · rfl
  · rename_i id rest' heq
    obtain ⟨-, rfl⟩ := Prod.mk.inj heq
    have hid : (Entry.atom (.listStyleId id)).SparesCells := Entry.sparesCells_atom (by simp)
    split
    · rw [chains_add hid, hrest]
    · have hentries : ∀ level, ∀ e ∈ [Entry.atom (.listStyleId id), .atom (.listLevelNumber level)],
          e.SparesCells := by
        intro level e he
        obtain rfl | rfl : e = .atom (.listStyleId id) ∨ e = .atom (.listLevelNumber level) := by
          simpa using he
        · exact hid
        · exact Entry.sparesCells_atom (by simp)
      rw [chains_addAll (hentries _), chains_mergeLevel, chains_removeLast (by decide), hrest]
  · rename_i e rest' hid heq
    obtain ⟨rfl, rfl⟩ := Prod.mk.inj heq
    obtain ⟨id, rfl⟩ := hfound e rfl
    exact absurd rfl (hid id)

variable {r : Row} {positions : List Twips}

/-- The cells of the style are those of the row with right boundaries at the positions. -/
def Declares (style : Style) (r : Row) (positions : List Twips) : Prop :=
  style.cells.map (fun cell => (cell.row, cell.rightBoundary)) =
    positions.map (fun position => (some r, some position))

theorem cells_of_chains (h : style.chains = []) : style.cells = [] := by
  rw [cells, cellChain?_eq, h]
  rfl

theorem cells_add_cell (style : Style) (cell : Cell) :
    (style.add (.cell (CellChain.extend style.cellChain? cell))).cells = style.cells ++ [cell] := by
  have hchain : (style.add (.cell (CellChain.extend style.cellChain? cell))).cellChain? =
      some (CellChain.extend style.cellChain? cell) := by
    rw [cellChain?_eq, chains_add_cell]
    rfl
  rw [cells, hchain, cells]
  cases style.cellChain? with
  | none => rfl
  | some chain => simp [CellChain.extend, CellChain.cells]

theorem Declares.add (h : style.Declares r positions) {cell : Cell} {position : Twips}
    (hrow : cell.row = some r) (hposition : cell.rightBoundary = some position) :
    (style.add (.cell (CellChain.extend style.cellChain? cell))).Declares r
      (positions ++ [position]) := by
  rw [Declares] at h ⊢
  rw [cells_add_cell, List.map_append, List.map_append, h, List.map_singleton, hrow, hposition]
  rfl

theorem Declares.congr {style' : Style} (h : style.Declares r positions)
    (hchains : style'.chains = style.chains) : style'.Declares r positions := by
  rw [Declares, cells_congr hchains]
  exact h

/-- What it means for the chain that the style has just the cells of the row. -/
theorem Declares.chain (h : style.Declares r positions) :
    (style.cellChain? = none ↔ positions = []) ∧
      ∀ chain, style.cellChain? = some chain →
        chain.cells.map Cell.rightBoundary = positions.map some ∧
        (∀ cell ∈ chain.cells, cell.row = some r) ∧
        chain.initialChains.map CellChain.index = List.range positions.length := by
  rw [Declares, cells] at h
  cases hchain : style.cellChain? with
  | none =>
    rw [hchain] at h
    have hpositions : positions = [] := by simpa using h.symm
    exact ⟨iff_of_true rfl hpositions, by simp⟩
  | some chain =>
    rw [hchain, Option.elim_some] at h
    have hlength : chain.cells.length = positions.length := by simpa using congrArg List.length h
    have hne : positions ≠ [] := by
      rintro rfl
      simp [CellChain.cells] at hlength
    refine ⟨iff_of_false (by simp) hne, ?_⟩
    intro chain' heq
    obtain rfl := Option.some.inj heq
    refine ⟨?_, ?_, ?_⟩
    · have hright := congrArg (List.map Prod.snd) h
      rwa [List.map_map, List.map_map] at hright
    · intro cell hcell
      have hmem := List.mem_map_of_mem (f := fun cell => (cell.row, cell.rightBoundary)) hcell
      rw [h] at hmem
      obtain ⟨position, _, heq⟩ := List.mem_map.1 hmem
      exact (Prod.mk.inj heq).1.symm
    · rw [chain.map_index_initialChains, hlength]

end Style

end RichText
