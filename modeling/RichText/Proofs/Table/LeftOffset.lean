import RichText.Proofs.Style.LastWrite
import RichText.Proofs.Table.Partition
set_option autoImplicit false

/-!
The left offset of a row and the one that its formatting gives. Row defaults clear an offset from
the style, but the row takes the last offset among its tokens, on whichever side of its row defaults
it stands. Main statement: `leftOffset_eq_iff`.
-/
namespace RichText

def Style.rowLeftOffset (style : Style) : Twips :=
  match style.find? .rowLeftOffset with
  | some (.atom (.rowLeftOffset offset)) => offset
  | _ => 0

def Token.formats (ts : List Token) : List Entry := (ts.filter isFormat).map .token

def Row.style (row : Row) : Style := .ofList (Token.formats row.contents)

namespace Token

theorem formats_append (ts us : List Token) : formats (ts ++ us) = formats ts ++ formats us := by
  simp [formats]

theorem formats_cons_of_isFormat {t : Token} (h : t.isFormat = true) (ts : List Token) :
    formats (t :: ts) = .token t :: formats ts := by
  simp [formats, h]

theorem formats_cons_of_not_isFormat {t : Token} (h : ¬t.isFormat = true) (ts : List Token) :
    formats (t :: ts) = formats ts := by
  simp [formats, h]

theorem eq_of_rowLeftOffset? {t : Token} {offset : Twips} (h : t.rowLeftOffset? = some offset) :
    t = .atom (.rowLeftOffset offset) := by
  unfold rowLeftOffset? at h
  split at h
  · rw [Option.some.inj h]
  · exact absurd h (by simp)

theorem kind_ne_of_rowLeftOffset? {t : Token} (h : t.rowLeftOffset? = none) :
    t.kind ≠ .rowLeftOffset := by
  intro hkind
  cases t with
  | group contents => exact Kind.noConfusion hkind
  | atom a =>
    cases a with
    | rowLeftOffset offset => exact absurd h (by simp [rowLeftOffset?])
    | _ => exact Kind.noConfusion hkind

theorem isFormat_of_category {a : Atom} (h : a.category = .rowFormat) :
    (Token.atom a).isFormat = true := by
  rw [isFormat, category, h]
  decide

end Token

namespace Style

variable {style : Style}

theorem find?_clear_rowLeftOffset (h : style.WellFormed) (categories : List Category) :
    (style.clear categories).find? .rowLeftOffset =
      if categories.contains .rowFormat then none else style.find? .rowLeftOffset := by
  rw [find?_clear h.unique]
  cases hfound : style.find? .rowLeftOffset with
  | none => simp
  | some e =>
    have hkind : e.kind = .rowLeftOffset := ((find?_eq_some_iff h.unique).1 hfound).2
    have hcategory : e.category = .rowFormat := by
      rw [Entry.category_eq (by simp [hkind]), hkind]
      rfl
    by_cases hclears : categories.contains .rowFormat = true <;>
      simp only [Option.filter, hcategory, hclears] <;> rfl

theorem find?_add_rowDefaults (h : style.WellFormed) :
    (style.add (.atom .rowDefaults)).find? .rowLeftOffset = none := by
  have hadd : style.add (.atom .rowDefaults) = style.clear [.rowFormat, .cellFormat] := rfl
  rw [hadd, find?_clear_rowLeftOffset h]
  rfl

theorem find?_add_rowLeftOffset (h : style.WellFormed) {e : Entry}
    (hkind : e.kind ≠ .rowLeftOffset) (hreset : e ≠ .atom .rowDefaults) :
    (style.add e).find? .rowLeftOffset = style.find? .rowLeftOffset := by
  by_cases hclears : e.IsReset
  · obtain rfl | rfl | rfl := hclears
    · exact find?_clear_rowLeftOffset h [.paragraphFormat]
    · exact find?_clear_rowLeftOffset h [.characterFormat]
    · exact absurd rfl hreset
  · have hstored : e.clears = [] := by simpa [Entry.isReset_iff] using hclears
    exact find?_add_of_ne hstored hkind

theorem find?_addAll_formats (h : style.WellFormed) {ts : List Token}
    (hts : .atom .rowDefaults ∉ ts) :
    (style.addAll (Token.formats ts)).find? .rowLeftOffset =
      ((ts.filterMap Token.rowLeftOffset?).getLast?.map fun offset =>
        .atom (.rowLeftOffset offset)).or (style.find? .rowLeftOffset) := by
  induction ts generalizing style with
  | nil => rfl
  | cons t ts ih =>
    obtain ⟨ht, hrest⟩ : .atom .rowDefaults ≠ t ∧ .atom .rowDefaults ∉ ts := by
      rwa [List.mem_cons, not_or] at hts
    cases hoffset : t.rowLeftOffset? with
    | some offset =>
      obtain rfl := Token.eq_of_rowLeftOffset? hoffset
      have hadd : (style.add (.atom (.rowLeftOffset offset))).find? .rowLeftOffset =
          some (.atom (.rowLeftOffset offset)) := find?_add_self rfl
      have htail := ih (h.add (.atom (.rowLeftOffset offset))) hrest
      rw [hadd] at htail
      rw [Token.formats_cons_of_isFormat (Token.isFormat_of_category rfl), addAll,
        List.foldl_cons, ← addAll, htail, List.filterMap_cons_some hoffset, List.getLast?_cons]
      cases (ts.filterMap Token.rowLeftOffset?).getLast? <;> rfl
    | none =>
      rw [List.filterMap_cons_none hoffset]
      by_cases hformat : t.isFormat = true
      · have hadd := find?_add_rowLeftOffset h (e := .token t)
          (Token.kind_ne_of_rowLeftOffset? hoffset) (by simpa using ht.symm)
        rw [Token.formats_cons_of_isFormat hformat, addAll, List.foldl_cons, ← addAll,
          ih (h.add _) hrest, hadd]
      · rw [Token.formats_cons_of_not_isFormat hformat]
        exact ih h hrest

end Style

namespace Row

/-- What is in effect at the end of a row was given after its last row defaults. -/
theorem rowLeftOffset_style {row : Row} {before after : List Token}
    (hrow : row.contents = before ++ .atom .rowDefaults :: after)
    (hafter : .atom .rowDefaults ∉ after) :
    row.style.rowLeftOffset = (after.filterMap Token.rowLeftOffset?).getLastD 0 := by
  have hbefore := Style.wellFormed_ofList (Token.formats before)
  have hcleared := Style.find?_add_rowDefaults hbefore
  have hstyle : row.style =
      ((Style.ofList (Token.formats before)).add (.atom .rowDefaults)).addAll
        (Token.formats after) := by
    rw [style, hrow, Token.formats_append,
      Token.formats_cons_of_isFormat (Token.isFormat_of_category rfl)]
    simp [Style.ofList, Style.addAll]
  have hfound := Style.find?_addAll_formats (hbefore.add (.atom .rowDefaults)) hafter
  rw [← hstyle, hcleared, Option.or_none] at hfound
  rw [Style.rowLeftOffset, hfound, List.getLastD_eq_getLast?]
  cases (after.filterMap Token.rowLeftOffset?).getLast? <;> rfl

theorem leftOffset_eq {row : Row} {before after : List Token}
    (hrow : row.contents = before ++ .atom .rowDefaults :: after) :
    row.leftOffset =
      (after.filterMap Token.rowLeftOffset?).getLastD
        ((before.filterMap Token.rowLeftOffset?).getLastD 0) := by
  have hnone : Token.rowLeftOffset? (.atom .rowDefaults) = none := rfl
  rw [leftOffset, hrow, List.filterMap_append, List.filterMap_cons_none hnone]
  simp only [List.getLastD_eq_getLast?, List.getLast?_append]
  cases (after.filterMap Token.rowLeftOffset?).getLast? <;> rfl

theorem Spans.rowDefaults_mem {contents rest : List Token} (h : Spans contents rest) :
    .atom .rowDefaults ∈ contents := by
  cases h <;> simp

theorem exists_last_rowDefaults {ts : List Token} {row : Row} (h : row ∈ (take ts).1) :
    ∃ before after, row.contents = before ++ .atom .rowDefaults :: after ∧
      .atom .rowDefaults ∉ after := by
  have hmem : .atom .rowDefaults ∈ row.contents := by
    obtain ⟨rows, rows', hrows⟩ := List.append_of_mem h
    exact (spans_takeFrom 0 ts rows rows' row hrows).2.rowDefaults_mem
  obtain ⟨after, before, hreverse, hafter⟩ :=
    List.eq_append_cons_of_mem (List.mem_reverse.2 hmem)
  refine ⟨before.reverse, after.reverse, ?_, by simpa using hafter⟩
  rw [← List.reverse_reverse row.contents, hreverse]
  simp

/-- The left offset of a row is the one that all its format tokens give, added in order, just if an
offset stands behind the last row defaults of the row, or the last one before them is zero or
missing. -/
theorem leftOffset_eq_iff (ts : List Token) (row : Row) (hrow : row ∈ (take ts).1) :
    ∃ before after, row.contents = before ++ .atom .rowDefaults :: after ∧
      .atom .rowDefaults ∉ after ∧
      row.style.rowLeftOffset = (after.filterMap Token.rowLeftOffset?).getLastD 0 ∧
      (row.leftOffset = row.style.rowLeftOffset ↔
        after.filterMap Token.rowLeftOffset? ≠ [] ∨
          (before.filterMap Token.rowLeftOffset?).getLastD 0 = 0) := by
  obtain ⟨before, after, hcontents, hafter⟩ := exists_last_rowDefaults hrow
  have hstyle := rowLeftOffset_style hcontents hafter
  refine ⟨before, after, hcontents, hafter, hstyle, ?_⟩
  rw [hstyle, leftOffset_eq hcontents]
  cases after.filterMap Token.rowLeftOffset? with
  | nil => simp
  | cons offset offsets => exact iff_of_true rfl (.inl (List.cons_ne_nil _ _))

def resetTwice : List Token :=
  [.atom (.rowLeftOffset 100), .atom .rowDefaults, .atom (.rowLeftOffset 50), .atom .rowDefaults,
    .atom (.rowLeftOffset (-20)), .atom (.breakMark .row)]

theorem leftOffset_resetTwice :
    ⟨0, resetTwice⟩ ∈ (take resetTwice).1 ∧
      ∃ before after, resetTwice = before ++ .atom .rowDefaults :: after ∧
        .atom .rowDefaults ∉ after ∧
        (style ⟨0, resetTwice⟩).rowLeftOffset =
          (after.filterMap Token.rowLeftOffset?).getLastD 0 ∧
        (leftOffset ⟨0, resetTwice⟩ = (style ⟨0, resetTwice⟩).rowLeftOffset ↔
          after.filterMap Token.rowLeftOffset? ≠ [] ∨
            (before.filterMap Token.rowLeftOffset?).getLastD 0 = 0) := by
  have hrow : ⟨0, resetTwice⟩ ∈ (take resetTwice).1 := by decide +kernel
  exact ⟨hrow, leftOffset_eq_iff resetTwice ⟨0, resetTwice⟩ hrow⟩

def resetOffset : List Token :=
  [.atom (.rowLeftOffset 100), .atom .rowDefaults, .atom (.rightCellBoundary 1000),
    .atom (.breakMark .row)]

theorem leftOffset_resetOffset :
    (take resetOffset).1.map (fun row => (row.leftOffset, row.style.rowLeftOffset)) =
      [(100, 0)] := by
  decide +kernel

end Row

end RichText
