import RichText.Configuration
import RichText.Proofs.Toml.Quotation
set_option autoImplicit false

namespace RichText

namespace Toml

/-! Line ends -/

theorem returnsEndLines_of_notMem {s : List Char} (h : '\r' ∉ s) : returnsEndLines s = true := by
  induction s with
  | nil => rfl
  | cons c s ih =>
    obtain ⟨hc, hs⟩ : '\r' ≠ c ∧ '\r' ∉ s := by simpa using h
    rw [returnsEndLines]
    · simp [ih hs, Ne.symm hc]
    · rintro rest rfl
      exact absurd rfl hc

theorem notMem_writeChar (lines : Bool) (c : Char) : '\r' ∉ writeChar lines c := by
  obtain ⟨hwrite, _, hcontrol⟩ | ⟨e, hwrite, he, _⟩ | ⟨a, b, hwrite, hnamed⟩ :=
    writeChar_cases lines (c := c)
  · rw [hwrite]
    rintro hmem
    obtain rfl : '\r' = c := by simpa using hmem
    obtain hplain | ⟨_, hline⟩ := hcontrol
    · exact absurd hplain (by decide)
    · exact absurd hline (by decide)
  · rw [hwrite]
    simp only [List.mem_cons, List.not_mem_nil, or_false] at he ⊢
    obtain rfl | rfl | rfl | rfl | rfl | rfl := he
    all_goals decide
  · have hreturn : Text.hexValue? '\r' = none := by decide
    rw [hwrite]
    rintro hmem
    obtain rfl | rfl : '\r' = a ∨ '\r' = b := by simpa using hmem
    all_goals simp [namedChar?, hreturn] at hnamed

theorem notMem_writeBasic (lines : Bool) (n : Nat) (s : List Char) :
    '\r' ∉ writeBasic lines n s := by
  induction s generalizing n with
  | nil => simp [writeBasic]
  | cons c s ih =>
    unfold writeBasic
    split
    · split <;> simp_all
    · simp [ih, notMem_writeChar]

theorem notMem_quote (s : String) : '\r' ∉ quote s := by
  have hfits := fits_quotationOf s.toList
  have hlead : '\r' ∉ leadingLineEnd s.toList := by
    unfold leadingLineEnd
    split <;> simp
  unfold quote
  cases h : quotationOf s.toList with
  | basic => simp [quoteAs, notMem_writeBasic]
  | basicLines => simp [quoteAs, notMem_writeBasic, hlead]
  | literal =>
    rw [h] at hfits
    have hreturn : '\r' ∉ s.toList := fun hmem =>
      absurd (hfits.2 _ hmem).2 (by decide)
    simp [quoteAs, hreturn]
  | literalLines =>
    rw [h] at hfits
    have hreturn : '\r' ∉ s.toList := fun hmem =>
      absurd (hfits.2 _ hmem) (by decide)
    simp [quoteAs, hreturn, hlead]

/-! Lines -/

def StartsStatement (s : List Char) : Prop :=
  ∃ c rest, s = c :: rest ∧ c ≠ '#' ∧ isBlank c = false ∧ c ≠ '\n'

theorem takeStatements?_statement {s rest : List Char} {statement : Statement}
    (hstart : StartsStatement s) (htake : takeStatement? s = some (statement, rest))
    (hend : atLineEnd rest = true) (fuel : Nat) (read : List Statement) :
    takeStatements? (fuel + 1) read s = takeStatements? fuel (statement :: read) rest := by
  obtain ⟨c, after, rfl, hcomment, hblank, hline⟩ := hstart
  have hskip : skipLines false (c :: after) = some (c :: after) := by
    rw [skipLines, if_neg hcomment, hblank]
    simp [hline]
  rw [takeStatements?, hskip]
  dsimp only
  rw [htake]
  simp [hend]

theorem takeStatements?_lineEnd (fuel : Nat) (read : List Statement) (s : List Char) :
    takeStatements? fuel read ('\n' :: s) = takeStatements? fuel read s := by
  have hskip : skipLines false ('\n' :: s) = skipLines false s := by
    rw [skipLines]
    simp
  cases fuel with
  | zero => rfl
  | succ fuel => rw [takeStatements?, takeStatements?, hskip]

/-! Keys -/

def IsBare (name : List Char) : Prop := name.isEmpty = false ∧ name.all isBareChar = true

instance (name : List Char) : Decidable (IsBare name) := inferInstanceAs (Decidable (_ ∧ _))

theorem ne_of_isBareChar {c d : Char} (hc : isBareChar c = true) (hd : isBareChar d = false) :
    c ≠ d := by
  rintro rfl
  simp [hc] at hd

theorem IsBare.head {name : List Char} (h : IsBare name) :
    ∃ c rest, name = c :: rest ∧ isBareChar c = true := by
  obtain ⟨hne, hchars⟩ := h
  cases name with
  | nil => simp at hne
  | cons c rest => exact ⟨c, rest, rfl, List.all_eq_true.1 hchars c List.mem_cons_self⟩

theorem isBlank_of_isBareChar {c : Char} (h : isBareChar c = true) : isBlank c = false := by
  have hspace : c ≠ ' ' := ne_of_isBareChar h (by decide)
  have htab : c ≠ '\t' := ne_of_isBareChar h (by decide)
  have hreturn : c ≠ '\r' := ne_of_isBareChar h (by decide)
  simp [isBlank, hspace, htab, hreturn]

theorem takeName?_bare {name rest : List Char} (hname : IsBare name)
    (hrest : ∀ c, rest.head? = some c → isBareChar c = false) :
    takeName? (name ++ rest) = some (String.ofList name, rest) := by
  obtain ⟨c, after, hcons, hc⟩ := hname.head
  have hspan : (name ++ rest).takeWhile isBareChar = name ∧
      (name ++ rest).dropWhile isBareChar = rest := by
    rw [List.takeWhile_append_of_pos (List.all_eq_true.1 hname.2),
      List.dropWhile_append_of_pos (List.all_eq_true.1 hname.2)]
    cases rest with
    | nil => simp
    | cons d rest => simp [hrest d rfl]
  rw [takeName?]
  · rw [hspan.1, hspan.2, hcons]
  · intro rest h
    exact ne_of_isBareChar hc (by decide) (List.cons.inj (hcons ▸ h)).1
  · intro rest h
    exact ne_of_isBareChar hc (by decide) (List.cons.inj (hcons ▸ h)).1

theorem takeKey?_bare {name : List Char} (hname : IsBare name) (rest : List Char)
    (hrest : ∀ c, rest.head? = some c → isBareChar c = false)
    (hdot : (rest.dropWhile isBlank).head? ≠ some '.') (fuel : Nat) :
    takeKey? (fuel + 1) (name ++ rest) =
      some ({ last := String.ofList name }, rest.dropWhile isBlank) := by
  obtain ⟨c, after, hcons, hc⟩ := hname.head
  have hblank : (name ++ rest).dropWhile isBlank = name ++ rest := by
    simp [hcons, isBlank_of_isBareChar hc]
  rw [takeKey?, hblank, takeName?_bare hname hrest]
  dsimp only
  split
  · rename_i h
    simp [h] at hdot
  · rfl

/-! Values -/

theorem quote_head (s : String) :
    ∃ rest, quote s = '"' :: rest ∨ quote s = '\x27' :: rest := by
  unfold quote
  cases quotationOf s.toList with
  | basic | basicLines => exact ⟨_, .inl rfl⟩
  | literal | literalLines => exact ⟨_, .inr rfl⟩

theorem takeValue?_quote (s : String) {rest : List Char} (hbasic : rest.head? ≠ some '"')
    (hliteral : rest.head? ≠ some '\x27') (fuel depth : Nat) :
    takeValue? (fuel + 1) depth (quote s ++ rest) = some (.string s, rest) := by
  have htake := takeString?_quote s hbasic hliteral
  obtain ⟨after, h | h⟩ := quote_head s
  all_goals
    rw [h] at htake ⊢
    simp only [List.cons_append] at htake ⊢
    simp [takeValue?, htake]

/-! Statements -/

/-- A value whose text is followed by the end of its line. -/
def IsWritten (s : List Char) (value : Toml) : Prop :=
  (∃ c after, s = c :: after ∧ isBlank c = false) ∧
    ∀ fuel rest, takeValue? (fuel + 1) maxDepth (s ++ '\n' :: rest) = some (value, '\n' :: rest)

theorem isWritten_quote (s : String) : IsWritten (quote s) (.string s) := by
  obtain ⟨after, h⟩ := quote_head s
  refine ⟨?_, fun fuel rest => takeValue?_quote s (by simp) (by simp) fuel maxDepth⟩
  obtain h | h := h
  · exact ⟨_, after, h, by decide⟩
  · exact ⟨_, after, h, by decide⟩

theorem takeWord?_lineEnd (word : List Char) {value : Toml}
    (hchars : word.all isWordChar = true) (hvalue : ofWord? word = some value)
    (rest : List Char) : takeWord? (word ++ '\n' :: rest) = some (value, '\n' :: rest) := by
  have hline : isWordChar '\n' = false := by decide
  have hspan : spanWord (word ++ '\n' :: rest) = (word, '\n' :: rest) := by
    unfold spanWord
    rw [List.takeWhile_append_of_pos (List.all_eq_true.1 hchars),
      List.dropWhile_append_of_pos (List.all_eq_true.1 hchars),
      List.takeWhile_cons_of_neg (by simp [hline]), List.dropWhile_cons_of_neg (by simp [hline]),
      List.append_nil]
    rfl
  rw [takeWord?, hspan]
  dsimp only
  rw [hvalue]
  rfl

theorem isWritten_booleanText (b : Bool) :
    IsWritten (Configuration.booleanText b).toList (.boolean b) := by
  have hfalse : (Configuration.booleanText false).toList = ['f', 'a', 'l', 's', 'e'] := by
    decide +kernel
  have htrue : (Configuration.booleanText true).toList = ['t', 'r', 'u', 'e'] := by
    decide +kernel
  cases b with
  | false =>
    rw [hfalse]
    refine ⟨⟨_, _, rfl, by decide⟩, fun fuel rest => ?_⟩
    exact takeWord?_lineEnd ['f', 'a', 'l', 's', 'e'] (by decide) rfl rest
  | true =>
    rw [htrue]
    refine ⟨⟨_, _, rfl, by decide⟩, fun fuel rest => ?_⟩
    exact takeWord?_lineEnd ['t', 'r', 'u', 'e'] (by decide) rfl rest

def assignment (name value : List Char) : List Char :=
  name ++ ' ' :: '=' :: ' ' :: (value ++ ['\n'])

theorem startsStatement_bare {name : List Char} (hname : IsBare name) (rest : List Char) :
    StartsStatement (name ++ rest) := by
  obtain ⟨c, after, rfl, hc⟩ := hname.head
  exact ⟨c, after ++ rest, rfl, ne_of_isBareChar hc (by decide), isBlank_of_isBareChar hc,
    ne_of_isBareChar hc (by decide)⟩

theorem takeKeyEquals?_bare {name : List Char} (hname : IsBare name) (rest : List Char) :
    takeKeyEquals? (name ++ ' ' :: '=' :: ' ' :: rest) =
      some ({ last := String.ofList name }, rest.dropWhile isBlank) := by
  have hkey := takeKey?_bare hname (' ' :: '=' :: ' ' :: rest) (by simp; decide)
    (by simp [isBlank]) (name ++ ' ' :: '=' :: ' ' :: rest).length
  rw [takeKeyEquals?, hkey]
  simp [isBlank]

theorem takeStatement?_assignment {name s : List Char} {value : Toml} (hname : IsBare name)
    (hwritten : IsWritten s value) (rest : List Char) :
    takeStatement? (assignment name s ++ rest) =
      some (.assign { last := String.ofList name } value, '\n' :: rest) := by
  obtain ⟨⟨d, value', hs, hblank⟩, hvalue⟩ := hwritten
  obtain ⟨c, after, hcons, hc⟩ := hname.head
  have hdrop : (s ++ '\n' :: rest).dropWhile isBlank = s ++ '\n' :: rest := by
    simp [hs, hblank]
  have hkey := takeKeyEquals?_bare hname (s ++ '\n' :: rest)
  have hline : assignment name s ++ rest = name ++ ' ' :: '=' :: ' ' :: (s ++ '\n' :: rest) := by
    simp [assignment]
  have hbracket : c ≠ '[' := ne_of_isBareChar hc (by decide)
  rw [hline, takeStatement?]
  · rw [hkey, hdrop]
    dsimp only
    rw [hvalue]
    rfl
  · simp [hcons, hbracket]
  · simp [hcons, hbracket]

theorem takeStatements?_assignment {name s : List Char} {value : Toml} (hname : IsBare name)
    (hwritten : IsWritten s value) (fuel : Nat) (read : List Statement) (rest : List Char) :
    takeStatements? (fuel + 1) read (assignment name s ++ rest) =
      takeStatements? fuel (.assign { last := String.ofList name } value :: read) rest := by
  have hstart : StartsStatement (assignment name s ++ rest) := by
    rw [assignment, List.append_assoc]
    exact startsStatement_bare hname _
  rw [takeStatements?_statement hstart (takeStatement?_assignment hname hwritten rest) rfl,
    takeStatements?_lineEnd]

theorem takeStatements?_header {name : List Char} (hname : IsBare name) (fuel : Nat)
    (read : List Statement) (rest : List Char) :
    takeStatements? (fuel + 1) read ('[' :: (name ++ ']' :: '\n' :: rest)) =
      takeStatements? fuel (.header { last := String.ofList name } :: read) rest := by
  obtain ⟨c, after, hcons, hc⟩ := hname.head
  have hbracket : c ≠ '[' := ne_of_isBareChar hc (by decide)
  have hkey := takeKey?_bare hname (']' :: '\n' :: rest) (by simp; decide)
    (by simp [isBlank]) (after ++ '\n' :: rest).length.succ
  have hlength : (name ++ ']' :: '\n' :: rest).length =
      (after ++ '\n' :: rest).length.succ + 1 := by
    simp only [hcons, List.length_append, List.length_cons]
    omega
  have htake : takeStatement? ('[' :: (name ++ ']' :: '\n' :: rest)) =
      some (.header { last := String.ofList name }, '\n' :: rest) := by
    rw [takeStatement?]
    · rw [hlength, hkey]
      simp [isBlank]
    · simp [hcons, hbracket]
  have hstart : StartsStatement ('[' :: (name ++ ']' :: '\n' :: rest)) :=
    ⟨'[', _, rfl, by decide, by decide, by decide⟩
  rw [takeStatements?_statement hstart htake rfl, takeStatements?_lineEnd]

theorem Table.parse?_cons {s : String} {c : Char} {rest : List Char} (h : s.toList = c :: rest)
    (hmark : c ≠ '\ufeff') :
    Table.parse? s = if returnsEndLines (c :: rest) then
      (takeStatements? ((c :: rest).length + 1) [] (c :: rest)).bind Table.ofStatements?
    else none := by
  unfold Table.parse?
  rw [h]
  split
  · rename_i hcons
    exact absurd (List.cons.inj hcons).1 hmark
  · rfl

end Toml

namespace Configuration

open Toml

theorem toList_renderText (render : RenderSettings) :
    (renderText render).toList = '[' :: ("render".toList ++ ']' :: '\n' ::
      (assignment "embed_pictures".toList (booleanText render.embedPictures).toList ++
        (assignment "wrap_in_div".toList (booleanText render.wrapInDiv).toList ++
          assignment "emit_bookmarks".toList (booleanText render.emitBookmarks).toList))) := by
  have hembed : "[render]\nembed_pictures = ".toList = '[' :: ("render".toList ++ ']' :: '\n' ::
      ("embed_pictures".toList ++ [' ', '=', ' '])) := by decide +kernel
  have hwrap : "\nwrap_in_div = ".toList = '\n' :: ("wrap_in_div".toList ++ [' ', '=', ' ']) := by
    decide +kernel
  have hemit : "\nemit_bookmarks = ".toList =
      '\n' :: ("emit_bookmarks".toList ++ [' ', '=', ' ']) := by decide +kernel
  have hend : "\n".toList = ['\n'] := by decide +kernel
  unfold renderText
  simp only [String.toList_append, hembed, hwrap, hemit, hend, assignment, List.append_assoc,
    List.cons_append, List.nil_append]

def renderStatements (render : RenderSettings) : List Statement :=
  [.header { last := "render" },
    .assign { last := "embed_pictures" } (.boolean render.embedPictures),
    .assign { last := "wrap_in_div" } (.boolean render.wrapInDiv),
    .assign { last := "emit_bookmarks" } (.boolean render.emitBookmarks)]

theorem takeStatements?_renderText (render : RenderSettings) (fuel : Nat)
    (read : List Statement) :
    takeStatements? (fuel + 5) read (renderText render).toList =
      some (read.reverse ++ renderStatements render) := by
  have hembed := isWritten_booleanText render.embedPictures
  have hwrap := isWritten_booleanText render.wrapInDiv
  have hemit := isWritten_booleanText render.emitBookmarks
  have hlast := List.append_nil
    (assignment "emit_bookmarks".toList (booleanText render.emitBookmarks).toList)
  have hrender : IsBare "render".toList := by decide +kernel
  have hbare : IsBare "embed_pictures".toList ∧ IsBare "wrap_in_div".toList ∧
      IsBare "emit_bookmarks".toList := by decide +kernel
  rw [toList_renderText, ← hlast, takeStatements?_header hrender,
    takeStatements?_assignment hbare.1 hembed, takeStatements?_assignment hbare.2.1 hwrap,
    takeStatements?_assignment hbare.2.2 hemit]
  simp [renderStatements, takeStatements?, skipLines]

theorem toList_write_some (dir : Path) (render : RenderSettings) :
    (write { outputDirectory := some dir, render := render }).toList =
      assignment "output_dir".toList (quote dir.text) ++ '\n' :: (renderText render).toList := by
  have hname : "output_dir = ".toList = "output_dir".toList ++ [' ', '=', ' '] := by decide +kernel
  simp only [write, assignment, String.toList_append, String.toList_ofList, hname]
  simp

def statements (config : Configuration) : List Statement :=
  (config.outputDirectory.map fun dir =>
    Statement.assign { last := "output_dir" } (.string dir.text)).toList ++
    renderStatements config.render

theorem takeStatements?_write (config : Configuration) (fuel : Nat) :
    takeStatements? (fuel + 6) [] config.write.toList = some config.statements := by
  obtain ⟨outputDirectory, render⟩ := config
  cases outputDirectory with
  | none => exact takeStatements?_renderText render (fuel + 1) []
  | some dir =>
    have hbare : IsBare "output_dir".toList := by decide +kernel
    rw [toList_write_some, takeStatements?_assignment hbare (isWritten_quote dir.text),
      takeStatements?_lineEnd, takeStatements?_renderText]
    simp [statements]

theorem ofTable?_statements (config : Configuration) :
    (Table.ofStatements? config.statements).bind ofTable? = some config := by
  obtain ⟨outputDirectory, render⟩ := config
  cases outputDirectory <;> rfl

theorem notMem_write (config : Configuration) : '\r' ∉ config.write.toList := by
  have hbooleans : ∀ b, '\r' ∉ (booleanText b).toList := by decide +kernel
  have hrender : ∀ render : RenderSettings, '\r' ∉ (renderText render).toList := by
    intro render
    simp [toList_renderText, assignment, hbooleans]
  obtain ⟨outputDirectory, render⟩ := config
  cases outputDirectory with
  | none => exact hrender render
  | some dir =>
    rw [toList_write_some]
    simp [assignment, hrender, notMem_quote]

theorem write_head (config : Configuration) :
    ∃ c rest, config.write.toList = c :: rest ∧ c ≠ '\ufeff' ∧ 4 ≤ rest.length := by
  obtain ⟨outputDirectory, render⟩ := config
  cases outputDirectory with
  | none =>
    exact ⟨_, _, toList_renderText render, by decide, by simp⟩
  | some dir =>
    have hname : "output_dir".toList = 'o' :: "utput_dir".toList := by decide +kernel
    rw [toList_write_some, assignment, hname]
    exact ⟨_, _, rfl, by decide, by simp⟩

/-- What is written of a configuration is read back. -/
theorem parse?_write (config : Configuration) : parse? config.write = some config := by
  obtain ⟨c, rest, hcons, hmark, hlength⟩ := config.write_head
  obtain ⟨fuel, hfuel⟩ := Nat.exists_eq_add_of_le hlength
  have hread := config.takeStatements?_write fuel
  have hreturns := returnsEndLines_of_notMem config.notMem_write
  rw [hcons] at hread hreturns
  have hsteps : (c :: rest).length + 1 = fuel + 6 := by
    simp only [List.length_cons]
    omega
  have htable : Table.parse? config.write = Table.ofStatements? config.statements := by
    rw [Table.parse?_cons hcons hmark, if_pos hreturns, hsteps, hread]
    rfl
  rw [parse?, htable, ofTable?_statements]

end Configuration

end RichText
