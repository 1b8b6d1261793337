import RichText.Json.Parser
set_option autoImplicit false

namespace RichText.Json

/-- The values that are written: their numbers are integers, their strings and keys are texts. -/
inductive Canonical : Json → Prop where
  | null : Canonical .null
  | bool (b : Bool) : Canonical (.bool b)
  | int (n : Int) : Canonical (ofInt n)
  | text (s : String) : Canonical (ofText s)
  | array {items : List Json} (h : ∀ item ∈ items, Canonical item) : Canonical (.array items)
  | members {members : List (String × Json)} (h : ∀ m ∈ members, Canonical m.2) :
    Canonical (ofMembers members)

/-! Words -/

mutual

def lexemes : Json → List Lexeme
  | .null => [.null]
  | .bool b => [.bool b]
  | .number lexeme => [.number lexeme]
  | .string raw => [.string raw]
  | .array items => .leftBracket :: (itemLexemes items ++ [.rightBracket])
  | .object members => .leftBrace :: (memberLexemes members ++ [.rightBrace])

def itemLexemes : List Json → List Lexeme
  | [] => []
  | [item] => item.lexemes
  | item :: items => item.lexemes ++ .comma :: itemLexemes items

def memberLexemes : List (List Char × Json) → List Lexeme
  | [] => []
  | [(key, value)] => .string key :: .colon :: value.lexemes
  | (key, value) :: members =>
    .string key :: .colon :: (value.lexemes ++ .comma :: memberLexemes members)

end

namespace Lexeme

/-- Reading goes through the words `ls` of the text `s` and leaves `rest`. -/
def Through (s : List Char) (ls : List Lexeme) (rest : List Char) : Prop :=
  ∀ fuel read, s.length ≤ fuel →
    ∃ fuel', rest.length ≤ fuel' ∧ readAll fuel read s = readAll fuel' (ls.reverse ++ read) rest

theorem Through.refl (s : List Char) : Through s [] s := fun fuel _ hfuel => ⟨fuel, hfuel, rfl⟩

theorem Through.trans {s s' s'' : List Char} {ls ls' : List Lexeme} (h : Through s ls s')
    (h' : Through s' ls' s'') : Through s (ls ++ ls') s'' := by
  intro fuel read hfuel
  obtain ⟨fuel₁, hfuel₁, hread₁⟩ := h fuel read hfuel
  obtain ⟨fuel₂, hfuel₂, hread₂⟩ := h' fuel₁ (ls.reverse ++ read) hfuel₁
  refine ⟨fuel₂, hfuel₂, ?_⟩
  rw [hread₁, hread₂, List.reverse_append, List.append_assoc]

theorem Through.of_take? {c : Char} {s rest : List Char} {l : Lexeme} (hblank : isBlank c = false)
    (htake : take? (c :: s) = some (l, rest)) (hlength : rest.length ≤ s.length) :
    Through (c :: s) [l] rest := by
  intro fuel read hfuel
  cases fuel with
  | zero => simp at hfuel
  | succ fuel =>
    refine ⟨fuel, by simp at hfuel; omega, ?_⟩
    simp [readAll, hblank, htake]

theorem ofChars_of_through {s : List Char} {ls : List Lexeme} (h : Through s ls []) :
    ofChars s = some ls := by
  obtain ⟨fuel, -, hread⟩ := h s.length [] (Nat.le_refl _)
  rw [ofChars, hread]
  simp [readAll]

theorem take?_punctuation {c : Char} {l : Lexeme} (h : punctuation? c = some l)
    (rest : List Char) : take? (c :: rest) = some (l, rest) := by
  unfold take?
  split <;> simp_all [punctuation?]

theorem through_punctuation {c : Char} {l : Lexeme} (hblank : isBlank c = false)
    (h : punctuation? c = some l) (rest : List Char) : Through (c :: rest) [l] rest :=
  .of_take? hblank (take?_punctuation h rest) (Nat.le_refl _)

/-! Strings -/

theorem takeString?_escapeChar (c : Char) (read rest : List Char) :
    takeString? read (escapeChar c ++ rest) =
      takeString? ((escapeChar c).reverse ++ read) rest := by
  unfold escapeChar
  split
  · rename_i h
    rcases (by simpa using h : c = '"' ∨ c = '\\') with rfl | rfl <;> rfl
  split
  · rfl
  split
  · rfl
  split
  · rfl
  split
  · rfl
  split
  · rfl
  split
  · rename_i hlt
    have hhex : ∀ n, n < 16 → isHexDigit n.digitChar = true := by
      intro n hn
      rw [isHexDigit, Text.hexValue?_digitChar n hn, Option.isSome_some]
    generalize UInt8.ofNat c.toNat = b
    have hb := b.toNat_lt
    have hhigh := hhex (b.toNat / 16) (by omega)
    have hlow := hhex (b.toNat % 16) (by omega)
    have hzero : isHexDigit '0' = true := by decide
    simp only [Text.hexPair, List.cons_append, List.nil_append]
    rw [takeString?]
    simp [hhigh, hlow, hzero]
  · rename_i hquote _ _ _ _ _ hcontrol
    obtain ⟨hquote, hslash⟩ : c ≠ '"' ∧ c ≠ '\\' := by simpa using hquote
    have hstep : takeString? read (c :: rest) =
        if c.toNat < 0x20 || c = '\\' then none else takeString? (c :: read) rest := by
      rw [takeString?.eq_def]
      split <;> simp_all
    rw [List.singleton_append, hstep, if_neg (by simp [hcontrol, hslash])]
    rfl

theorem takeString?_escape (s read rest : List Char) :
    takeString? read (escape s ++ '"' :: rest) = some (read.reverse ++ escape s, rest) := by
  induction s generalizing read with
  | nil => simp [escape, takeString?]
  | cons c s ih =>
    rw [escape, List.flatMap_cons, ← escape, List.append_assoc, takeString?_escapeChar, ih]
    simp

theorem through_text (s : List Char) (rest : List Char) :
    Through ('"' :: (escape s ++ '"' :: rest)) [.string (escape s)] rest := by
  refine .of_take? (by decide) ?_ (by simp; omega)
  simp [take?, takeString?_escape]

/-! Numbers -/

/-- What may follow a number: nothing that could go on with it. -/
def Delimited (rest : List Char) : Prop :=
  ∀ c ∈ rest.head?, c.isDigit = false ∧ c ≠ '.' ∧ c ≠ 'e' ∧ c ≠ 'E'

theorem delimited_cons {c : Char} {rest : List Char}
    (h : c.isDigit = false ∧ c ≠ '.' ∧ c ≠ 'e' ∧ c ≠ 'E') : Delimited (c :: rest) := by
  simpa [Delimited] using h

theorem spanDigits_append {ds rest : List Char} (hds : ∀ c ∈ ds, c.isDigit = true)
    (hrest : Delimited rest) : spanDigits (ds ++ rest) = (ds, rest) := by
  induction ds with
  | nil =>
    cases rest with
    | nil => rfl
    | cons c rest => simp [spanDigits, (hrest c rfl).1]
  | cons c ds ih =>
    have hc := hds c (by simp)
    have hds := ih (fun d hd => hds d (by simp [hd]))
    simp only [spanDigits, Prod.mk.injEq] at hds
    simp [spanDigits, hc, hds]

theorem takeFraction?_of_delimited {rest : List Char} (h : Delimited rest) :
    takeFraction? rest = some ([], rest) := by
  unfold takeFraction?
  split
  · exact absurd rfl (h '.' rfl).2.1
  · rfl

theorem takeExponent?_of_delimited {rest : List Char} (h : Delimited rest) :
    takeExponent? rest = some ([], rest) := by
  cases rest with
  | nil => rfl
  | cons c rest => simp [takeExponent?, (h c rfl).2.2]

end Lexeme

theorem head?_toDigits {n : Nat} (h : 0 < n) : (Nat.toDigits 10 n).head? ≠ some '0' := by
  induction n using Nat.strongRecOn with
  | ind n ih =>
    by_cases hn : n < 10
    · have hdigit : ∀ n, n < 10 → 0 < n → n.digitChar ≠ '0' := by decide
      simpa [Nat.toDigits_of_lt_base hn] using hdigit n hn h
    · have hfront := ih (n / 10) (by omega) (by omega)
      obtain ⟨c, cs, hcs⟩ := List.exists_cons_of_ne_nil
        (Nat.toDigits_ne_nil (n := n / 10) (b := 10))
      rw [hcs] at hfront
      rw [Nat.toDigits_of_base_le (by decide) (by omega), hcs]
      exact hfront

theorem isDigit_toDigits (n : Nat) : ∀ c ∈ Nat.toDigits 10 n, c.isDigit = true := fun _ hc =>
  Nat.isDigit_of_mem_toDigits (by decide) (by decide) hc

namespace Lexeme

theorem takeIntegral?_toDigits (n : Nat) {rest : List Char} (h : Delimited rest) :
    takeIntegral? (Nat.toDigits 10 n ++ rest) = some (Nat.toDigits 10 n, rest) := by
  obtain rfl | hn := Nat.eq_zero_or_pos n
  · rfl
  have hspan := spanDigits_append (isDigit_toDigits n) h
  have hhead := head?_toDigits hn
  obtain ⟨c, cs, hcs⟩ := List.exists_cons_of_ne_nil (Nat.toDigits_ne_nil (n := n) (b := 10))
  rw [hcs] at hspan hhead ⊢
  unfold takeIntegral?
  split
  · simp_all
  · rw [hspan]

theorem takeNumber?_toDigits (n : Nat) {rest : List Char} (h : Delimited rest) :
    takeNumber? (Nat.toDigits 10 n ++ rest) = some (Nat.toDigits 10 n, rest) := by
  have hintegral := takeIntegral?_toDigits n h
  have hdigit := isDigit_toDigits n
  obtain ⟨c, cs, hcs⟩ := List.exists_cons_of_ne_nil (Nat.toDigits_ne_nil (n := n) (b := 10))
  rw [hcs] at hintegral hdigit ⊢
  have hsign : c ≠ '-' := by
    rintro rfl
    exact absurd (hdigit '-' (by simp)) (by decide)
  unfold takeNumber?
  split
  simp_all [takeFraction?_of_delimited h, takeExponent?_of_delimited h]

theorem takeNumber?_ofInt (n : Int) {rest : List Char} (h : Delimited rest) :
    takeNumber? ((ofInt n).chars ++ rest) = some ((ofInt n).chars, rest) := by
  unfold ofInt
  split
  · have hdigits := takeIntegral?_toDigits n.natAbs h
    simp [chars, takeNumber?, hdigits, takeFraction?_of_delimited h, takeExponent?_of_delimited h]
  · exact takeNumber?_toDigits n.natAbs h

theorem ne_of_startsNumber {c d : Char} (hc : c.isDigit = true ∨ c = '-')
    (hd : d.isDigit = false ∧ d ≠ '-') : c ≠ d := by
  rintro rfl
  simp_all

theorem take?_number {c : Char} {s lexeme rest : List Char} (hc : c.isDigit = true ∨ c = '-')
    (h : takeNumber? (c :: s) = some (lexeme, rest)) :
    take? (c :: s) = some (.number lexeme, rest) := by
  have hquote : c ≠ '"' := ne_of_startsNumber hc (by decide)
  have hnull : c ≠ 'n' := ne_of_startsNumber hc (by decide)
  have htrue : c ≠ 't' := ne_of_startsNumber hc (by decide)
  have hfalse : c ≠ 'f' := ne_of_startsNumber hc (by decide)
  have hpunctuation : punctuation? c = none := by
    have hbracket : c ≠ '[' ∧ c ≠ ']' :=
      ⟨ne_of_startsNumber hc (by decide), ne_of_startsNumber hc (by decide)⟩
    have hbrace : c ≠ '\x7b' ∧ c ≠ '\x7d' :=
      ⟨ne_of_startsNumber hc (by decide), ne_of_startsNumber hc (by decide)⟩
    have hseparator : c ≠ ',' ∧ c ≠ ':' :=
      ⟨ne_of_startsNumber hc (by decide), ne_of_startsNumber hc (by decide)⟩
    simp [punctuation?, hbracket, hbrace, hseparator]
  unfold take?
  split <;> simp_all

theorem exists_cons_ofInt (n : Int) :
    ∃ c cs, (ofInt n).chars = c :: cs ∧ (c.isDigit = true ∨ c = '-') := by
  unfold ofInt
  split
  · exact ⟨'-', _, rfl, .inr rfl⟩
  · have hdigit := isDigit_toDigits n.natAbs
    obtain ⟨c, cs, hcs⟩ := List.exists_cons_of_ne_nil
      (Nat.toDigits_ne_nil (n := n.natAbs) (b := 10))
    exact ⟨c, cs, hcs, .inl (hdigit c (by simp [hcs]))⟩

theorem through_ofInt (n : Int) {rest : List Char} (h : Delimited rest) :
    Through ((ofInt n).chars ++ rest) (ofInt n).lexemes rest := by
  have hnumber := takeNumber?_ofInt n h
  obtain ⟨c, cs, hcs, hc⟩ := exists_cons_ofInt n
  rw [hcs] at hnumber ⊢
  have hblank : isBlank c = false := by
    have hspace : c ≠ ' ' ∧ c ≠ '\t' :=
      ⟨ne_of_startsNumber hc (by decide), ne_of_startsNumber hc (by decide)⟩
    have hline : c ≠ '\n' ∧ c ≠ '\r' :=
      ⟨ne_of_startsNumber hc (by decide), ne_of_startsNumber hc (by decide)⟩
    simp [isBlank, hspace, hline]
  have hlexemes : (ofInt n).lexemes = [.number (c :: cs)] := by
    rw [← hcs]
    unfold ofInt
    rfl
  rw [hlexemes]
  exact .of_take? hblank (take?_number hc hnumber) (by simp)

/-! Values -/

/-- Reading goes through all the words of a value, whatever follows that cannot go on with it. -/
def Reads (value : Json) : Prop :=
  ∀ rest, Delimited rest → Through (value.chars ++ rest) value.lexemes rest

theorem through_comma (rest : List Char) : Through (',' :: rest) [.comma] rest :=
  through_punctuation (by decide) rfl rest

theorem through_items {items : List Json} (h : ∀ item ∈ items, Reads item) {rest : List Char}
    (hrest : Delimited rest) : Through (itemChars items ++ rest) (itemLexemes items) rest := by
  induction items with
  | nil => exact .refl _
  | cons item items ih =>
    have hitem := h item (by simp)
    have hitems := ih (fun i hi => h i (by simp [hi]))
    cases items with
    | nil => exact hitem rest hrest
    | cons item' items =>
      have hcomma : Delimited (',' :: (itemChars (item' :: items) ++ rest)) :=
        delimited_cons (by decide)
      simpa [itemChars, itemLexemes] using
        (hitem _ hcomma).trans ((through_comma _).trans hitems)

theorem through_members {members : List (String × Json)} (h : ∀ m ∈ members, Reads m.2)
    {rest : List Char} (hrest : Delimited rest) :
    Through (memberChars (members.map fun (key, value) => (escape key.toList, value)) ++ rest)
      (memberLexemes (members.map fun (key, value) => (escape key.toList, value))) rest := by
  induction members with
  | nil => exact .refl _
  | cons m members ih =>
    obtain ⟨key, value⟩ := m
    have hvalue := h (key, value) (by simp)
    have hmembers := ih (fun m hm => h m (by simp [hm]))
    have hcolon : ∀ after, Through (':' :: after) [.colon] after :=
      through_punctuation (by decide) rfl
    cases members with
    | nil =>
      simpa [memberChars, memberLexemes] using
        (through_text key.toList _).trans ((hcolon _).trans (hvalue rest hrest))
    | cons m' members =>
      have hcomma : Delimited (',' :: (memberChars ((m' :: members).map
          fun (key, value) => (escape key.toList, value)) ++ rest)) := delimited_cons (by decide)
      simpa [memberChars, memberLexemes] using
        (through_text key.toList _).trans
          ((hcolon _).trans ((hvalue _ hcomma).trans ((through_comma _).trans hmembers)))

theorem reads_of_canonical {value : Json} (h : Canonical value) : Reads value := by
  intro rest hrest
  induction h generalizing rest with
  | null => exact .of_take? (by decide) rfl (by simp; omega)
  | bool b => cases b <;> exact .of_take? (by decide) rfl (by simp; omega)
  | int n => exact through_ofInt n hrest
  | text s => simpa [ofText, chars, lexemes] using through_text s.toList rest
  | array _ ih =>
    have hopen := through_punctuation (c := '[') (l := .leftBracket) (by decide) rfl
    have hclose := through_punctuation (c := ']') (l := .rightBracket) (by decide) rfl rest
    have hend : Delimited (']' :: rest) := delimited_cons (by decide)
    have hitems := through_items ih hend
    simpa [chars, lexemes] using (hopen _).trans (hitems.trans hclose)
  | members _ ih =>
    have hopen := through_punctuation (c := '\x7b') (l := .leftBrace) (by decide) rfl
    have hclose := through_punctuation (c := '\x7d') (l := .rightBrace) (by decide) rfl rest
    have hend : Delimited ('\x7d' :: rest) := delimited_cons (by decide)
    have hmembers := through_members ih hend
    simpa [ofMembers, chars, lexemes] using (hopen _).trans (hmembers.trans hclose)

theorem ofChars_chars {value : Json} (h : Canonical value) :
    ofChars value.chars = some value.lexemes := by
  have hthrough := reads_of_canonical h [] (by simp [Delimited])
  rw [List.append_nil] at hthrough
  exact ofChars_of_through hthrough

end Lexeme

/-! Containers -/

section Reading

variable {value : Json} {stack : List Frame} {rest : List Lexeme}

theorem lexemes_eq_cons (value : Json) :
    ∃ l ls, value.lexemes = l :: ls ∧ l ≠ .rightBracket := by
  cases value <;> exact ⟨_, _, rfl, by simp⟩

def Leads (value : Json) : Prop :=
  ∀ stack rest, readFrom .value stack (value.lexemes ++ rest) = readFrom (.after value) stack rest

/-! What a word does to the containers that are open -/

theorem readFrom_after (value : Json) : readFrom (.after value) [] [] = some value := rfl

theorem readFrom_nextItem (value : Json) (items : List Json) :
    readFrom (.after value) (.array items :: stack) (.comma :: rest) =
      readFrom .value (.array (value :: items) :: stack) rest := rfl

theorem readFrom_rightBracket (value : Json) (items : List Json) :
    readFrom (.after value) (.array items :: stack) (.rightBracket :: rest) =
      readFrom (.after (.array (value :: items).reverse)) stack rest := rfl

theorem readFrom_nextMember (value : Json) (members : List (List Char × Json)) (key : List Char) :
    readFrom (.after value) (.object members key :: stack) (.comma :: rest) =
      readFrom (.key ((key, value) :: members)) stack rest := rfl

theorem readFrom_rightBrace (value : Json) (members : List (List Char × Json)) (key : List Char) :
    readFrom (.after value) (.object members key :: stack) (.rightBrace :: rest) =
      readFrom (.after (.object ((key, value) :: members).reverse)) stack rest := rfl

theorem readFrom_key (members : List (List Char × Json)) (key : List Char) :
    readFrom (.key members) stack (.string key :: .colon :: rest) =
      readFrom .value (.object members key :: stack) rest := rfl

theorem readFrom_leftBracket :
    readFrom .value stack (.leftBracket :: rest) = readFrom .itemOrEnd stack rest := rfl

theorem readFrom_leftBrace (key : List Char) :
    readFrom .value stack (.leftBrace :: .string key :: rest) =
      readFrom (.key []) stack (.string key :: rest) := by
  cases rest with
  | nil => rfl
  | cons l rest => cases l <;> rfl

theorem readFrom_itemOrEnd {l : Lexeme} (h : l ≠ .rightBracket) :
    readFrom .itemOrEnd stack (l :: rest) = readFrom .value (.array [] :: stack) (l :: rest) := by
  cases l <;> first | exact absurd rfl h | rfl

theorem readFrom_items {items : List Json} (h : ∀ item ∈ items, Leads item) {item : Json}
    (hitem : Leads item) (before : List Json) :
    readFrom .value (.array before :: stack)
        (itemLexemes (item :: items) ++ .rightBracket :: rest) =
      readFrom (.after (.array (before.reverse ++ item :: items))) stack rest := by
  induction items generalizing item before with
  | nil =>
    rw [itemLexemes, hitem, readFrom_rightBracket, List.reverse_cons]
  | cons item' items ih =>
    have hitems := ih (fun i hi => h i (by simp [hi])) (h item' (by simp)) (item :: before)
    have hwords : itemLexemes (item :: item' :: items) =
        item.lexemes ++ .comma :: itemLexemes (item' :: items) := by simp [itemLexemes]
    rw [hwords, List.append_assoc, hitem, List.cons_append, readFrom_nextItem, hitems,
      List.reverse_cons, List.append_assoc, List.singleton_append]

theorem readFrom_members {members : List (List Char × Json)} (h : ∀ m ∈ members, Leads m.2)
    (key : List Char) {value : Json} (hvalue : Leads value) (before : List (List Char × Json)) :
    readFrom (.key before) stack (memberLexemes ((key, value) :: members) ++ .rightBrace :: rest) =
      readFrom (.after (.object (before.reverse ++ (key, value) :: members))) stack rest := by
  induction members generalizing key value before with
  | nil =>
    simp only [memberLexemes, List.cons_append]
    rw [readFrom_key, hvalue, readFrom_rightBrace, List.reverse_cons]
  | cons m members ih =>
    have hmembers := ih (fun m hm => h m (by simp [hm])) m.1 (h m (by simp))
      ((key, value) :: before)
    have hwords : memberLexemes ((key, value) :: m :: members) =
        .string key :: .colon :: (value.lexemes ++ .comma :: memberLexemes (m :: members)) := by
      simp [memberLexemes]
    simp only [hwords, List.cons_append, List.append_assoc]
    rw [readFrom_key, hvalue, readFrom_nextMember, hmembers, List.reverse_cons,
      List.append_assoc, List.singleton_append]

theorem leads_array {items : List Json} (h : ∀ item ∈ items, Leads item) :
    Leads (.array items) := by
  intro stack rest
  cases items with
  | nil => rfl
  | cons item items =>
    have hitems : ∀ i ∈ items, Leads i := fun i hi => h i (by simp [hi])
    obtain ⟨l, ls, hwords, hne⟩ : ∃ l ls, itemLexemes (item :: items) = l :: ls ∧
        l ≠ .rightBracket := by
      obtain ⟨l, ls, hwords, hne⟩ := lexemes_eq_cons item
      cases items <;> exact ⟨l, _, by simp only [itemLexemes, hwords, List.cons_append]; rfl, hne⟩
    calc readFrom .value stack ((Json.array (item :: items)).lexemes ++ rest)
        = readFrom .itemOrEnd stack (itemLexemes (item :: items) ++ .rightBracket :: rest) := by
          simp [lexemes, readFrom_leftBracket]
      _ = readFrom .value (.array [] :: stack)
            (itemLexemes (item :: items) ++ .rightBracket :: rest) := by
          rw [hwords, List.cons_append, readFrom_itemOrEnd hne]
      _ = readFrom (.after (.array (item :: items))) stack rest :=
          readFrom_items hitems (h item (by simp)) []

theorem leads_object {members : List (List Char × Json)} (h : ∀ m ∈ members, Leads m.2) :
    Leads (.object members) := by
  intro stack rest
  cases members with
  | nil => rfl
  | cons m members =>
    have hmembers : ∀ m ∈ members, Leads m.2 := fun m hm => h m (by simp [hm])
    obtain ⟨ls, hwords⟩ : ∃ ls, memberLexemes (m :: members) = .string m.1 :: ls := by
      cases members <;> exact ⟨_, by simp only [memberLexemes]; rfl⟩
    calc readFrom .value stack ((Json.object (m :: members)).lexemes ++ rest)
        = readFrom .value stack
            (.leftBrace :: (memberLexemes (m :: members) ++ .rightBrace :: rest)) := by
          simp [lexemes]
      _ = readFrom (.key []) stack (memberLexemes (m :: members) ++ .rightBrace :: rest) := by
          rw [hwords, List.cons_append, readFrom_leftBrace]
      _ = readFrom (.after (.object (m :: members))) stack rest :=
          readFrom_members hmembers m.1 (h m (by simp)) []

theorem leads_of_canonical (h : Canonical value) : Leads value := by
  induction h with
  | null => exact fun _ _ => rfl
  | bool b => exact fun _ _ => rfl
  | int n => exact fun _ _ => rfl
  | text s => exact fun _ _ => rfl
  | array _ ih => exact leads_array ih
  | members _ ih =>
    refine leads_object (fun m hm => ?_)
    obtain ⟨m', hm', rfl⟩ := List.mem_map.1 hm
    exact ih m' hm'

end Reading

/-- What is written reads back. -/
theorem parse?_write {value : Json} (h : Canonical value) : parse? value.write = some value := by
  have hleads := leads_of_canonical h [] []
  rw [List.append_nil] at hleads
  simp [parse?, write, Lexeme.ofChars_chars h, hleads, readFrom_after]

end RichText.Json
