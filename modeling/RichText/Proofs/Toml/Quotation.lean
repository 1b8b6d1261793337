import RichText.Toml.Text
set_option autoImplicit false

namespace RichText.Toml

/-! Characters -/

theorem namedChar?_hexPair : ∀ n : Fin 128, namedChar? (['0', '0'] ++
    (Text.hexPair (UInt8.ofNat n)).map Char.toUpper) = some (Char.ofNat n) := by
  decide

theorem toNat_lt_of_isControl {c : Char} (h : isControl c = true) : c.toNat < 128 := by
  unfold isControl at h
  obtain h | rfl : c.toNat < 32 ∧ c ≠ '\t' ∨ c = '\x7f' := by simpa using h
  · omega
  · decide

theorem writeChar_cases (lines : Bool) {c : Char} :
    (writeChar lines c = [c] ∧ c ≠ '\\' ∧ (isControl c = false ∨ lines = true ∧ c = '\n')) ∨
      (∃ e, writeChar lines c = ['\\', e] ∧ e ∈ ['\\', 'b', 'f', 'n', 'r', 't'] ∧
        simpleEscape? e = some c) ∨
      ∃ a b, writeChar lines c = ['\\', 'u', '0', '0', a, b] ∧
        namedChar? ['0', '0', a, b] = some c := by
  unfold writeChar
  split
  · rename_i h
    subst h
    cases lines with
    | true => exact .inl ⟨rfl, by decide, .inr ⟨rfl, rfl⟩⟩
    | false => exact .inr (.inl ⟨'n', rfl, by decide, by decide⟩)
  split
  · rename_i h
    subst h
    exact .inr (.inl ⟨'\\', rfl, by decide, by decide⟩)
  split
  · rename_i h
    subst h
    exact .inr (.inl ⟨'b', rfl, by decide, by decide⟩)
  split
  · rename_i h
    subst h
    exact .inr (.inl ⟨'t', rfl, by decide, by decide⟩)
  split
  · rename_i h
    subst h
    exact .inr (.inl ⟨'f', rfl, by decide, by decide⟩)
  split
  · rename_i h
    subst h
    exact .inr (.inl ⟨'r', rfl, by decide, by decide⟩)
  split
  · rename_i h
    have hnamed := namedChar?_hexPair ⟨c.toNat, toNat_lt_of_isControl h⟩
    rw [Char.ofNat_toNat] at hnamed
    exact .inr (.inr ⟨_, _, rfl, hnamed⟩)
  · rename_i hbackslash _ _ _ _ h
    exact .inl ⟨rfl, hbackslash, .inl (by simpa using h)⟩

theorem takeBasic?_writeChar {c : Char} (hquote : c ≠ '"') (read rest : List Char) :
    takeBasic? read (writeChar false c ++ rest) = takeBasic? (c :: read) rest := by
  obtain ⟨hwrite, hbackslash, hcontrol⟩ | ⟨e, hwrite, he, hescape⟩ | ⟨a, b, hwrite, hnamed⟩ :=
    writeChar_cases false (c := c)
  · have hplain : isControl c = false := by simpa using hcontrol
    rw [hwrite, List.singleton_append, takeBasic?]
    all_goals simp_all
  · rw [hwrite]
    simp only [List.mem_cons, List.not_mem_nil, or_false] at he
    obtain rfl | rfl | rfl | rfl | rfl | rfl := he
    all_goals simp_all [takeBasic?]
  · rw [hwrite]
    simp [takeBasic?, hnamed]

theorem takeLines?_writeChar {c : Char} (hquote : c ≠ '"') (read rest : List Char) :
    takeLines? false read (writeChar true c ++ rest) = takeLines? false (c :: read) rest := by
  obtain ⟨hwrite, hbackslash, hcontrol⟩ | ⟨e, hwrite, he, hescape⟩ | ⟨a, b, hwrite, hnamed⟩ :=
    writeChar_cases true (c := c)
  · have hline : isLineChar c = true := by
      obtain h | ⟨_, rfl⟩ := hcontrol
      · simp [isLineChar, h]
      · decide
    rw [hwrite, List.singleton_append, takeLines?]
    all_goals simp_all
  · rw [hwrite]
    simp only [List.mem_cons, List.not_mem_nil, or_false] at he
    obtain rfl | rfl | rfl | rfl | rfl | rfl := he
    all_goals simp_all [takeLines?, lineEnds, isBlank]
  · rw [hwrite]
    simp [takeLines?, lineEnds, isBlank, hnamed]

theorem head?_writeChar {lines : Bool} {c : Char} (hquote : c ≠ '"') (rest : List Char) :
    (writeChar lines c ++ rest).head? ≠ some '"' := by
  obtain ⟨hwrite, _⟩ | ⟨e, hwrite, _⟩ | ⟨a, b, hwrite, _⟩ := writeChar_cases lines (c := c)
  all_goals simp [hwrite, hquote]

/-! Strings on one line -/

theorem takeBasic?_writeBasic (n : Nat) (s read rest : List Char) :
    takeBasic? read (writeBasic false n s ++ '"' :: rest) = some (read.reverse ++ s, rest) := by
  induction s generalizing n read with
  | nil => simp [writeBasic, takeBasic?]
  | cons c s ih =>
    unfold writeBasic
    by_cases hquote : c = '"'
    · subst hquote
      have hescape : simpleEscape? '"' = some '"' := by decide
      simp [takeBasic?, hescape, ih]
    · rw [if_neg hquote, List.append_assoc, takeBasic?_writeChar hquote, ih]
      simp

theorem takeLiteral?_append {s : List Char} (h : ∀ c ∈ s, c ≠ '\x27' ∧ isControl c = false)
    (read rest : List Char) :
    takeLiteral? read (s ++ '\x27' :: rest) = some (read.reverse ++ s, rest) := by
  induction s generalizing read with
  | nil => simp [takeLiteral?]
  | cons c s ih =>
    obtain ⟨hquote, hcontrol⟩ := h c List.mem_cons_self
    rw [List.cons_append, takeLiteral?]
    · rw [hcontrol, if_neg Bool.false_ne_true, ih (fun c hc => h c (List.mem_cons_of_mem _ hc))]
      simp
    · simpa using hquote

/-! Strings over several lines -/

/-- The quotes that close a string take up to two more in front of them into the text. -/
theorem spanQuotes_replicate {quote : Char} {rest : List Char} (hrest : rest.head? ≠ some quote)
    {n : Nat} (hn : n ≤ 2) :
    spanQuotes quote (List.replicate n quote ++ rest) = (List.replicate n quote, rest) := by
  cases rest with
  | nil =>
    match n with
    | 0 => rfl
    | 1 => simp [spanQuotes]
    | 2 => simp [spanQuotes]
  | cons c rest =>
    have hc : c ≠ quote := by simpa using hrest
    match n with
    | 0 => cases rest <;> simp [spanQuotes, hc]
    | 1 => simp [spanQuotes, hc]
    | 2 => simp [spanQuotes]

theorem replicate_append_three (n : Nat) (quote : Char) (rest : List Char) :
    List.replicate n quote ++ quote :: quote :: quote :: rest =
      quote :: quote :: quote :: (List.replicate n quote ++ rest) := by
  induction n with
  | zero => rfl
  | succ n ih => simp [List.replicate_succ, ih]

theorem takeLines?_close {rest : List Char} (hrest : rest.head? ≠ some '"') {n : Nat} (hn : n ≤ 2)
    (read : List Char) :
    takeLines? false read (List.replicate n '"' ++ '"' :: '"' :: '"' :: rest) =
      some (read.reverse ++ List.replicate n '"', rest) := by
  rw [replicate_append_three, takeLines?, spanQuotes_replicate hrest hn]

theorem takeLiteralLines?_close {rest : List Char} (hrest : rest.head? ≠ some '\x27') {n : Nat}
    (hn : n ≤ 2) (read : List Char) :
    takeLiteralLines? read (List.replicate n '\x27' ++ '\x27' :: '\x27' :: '\x27' :: rest) =
      some (read.reverse ++ List.replicate n '\x27', rest) := by
  rw [replicate_append_three, takeLiteralLines?, spanQuotes_replicate hrest hn]

theorem takeLines?_quote {s : List Char} (h : ¬['"', '"'] <+: s) (read : List Char) :
    takeLines? false read ('"' :: s) = takeLines? false ('"' :: read) s := by
  have hline : isLineChar '"' = true := by decide
  rw [takeLines?]
  · simp [hline]
  · rintro rest - rfl
    exact h ⟨rest, rfl⟩
  · simp

theorem takeLiteralLines?_cons {c : Char} {s : List Char} (hline : isLineChar c = true)
    (h : ¬['\x27', '\x27', '\x27'] <+: c :: s) (read : List Char) :
    takeLiteralLines? read (c :: s) = takeLiteralLines? (c :: read) s := by
  rw [takeLiteralLines?]
  · rw [if_pos hline]
  · rintro rest rfl rfl
    exact h ⟨rest, rfl⟩

theorem head?_writeBasic {lines : Bool} {n : Nat} {c : Char}
    (h : c = '"' → lines = false ∨ 2 ≤ n) (s rest : List Char) :
    (writeBasic lines n (c :: s) ++ rest).head? ≠ some '"' := by
  unfold writeBasic
  by_cases hquote : c = '"'
  · have hraw : ¬((lines && decide (n < 2)) = true) := by
      obtain rfl | hn := h hquote
      · exact Bool.false_ne_true
      · rw [decide_eq_false (Nat.not_lt.2 hn), Bool.and_false]
        exact Bool.false_ne_true
    rw [if_pos hquote, if_neg hraw]
    simp
  · rw [if_neg hquote, List.append_assoc]
    exact head?_writeChar hquote _

/-- Two quotes that stand as they are, right after another one, are closing quotes. -/
theorem eq_of_prefix_writeBasic {n : Nat} {s rest : List Char}
    (h : ['"', '"'] <+: writeBasic true (n + 1) s ++ '"' :: '"' :: '"' :: rest) :
    s = [] ∨ n = 0 ∧ s = ['"'] := by
  obtain ⟨after, h⟩ := h
  cases s with
  | nil => exact .inl rfl
  | cons c s =>
    have hhead := congrArg List.head? h.symm
    by_cases hescaped : c = '"' → 2 ≤ n + 1
    · exact absurd hhead (head?_writeBasic (fun hc => .inr (hescaped hc)) s _)
    obtain ⟨rfl, rfl⟩ : c = '"' ∧ n = 0 := by
      obtain ⟨hc, hn⟩ := Classical.not_imp.1 hescaped
      exact ⟨hc, by omega⟩
    refine .inr ⟨rfl, ?_⟩
    cases s with
    | nil => rfl
    | cons d s =>
      have htail := congrArg List.head? (congrArg List.tail h.symm)
      exact absurd htail (head?_writeBasic (fun _ => .inr (Nat.le_refl 2)) s _)

theorem takeLines?_writeBasic {rest : List Char} (hrest : rest.head? ≠ some '"') (n : Nat)
    (s read : List Char) :
    takeLines? false read (writeBasic true n s ++ '"' :: '"' :: '"' :: rest) =
      some (read.reverse ++ s, rest) := by
  induction s generalizing n read with
  | nil => exact takeLines?_close hrest (Nat.zero_le 2) read
  | cons c s ih =>
    unfold writeBasic
    by_cases hquote : c = '"'
    · subst hquote
      by_cases hn : n < 2
      · have hraw : (true && decide (n < 2)) = true := by simpa using hn
        rw [if_pos rfl, if_pos hraw, List.cons_append]
        by_cases hclose : ['"', '"'] <+: writeBasic true (n + 1) s ++ '"' :: '"' :: '"' :: rest
        · obtain rfl | ⟨rfl, rfl⟩ := eq_of_prefix_writeBasic hclose
          · exact takeLines?_close hrest (by decide : 1 ≤ 2) read
          · exact takeLines?_close hrest (by decide : 2 ≤ 2) read
        · rw [takeLines?_quote hclose, ih]
          simp
      · have hescape : simpleEscape? '"' = some '"' := by decide
        simp [hn, takeLines?, lineEnds, isBlank, hescape, ih]
    · rw [if_neg hquote, List.append_assoc, takeLines?_writeChar hquote, ih]
      simp

theorem prefix_three_cases {quote : Char} {s rest : List Char}
    (h : [quote, quote, quote] <+: s ++ quote :: quote :: quote :: rest) :
    (∃ n ≤ 2, s = List.replicate n quote) ∨ [quote, quote, quote] <+: s := by
  match s with
  | [] => exact .inl ⟨0, Nat.zero_le 2, rfl⟩
  | [c] =>
    have hc : quote = c := by simpa using h
    exact .inl ⟨1, by decide, by rw [hc]; rfl⟩
  | [c, d] =>
    obtain ⟨hc, hd⟩ : quote = c ∧ quote = d := by simpa using h
    exact .inl ⟨2, by decide, by rw [← hc, ← hd]; rfl⟩
  | c :: d :: e :: s =>
    obtain ⟨rfl, rfl, rfl⟩ : quote = c ∧ quote = d ∧ quote = e := by simpa using h
    exact .inr ⟨s, rfl⟩

theorem takeLiteralLines?_append {s rest : List Char} (hrest : rest.head? ≠ some '\x27')
    (hlines : ∀ c ∈ s, isLineChar c = true) (h : ¬['\x27', '\x27', '\x27'] <:+: s)
    (read : List Char) :
    takeLiteralLines? read (s ++ '\x27' :: '\x27' :: '\x27' :: rest) =
      some (read.reverse ++ s, rest) := by
  induction s generalizing read with
  | nil => exact takeLiteralLines?_close hrest (Nat.zero_le 2) read
  | cons c s ih =>
    by_cases hclose : ['\x27', '\x27', '\x27'] <+: c :: s ++ '\x27' :: '\x27' :: '\x27' :: rest
    · obtain ⟨n, hn, hquotes⟩ | hthree := prefix_three_cases hclose
      · rw [hquotes]
        exact takeLiteralLines?_close hrest hn read
      · exact absurd hthree.isInfix h
    · rw [List.cons_append] at hclose ⊢
      rw [takeLiteralLines?_cons (hlines c List.mem_cons_self) hclose, ih]
      · simp
      · exact fun c hc => hlines c (List.mem_cons_of_mem _ hc)
      · exact fun hinside => h (hinside.trans (List.suffix_cons c s).isInfix)

/-! Which way fits -/

def runStep (quote : Char) (counts : Nat × Nat) (c : Char) : Nat × Nat :=
  let current := if c = quote then counts.2 + 1 else 0
  (max counts.1 current, current)

theorem longestRun_eq (quote : Char) (s : List Char) :
    longestRun quote s = (s.foldl (runStep quote) (0, 0)).1 := rfl

theorem foldl_runStep_le (quote : Char) (s : List Char) (counts : Nat × Nat)
    (h : counts.2 ≤ counts.1) :
    (s.foldl (runStep quote) counts).2 ≤ (s.foldl (runStep quote) counts).1 ∧
      counts.1 ≤ (s.foldl (runStep quote) counts).1 := by
  induction s generalizing counts with
  | nil => exact ⟨h, Nat.le_refl _⟩
  | cons c s ih =>
    obtain ⟨hcurrent, hlongest⟩ := ih (runStep quote counts c) (Nat.le_max_right _ _)
    exact ⟨hcurrent, Nat.le_trans (Nat.le_max_left _ _) hlongest⟩

theorem foldl_runStep_replicate (quote : Char) (n : Nat) (counts : Nat × Nat) :
    ((List.replicate n quote).foldl (runStep quote) counts).2 = counts.2 + n := by
  induction n generalizing counts with
  | zero => rfl
  | succ n ih =>
    rw [List.replicate_succ, List.foldl_cons, ih]
    simp only [runStep, if_true]
    omega

theorem le_longestRun {quote : Char} {n : Nat} {s : List Char}
    (h : List.replicate n quote <:+: s) : n ≤ longestRun quote s := by
  obtain ⟨before, after, rfl⟩ := h
  have hbefore := foldl_runStep_le quote before (0, 0) (Nat.le_refl 0)
  have hrun := foldl_runStep_le quote (List.replicate n quote) _ hbefore.1
  have hafter := foldl_runStep_le quote after _ hrun.1
  have hcount := foldl_runStep_replicate quote n (before.foldl (runStep quote) (0, 0))
  rw [longestRun_eq, List.foldl_append, List.foldl_append]
  omega

theorem notMem_of_longestRun {quote : Char} {s : List Char} (h : longestRun quote s = 0) :
    quote ∉ s := by
  intro hmem
  obtain ⟨before, after, rfl⟩ := List.append_of_mem hmem
  have hle : 1 ≤ longestRun quote (before ++ quote :: after) :=
    le_longestRun ⟨before, after, by simp⟩
  omega

/-- What a literal string asks of a text. Basic strings can hold any text. -/
def Quotation.Fits (s : List Char) : Quotation → Prop
  | .basic | .basicLines => True
  | .literal => s ≠ [] ∧ ∀ c ∈ s, c ≠ '\x27' ∧ isControl c = false
  | .literalLines => ¬['\x27', '\x27', '\x27'] <:+: s ∧ ∀ c ∈ s, isControl c = false ∨ c = '\n'

theorem fits_quotationOf (s : List Char) : (quotationOf s).Fits s := by
  have hcontrol : ∀ c, needsEscape c = false → isControl c = false ∨ c = '\n' := by
    intro c hc
    unfold needsEscape at hc
    by_cases hline : c = '\n'
    · exact .inr hline
    · simpa [hline] using hc
  have hescapes : s.any needsEscape = false → ∀ c ∈ s, isControl c = false ∨ c = '\n' := by
    intro h c hc
    exact hcontrol c (by simpa using List.any_eq_false.1 h c hc)
  unfold quotationOf
  dsimp only
  split
  · trivial
  · rename_i hplain
    split
    · rename_i h
      obtain ⟨⟨hany, hsingle⟩, hline⟩ : (s.any needsEscape = false ∧ longestRun '\x27' s = 0) ∧
        '\n' ∉ s := by simpa using h
      refine ⟨?_, fun c hc => ⟨?_, ?_⟩⟩
      · rintro rfl
        exact hplain rfl
      · rintro rfl
        exact notMem_of_longestRun hsingle hc
      · obtain hc' | rfl := hescapes hany c hc
        · exact hc'
        · exact absurd hc hline
    split
    · trivial
    split
    · rename_i h
      obtain ⟨hany, hsingle⟩ : s.any needsEscape = false ∧ longestRun '\x27' s ≤ 2 := by
        simpa using h
      refine ⟨fun hthree => ?_, hescapes hany⟩
      have hle : 3 ≤ longestRun '\x27' s := le_longestRun hthree
      omega
    · split <;> trivial

theorem dropLineEnd_leadingLineEnd {s rest : List Char}
    (h : '\n' ∉ s → ∀ c, rest.head? = some c → isControl c = false) :
    dropLineEnd (leadingLineEnd s ++ rest) = rest := by
  unfold leadingLineEnd
  by_cases hs : '\n' ∈ s
  · simp [hs, dropLineEnd]
  · have hcontains : ¬(s.contains '\n' = true) := by simpa using hs
    rw [if_neg hcontains, List.nil_append]
    unfold dropLineEnd
    split
    · exact absurd (h hs '\n' rfl) (by decide)
    · exact absurd (h hs '\r' rfl) (by decide)
    · rfl

theorem takeString?_basic {s : List Char} (h : ¬['"', '"'] <+: s) :
    takeString? ('"' :: s) = takeString?.finish (takeBasic? [] s) := by
  rw [takeString?]
  rintro rest rfl
  exact h ⟨rest, rfl⟩

theorem takeString?_literal {s : List Char} (h : ¬['\x27', '\x27'] <+: s) :
    takeString? ('\x27' :: s) = takeString?.finish (takeLiteral? [] s) := by
  rw [takeString?]
  rintro rest rfl
  exact h ⟨rest, rfl⟩

theorem not_prefix_basic {s rest : List Char} (hrest : rest.head? ≠ some '"') :
    ¬['"', '"'] <+: writeBasic false 0 s ++ '"' :: rest := by
  rintro ⟨after, h⟩
  cases s with
  | nil =>
    have hhead := congrArg List.head? (congrArg List.tail h.symm)
    exact hrest hhead
  | cons c s =>
    have hhead := congrArg List.head? h.symm
    exact head?_writeBasic (fun _ => .inl rfl) s _ hhead

theorem not_prefix_literal {s : List Char} (hne : s ≠ [])
    (h : ∀ c ∈ s, c ≠ '\x27' ∧ isControl c = false) (rest : List Char) :
    ¬['\x27', '\x27'] <+: s ++ '\x27' :: rest := by
  rintro ⟨after, heq⟩
  cases s with
  | nil => exact hne rfl
  | cons c s =>
    have hhead := congrArg List.head? heq.symm
    exact (h c List.mem_cons_self).1 (by simpa using hhead)

theorem isControl_head?_writeBasic {s rest : List Char} (hline : '\n' ∉ s) {c : Char}
    (h : (writeBasic true 0 s ++ '"' :: rest).head? = some c) : isControl c = false := by
  cases s with
  | nil =>
    obtain rfl : '"' = c := by simpa [writeBasic] using h
    decide
  | cons d s =>
    unfold writeBasic at h
    by_cases hquote : d = '"'
    · obtain rfl : '"' = c := by simpa [hquote] using h
      decide
    rw [if_neg hquote] at h
    obtain ⟨hwrite, _, hcontrol⟩ | ⟨e, hwrite, _⟩ | ⟨a, b, hwrite, _⟩ :=
      writeChar_cases true (c := d)
    · obtain rfl : d = c := by simpa [hwrite] using h
      obtain hplain | ⟨_, rfl⟩ := hcontrol
      · exact hplain
      · exact absurd List.mem_cons_self hline
    all_goals
      obtain rfl : '\\' = c := by simpa [hwrite] using h
      decide

/-- What is written as a string is read back, whatever follows it but another quote. -/
theorem takeString?_quote (s : String) {rest : List Char} (hbasic : rest.head? ≠ some '"')
    (hliteral : rest.head? ≠ some '\x27') :
    takeString? (quote s ++ rest) = some (s, rest) := by
  have hfits := fits_quotationOf s.toList
  unfold quote
  cases h : quotationOf s.toList with
  | basic =>
    simp only [quoteAs, List.append_assoc, List.cons_append, List.nil_append]
    rw [takeString?_basic (not_prefix_basic hbasic), takeBasic?_writeBasic]
    simp [takeString?.finish]
  | literal =>
    rw [h] at hfits
    obtain ⟨hne, hchars⟩ := hfits
    simp only [quoteAs, List.append_assoc, List.cons_append, List.nil_append]
    rw [takeString?_literal (not_prefix_literal hne hchars rest), takeLiteral?_append hchars]
    simp [takeString?.finish]
  | basicLines =>
    simp only [quoteAs, List.append_assoc, List.cons_append, List.nil_append]
    rw [takeString?, dropLineEnd_leadingLineEnd, takeLines?_writeBasic hbasic]
    · simp [takeString?.finish]
    · exact fun hline c => isControl_head?_writeBasic hline
  | literalLines =>
    rw [h] at hfits
    obtain ⟨hthree, hchars⟩ := hfits
    have hlines : ∀ c ∈ s.toList, isLineChar c = true := by
      intro c hc
      obtain hplain | rfl := hchars c hc
      · simp [isLineChar, hplain]
      · decide
    simp only [quoteAs, List.append_assoc, List.cons_append, List.nil_append]
    rw [takeString?, dropLineEnd_leadingLineEnd, takeLiteralLines?_append hliteral hlines hthree]
    · simp [takeString?.finish]
    · intro hline c hhead
      cases hs : s.toList with
      | nil =>
        obtain rfl : '\x27' = c := by simpa [hs] using hhead
        decide
      | cons d rest =>
        obtain rfl : d = c := by simpa [hs] using hhead
        obtain hplain | rfl := hchars d (by rw [hs]; exact List.mem_cons_self)
        · exact hplain
        · exact absurd (by rw [hs]; exact List.mem_cons_self) hline

end RichText.Toml
