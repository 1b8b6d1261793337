import Mathlib.Order.Defs.Unbundled
import RichText.Proofs.Field.Hyperlink
set_option autoImplicit false

namespace RichText.Field

variable {s : List Char}

/-- The number of quotes before the position is odd. -/
def IsQuoted (s : List Char) (i : Nat) : Prop := (s.take i).count '"' % 2 = 1

def Separates (s : List Char) (i : Nat) : Prop :=
  (∃ c, s[i]? = some c ∧ Text.isBlank c = true) ∧ ¬IsQuoted s i

theorem isQuoted_succ {i : Nat} {c : Char} (hc : s[i]? = some c) :
    IsQuoted s (i + 1) ↔ if c = '"' then ¬IsQuoted s i else IsQuoted s i := by
  have hcount : (s.take (i + 1)).count '"' = (s.take i).count '"' + if c = '"' then 1 else 0 := by
    rw [List.take_add_one, hc, List.count_append]
    simp [List.count_singleton]
  unfold IsQuoted
  rw [hcount]
  split <;> omega

theorem separates_iff {i : Nat} {c : Char} (hc : s[i]? = some c) :
    Separates s i ↔ Text.isBlank c = true ∧ ¬IsQuoted s i := by
  simp [Separates, hc]

structure Stretch where
  start : Nat
  stop : Nat
deriving DecidableEq

namespace Stretch

instance : LE Stretch := ⟨fun x y => y.start ≤ x.start ∧ x.stop ≤ y.stop⟩

def chars (s : List Char) (x : Stretch) : List Char := (s.take x.stop).drop x.start

def unquoted (s : List Char) (x : Stretch) : List Char := (x.chars s).filter (· ≠ '"')

/-- The part holds something, and no blank outside quotes. -/
structure IsUnbroken (s : List Char) (x : Stretch) : Prop where
  start_lt_stop : x.start < x.stop
  stop_le_length : x.stop ≤ s.length
  not_separates : ∀ i, x.start ≤ i → i < x.stop → ¬Separates s i

theorem le_antisymm {x y : Stretch} (h : x ≤ y) (h' : y ≤ x) : x = y := by
  obtain ⟨start, stop⟩ := x
  obtain ⟨start', stop'⟩ := y
  obtain rfl : start = start' := Nat.le_antisymm h'.1 h.1
  obtain rfl : stop = stop' := Nat.le_antisymm h.2 h'.2
  rfl

theorem IsUnbroken.maximal {x : Stretch} (h : IsUnbroken s x)
    (hstart : x.start = 0 ∨ Separates s (x.start - 1))
    (hstop : x.stop = s.length ∨ Separates s x.stop) : Maximal (IsUnbroken s) x := by
  refine ⟨h, fun y hy hxy => ⟨?_, ?_⟩⟩
  · obtain hzero | hseparates := hstart
    · omega
    · by_contra hlt
      have hlong := h.start_lt_stop
      have hwithin := hxy.2
      exact hy.not_separates (x.start - 1) (by omega) (by omega) hseparates
  · obtain hlength | hseparates := hstop
    · rw [hlength]
      exact hy.stop_le_length
    · by_contra hlt
      have hlong := h.start_lt_stop
      have hwithin := hxy.1
      exact hy.not_separates x.stop (by omega) (by omega) hseparates

/-- Two maximal parts have no position in common. -/
theorem eq_of_overlap {x y : Stretch} (hx : Maximal (IsUnbroken s) x)
    (hy : Maximal (IsUnbroken s) y) (h : x.start < y.stop) (h' : y.start < x.stop) : x = y := by
  let both : Stretch := ⟨min x.start y.start, max x.stop y.stop⟩
  have hboth : IsUnbroken s both := by
    have hlong := hx.1.start_lt_stop
    refine ⟨by simp only [both]; omega,
      Nat.max_le.2 ⟨hx.1.stop_le_length, hy.1.stop_le_length⟩, fun i hstart hstop => ?_⟩
    simp only [both] at hstart hstop
    by_cases hi : x.start ≤ i ∧ i < x.stop
    · exact hx.1.not_separates i hi.1 hi.2
    · exact hy.1.not_separates i (by omega) (by omega)
  have hxboth : x ≤ both := ⟨Nat.min_le_left _ _, Nat.le_max_left _ _⟩
  have hyboth : y ≤ both := ⟨Nat.min_le_right _ _, Nat.le_max_right _ _⟩
  exact (le_antisymm hxboth (hx.2 hboth hxboth)).trans
    (le_antisymm hyboth (hy.2 hboth hyboth)).symm

theorem chars_succ {start i : Nat} {c : Char} (h : start ≤ i) (hc : s[i]? = some c) :
    chars s ⟨start, i + 1⟩ = chars s ⟨start, i⟩ ++ [c] := by
  obtain ⟨hi, -⟩ := List.getElem?_eq_some_iff.1 hc
  simp only [chars]
  rw [List.take_add_one, hc, List.drop_append_of_le_length (by simp; omega)]
  rfl

theorem unquoted_succ {start i : Nat} {c : Char} (h : start ≤ i) (hc : s[i]? = some c) :
    unquoted s ⟨start, i + 1⟩ =
      unquoted s ⟨start, i⟩ ++ if c = '"' then [] else [c] := by
  rw [unquoted, chars_succ h hc, List.filter_append]
  by_cases hquote : c = '"' <;> simp [unquoted, hquote]

theorem unquoted_self (i : Nat) : unquoted s ⟨i, i⟩ = [] := by
  simp [unquoted, chars]

end Stretch

open Stretch

def openStretch? (start i : Nat) : Option Stretch := if start < i then some ⟨start, i⟩ else none

theorem mem_openStretch?_iff {start i : Nat} {x : Stretch} :
    x ∈ openStretch? start i ↔ start < i ∧ x = ⟨start, i⟩ := by
  simp [openStretch?, eq_comm]

/-- How far a text was split: up to a position, and from a start on without a blank outside
quotes. -/
structure Reading (s : List Char) (i start : Nat) (inQuotes : Bool)
    (current : Option (List Char)) : Prop where
  start_le : start ≤ i
  le_length : i ≤ s.length
  inQuotes_iff : inQuotes = true ↔ IsQuoted s i
  current_eq : current = (openStretch? start i).map fun x => (unquoted s x).reverse
  not_separates : ∀ j, start ≤ j → j < i → ¬Separates s j
  opens : start = 0 ∨ Separates s (start - 1)

namespace Reading

variable {i start : Nat} {inQuotes : Bool} {current : Option (List Char)}

theorem getD_current (h : Reading s i start inQuotes current) :
    current.getD [] = (unquoted s ⟨start, i⟩).reverse := by
  rw [h.current_eq, openStretch?]
  split
  · rfl
  · obtain rfl : start = i := by
      have := h.start_le
      omega
    rw [unquoted_self]
    rfl

theorem separates_iff (h : Reading s i start inQuotes current) {c : Char} (hc : s[i]? = some c) :
    Separates s i ↔ (Text.isBlank c && !inQuotes) = true := by
  rw [Field.separates_iff hc, ← h.inQuotes_iff]
  simp

theorem step (h : Reading s i start inQuotes current) {c : Char} (hc : s[i]? = some c)
    (hnot : ¬Separates s i) :
    Reading s (i + 1) start (if c = '"' then !inQuotes else inQuotes)
      (some (if c = '"' then current.getD [] else c :: current.getD [])) := by
  obtain ⟨hi, -⟩ := List.getElem?_eq_some_iff.1 hc
  have hstart := h.start_le
  refine ⟨by omega, hi, ?_, ?_, ?_, h.opens⟩
  · rw [isQuoted_succ hc, ← h.inQuotes_iff]
    split <;> simp
  · have hopen : openStretch? start (i + 1) = some ⟨start, i + 1⟩ := if_pos (by omega)
    rw [hopen, Option.map_some, unquoted_succ hstart hc, List.reverse_append, h.getD_current]
    split <;> rfl
  · intro j hj hji
    by_cases hji' : j = i
    · rwa [hji']
    · exact h.not_separates j hj (by omega)

theorem split_step (h : Reading s i start inQuotes current) {c : Char} (hc : s[i]? = some c)
    (hnot : ¬Separates s i) (rest : List Char) :
    split inQuotes current (c :: rest) =
      split (if c = '"' then !inQuotes else inQuotes)
        (some (if c = '"' then current.getD [] else c :: current.getD [])) rest := by
  rw [split]
  by_cases hquote : c = '"'
  · simp only [if_pos hquote]
  · rw [if_neg (mt (h.separates_iff hc).2 hnot)]
    simp only [if_neg hquote]

theorem afresh {c : Char} (hc : s[i]? = some c) (hseparates : Separates s i) :
    Reading s (i + 1) (i + 1) false none := by
  obtain ⟨hi, -⟩ := List.getElem?_eq_some_iff.1 hc
  obtain ⟨hblank, hquoted⟩ := (Field.separates_iff hc).1 hseparates
  refine ⟨Nat.le_refl _, hi, ?_, ?_, fun j hj hji => absurd hji (by omega), .inr hseparates⟩
  · rw [isQuoted_succ hc, if_neg (ne_quote_of_isBlank hblank)]
    simpa using hquoted
  · simp [openStretch?]

theorem toList_current (h : Reading s i start inQuotes current) :
    (current.map List.reverse).toList = (openStretch? start i).toList.map (unquoted s) := by
  rw [h.current_eq, Option.map_map, Option.toList_map]
  congr 1
  funext x
  exact List.reverse_reverse _

theorem split_afresh (h : Reading s i start inQuotes current) {c : Char} (hc : s[i]? = some c)
    (hseparates : Separates s i) (rest : List Char) :
    split inQuotes current (c :: rest) =
      (openStretch? start i).toList.map (unquoted s) ++ split false none rest := by
  have hblank := ((Field.separates_iff hc).1 hseparates).1
  rw [split, if_neg (ne_quote_of_isBlank hblank), if_pos ((h.separates_iff hc).1 hseparates),
    h.toList_current]

theorem maximal_iff (h : Reading s i start inQuotes current)
    (hstop : i = s.length ∨ Separates s i) (x : Stretch) :
    Maximal (IsUnbroken s) x ∧ start ≤ x.start ↔
      x ∈ openStretch? start i ∨ Maximal (IsUnbroken s) x ∧ i < x.start := by
  have hle := h.start_le
  have hopen : start < i → Maximal (IsUnbroken s) ⟨start, i⟩ := fun hlt =>
    IsUnbroken.maximal ⟨hlt, h.le_length, h.not_separates⟩ h.opens hstop
  constructor
  · rintro ⟨hx, hstart⟩
    have hlong := hx.1.start_lt_stop
    by_cases hbehind : i < x.start
    · exact .inr ⟨hx, hbehind⟩
    left
    have hne : x.start ≠ i := by
      rintro rfl
      obtain hlength | hseparates := hstop
      · have hlength' := hx.1.stop_le_length
        omega
      · exact hx.1.not_separates x.start (Nat.le_refl _) hlong hseparates
    have hlt : start < i := by omega
    exact mem_openStretch?_iff.2 ⟨hlt,
      eq_of_overlap hx (hopen hlt) (show x.start < i by omega) (show start < x.stop by omega)⟩
  · rintro (hx | ⟨hx, hbehind⟩)
    · obtain ⟨hlt, rfl⟩ := mem_openStretch?_iff.1 hx
      exact ⟨hopen hlt, Nat.le_refl _⟩
    · exact ⟨hx, by omega⟩

end Reading

/-- Splitting gives the maximal parts of the text from the start of the current one on. -/
theorem split_stretches {i start : Nat} {inQuotes : Bool} {current : Option (List Char)}
    (h : Reading s i start inQuotes current) :
    ∃ stretches : List Stretch,
      (∀ x, x ∈ stretches ↔ Maximal (IsUnbroken s) x ∧ start ≤ x.start) ∧
      stretches.Pairwise (fun x y => x.stop < y.start) ∧
      split inQuotes current (s.drop i) = stretches.map (unquoted s) := by
  -- induction on what is still to be read; what `Reading` says of the part before carries it
  induction hrest : s.drop i generalizing i start inQuotes current with
  | nil =>
    have hlength : i = s.length := Nat.le_antisymm h.le_length (List.drop_eq_nil_iff.1 hrest)
    refine ⟨(openStretch? start i).toList, fun x => ?_, ?_, ?_⟩
    · have hend : ¬(Maximal (IsUnbroken s) x ∧ i < x.start) := by
        rintro ⟨hx, hbehind⟩
        have hlong := hx.1.start_lt_stop
        have hlength' := hx.1.stop_le_length
        omega
      rw [h.maximal_iff (.inl hlength), or_iff_left hend, Option.mem_toList, Option.mem_def]
    · cases openStretch? start i <;> simp
    · rw [split, h.toList_current]
  | cons c rest ih =>
    have hc : s[i]? = some c := by
      rw [← List.head?_drop, hrest]
      rfl
    have hdrop : s.drop (i + 1) = rest := by
      rw [← List.tail_drop, hrest]
      rfl
    by_cases hseparates : Separates s i
    · obtain ⟨stretches, hmem, hpairwise, hsplit⟩ := ih (Reading.afresh hc hseparates) hdrop
      refine ⟨(openStretch? start i).toList ++ stretches, fun x => ?_, ?_, ?_⟩
      · rw [h.maximal_iff (.inr hseparates), List.mem_append, Option.mem_toList, hmem]
        rfl
      · refine List.pairwise_append.2 ⟨?_, hpairwise, fun x hx y hy => ?_⟩
        · cases openStretch? start i <;> simp
        · obtain ⟨-, rfl⟩ := mem_openStretch?_iff.1 (Option.mem_toList.1 hx)
          exact ((hmem y).1 hy).2
      · rw [h.split_afresh hc hseparates, hsplit, List.map_append]
    · rw [h.split_step hc hseparates]
      exact ih (h.step hc hseparates) hdrop

def Stretch.argument (text : String) (x : Stretch) : String :=
  String.ofList (x.unquoted text.toList)

theorem argument_eq_empty_iff (text : String) (x : Stretch) :
    x.argument text = "" ↔ ∀ c ∈ x.chars text.toList, c = '"' := by
  rw [argument, String.ofList_eq_empty_iff, unquoted, List.filter_eq_nil_iff]
  simp

/-- An instruction has one argument for each maximal part of its text that holds something but no
blank outside quotes, in order. It is the part without its quotes, so it is empty just when the
part is all quotes. -/
theorem arguments_stretches (text : String) :
    ∃ stretches : List Stretch,
      (∀ x, x ∈ stretches ↔ Maximal (IsUnbroken text.toList) x) ∧
      stretches.Pairwise (fun x y => x.stop < y.start) ∧
      arguments text = stretches.map (Stretch.argument text) ∧
      ∀ x ∈ stretches, x.argument text = "" ↔ ∀ c ∈ x.chars text.toList, c = '"' := by
  have hbegin : Reading text.toList 0 0 false none :=
    ⟨Nat.le_refl 0, Nat.zero_le _, by simp [IsQuoted], rfl,
      fun j _ hj => absurd hj (Nat.not_lt_zero j), .inl rfl⟩
  obtain ⟨stretches, hmem, hpairwise, hsplit⟩ := split_stretches hbegin
  refine ⟨stretches, fun x => ?_, hpairwise, ?_, fun x _ => argument_eq_empty_iff text x⟩
  · rw [hmem, and_iff_left (Nat.zero_le _)]
  · rw [List.drop_zero] at hsplit
    rw [arguments, hsplit, List.map_map]
    rfl

/-- Quotes inside a word, a quoted blank, an empty argument, and a quote that is not closed. -/
example : arguments "a\"b c\"d  \"\"\t\"x y" = ["ab cd", "", "x y"] := by decide

end RichText.Field
