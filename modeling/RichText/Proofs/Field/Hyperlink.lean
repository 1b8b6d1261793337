import Mathlib.Data.List.Perm.Basic
import RichText.Proofs.Walk.Replacement
set_option autoImplicit false

/-!
Links written as fields: the keyword, then the address and the switches with their values, all of
them quoted, in any order and any distance apart. Main statement: `hyperlink?_written`.
-/
namespace RichText

namespace Text

theorem trimChars_append {before core after : List Char} (hbefore : ∀ c ∈ before, isBlank c = true)
    (hafter : ∀ c ∈ after, isBlank c = true) (hhead : ∀ c ∈ core.head?, isBlank c = false)
    (hlast : ∀ c ∈ core.getLast?, isBlank c = false) (hne : core ≠ []) :
    trimChars (before ++ core ++ after) = core := by
  obtain ⟨first, rest, rfl⟩ := List.exists_cons_of_ne_nil hne
  have hfirst : isBlank first = false := hhead first rfl
  have hreversed : ∀ c ∈ after.reverse, isBlank c = true := by simpa using hafter
  have hdrop : (before ++ first :: rest ++ after).dropWhile isBlank = first :: rest ++ after := by
    rw [List.append_assoc, List.dropWhile_append_of_pos hbefore, List.cons_append,
      List.dropWhile_cons_of_neg (by simp [hfirst])]
  have hends : (first :: rest).reverse.dropWhile isBlank = (first :: rest).reverse := by
    cases hreverse : (first :: rest).reverse with
    | nil => rfl
    | cons last front =>
      have hmem : last ∈ (first :: rest).getLast? := by
        rw [List.getLast?_eq_head?_reverse, hreverse]
        rfl
      rw [List.dropWhile_cons_of_neg (by simp [hlast last hmem])]
  rw [trimChars, hdrop, List.reverse_append, List.dropWhile_append_of_pos hreversed, hends,
    List.reverse_reverse]

end Text

/-! What a link says -/

inductive Hyperlink.Switch where
  | anchor | title | target
deriving DecidableEq

namespace Hyperlink

def Switch.word : Switch → String
  | .anchor => "\\l"
  | .title => "\\o"
  | .target => "\\t"

inductive Part where
  | url (value : String)
  | switched (switch : Switch) (value : String)
deriving DecidableEq

def Part.value : Part → String
  | .url value | .switched _ value => value

def Part.arguments : Part → List String
  | .url value => [value]
  | .switched switch value => [switch.word, value]

/-- The link with the part in place of what it says about the same. -/
def withPart (link : Hyperlink) : Part → Hyperlink
  | .url value => link.setUrl value
  | .switched .anchor value => { link with anchor := some value }
  | .switched .title value => { link with title := some value }
  | .switched .target value => { link with target := some value }

def value? (link : Hyperlink) : Switch → Option String
  | .anchor => link.anchor
  | .title => link.title
  | .target => link.target

def parts (link : Hyperlink) : List Part :=
  (link.url.map Part.url).toList ++
    [Switch.anchor, .title, .target].filterMap fun switch =>
      (link.value? switch).map (Part.switched switch)

/-- The link can be written with quotes around its parts: there are none in them, and the address
is not taken for a switch. -/
structure Quotable (link : Hyperlink) : Prop where
  quote_notMem : ∀ part ∈ link.parts, '"' ∉ part.value.toList
  head?_url : ∀ url ∈ link.url, url.toList.head? ≠ some '\\'

theorem url_mem_parts_iff {link : Hyperlink} {value : String} :
    .url value ∈ link.parts ↔ link.url = some value := by
  simp [parts]

theorem switched_mem_parts_iff {link : Hyperlink} {switch : Switch} {value : String} :
    .switched switch value ∈ link.parts ↔ link.value? switch = some value := by
  cases switch <;> simp [parts]

theorem isSwitch_iff (s : String) : isSwitch s = true ↔ s.toList.head? = some '\\' := by
  rw [isSwitch, String.startsWith_string_iff]
  cases h : s.toList with
  | nil => simp
  | cons c cs => simp [eq_comm]

theorem read_url {url : String} (h : isSwitch url = false) (link : Hyperlink)
    (rest : List String) : read link (url :: rest) = read (link.setUrl url) rest := by
  cases rest <;> simp [read, h]

theorem read_switch (link : Hyperlink) (switch : Switch) (value : String) (rest : List String) :
    read link (switch.word :: value :: rest) =
      read (link.withPart (.switched switch value)) rest := by
  have hswitch : isSwitch switch.word = true := by
    rw [isSwitch_iff]
    cases switch <;> decide
  rw [read, if_pos hswitch]
  cases switch <;> simp [setSwitch?, Switch.word, withPart]

theorem read_arguments {parts : List Part}
    (h : ∀ url, .url url ∈ parts → isSwitch url = false) (link : Hyperlink) :
    read link (parts.flatMap Part.arguments) = parts.foldl withPart link := by
  induction parts generalizing link with
  | nil => rfl
  | cons part parts ih =>
    have hparts : ∀ url, .url url ∈ parts → isSwitch url = false :=
      fun url hurl => h url (List.mem_cons_of_mem _ hurl)
    rw [List.flatMap_cons, List.foldl_cons, ← ih hparts]
    cases part with
    | url url => exact read_url (h url List.mem_cons_self) link (parts.flatMap Part.arguments)
    | switched switch value => exact read_switch link switch value (parts.flatMap Part.arguments)

theorem withPart_comm {link : Hyperlink} {part part' : Part} (h : part ∈ link.parts)
    (h' : part' ∈ link.parts) (start : Hyperlink) :
    (start.withPart part).withPart part' = (start.withPart part').withPart part := by
  obtain ⟨url, _, _, _⟩ := start
  cases part with
  | url value =>
    cases part' with
    | url value' =>
      rw [url_mem_parts_iff] at h h'
      rw [Option.some.inj (h.symm.trans h')]
    | switched switch' value' => cases url <;> cases switch' <;> rfl
  | switched switch value =>
    cases part' with
    | url value' => cases url <;> cases switch <;> rfl
    | switched switch' value' =>
      by_cases hsame : switch = switch'
      · subst hsame
        rw [switched_mem_parts_iff] at h h'
        rw [Option.some.inj (h.symm.trans h')]
      · cases switch <;> cases switch' <;> first | rfl | exact absurd rfl hsame

theorem foldl_parts (link : Hyperlink) : link.parts.foldl withPart {} = link := by
  obtain ⟨url, anchor, title, target⟩ := link
  cases url <;> cases anchor <;> cases title <;> cases target <;> rfl

/-- The arguments that say what a link says give it back, in whatever order. -/
theorem ofArguments_of_perm {link : Hyperlink} (hlink : link.Quotable) {parts : List Part}
    (h : parts.Perm link.parts) : ofArguments (parts.flatMap Part.arguments) = link := by
  have hurl : ∀ url, .url url ∈ parts → isSwitch url = false := by
    intro url hmem
    have hhead := hlink.head?_url url (url_mem_parts_iff.1 (h.subset hmem))
    rw [← Bool.not_eq_true, isSwitch_iff]
    exact hhead
  rw [ofArguments, read_arguments hurl]
  have hperm : parts.foldl withPart {} = link.parts.foldl withPart {} :=
    h.foldl_eq' (fun part hpart part' hpart' start =>
      withPart_comm (h.subset hpart) (h.subset hpart') start) {}
  rw [hperm, foldl_parts]

end Hyperlink

/-! Splitting what is written -/

namespace Field

open Hyperlink

structure Blanks where
  chars : List Char := []
  isBlank_of_mem : ∀ c ∈ chars, Text.isBlank c = true := by simp

structure Separator extends Blanks where
  chars_ne_nil : chars ≠ []

def quote (s : String) : List Char := '"' :: s.toList ++ ['"']

theorem ne_quote_of_isBlank {c : Char} (h : Text.isBlank c = true) : c ≠ '"' := by
  rintro rfl
  exact absurd h (by decide)

theorem split_blanks (blanks : Blanks) (s : List Char) :
    split false none (blanks.chars ++ s) = split false none s := by
  obtain ⟨chars, hblank⟩ := blanks
  induction chars with
  | nil => rfl
  | cons c chars ih =>
    have hc := hblank c List.mem_cons_self
    rw [List.cons_append, split, if_neg (ne_quote_of_isBlank hc), if_pos (by simp [hc])]
    exact ih (fun d hd => hblank d (List.mem_cons_of_mem _ hd))

theorem split_separator (separator : Separator) (current s : List Char) :
    split false (some current) (separator.chars ++ s) = current.reverse :: split false none s := by
  obtain ⟨⟨chars, hblank⟩, hne⟩ := separator
  obtain ⟨c, chars, rfl⟩ := List.exists_cons_of_ne_nil hne
  have hc := hblank c List.mem_cons_self
  have hrest := split_blanks ⟨chars, fun d hd => hblank d (List.mem_cons_of_mem _ hd)⟩ s
  rw [List.cons_append, split, if_neg (ne_quote_of_isBlank hc), if_pos (by simp [hc]), hrest]
  rfl

theorem split_inQuotes {value : List Char} (h : '"' ∉ value) (current s : List Char) :
    split true (some current) (value ++ '"' :: s) =
      split false (some (value.reverse ++ current)) s := by
  induction value generalizing current with
  | nil => simp [split]
  | cons c value ih =>
    have hquote : c ≠ '"' := by
      rintro rfl
      exact h List.mem_cons_self
    rw [List.cons_append, split, if_neg hquote, if_neg (by simp), Option.getD_some,
      ih (fun hmem => h (List.mem_cons_of_mem _ hmem)), List.reverse_cons, List.append_assoc]
    rfl

theorem split_quote {value : String} (h : '"' ∉ value.toList) (s : List Char) :
    split false none (quote value ++ s) = split false (some value.toList.reverse) s := by
  have hvalue := split_inQuotes h [] s
  rw [List.append_nil] at hvalue
  rw [quote, List.append_assoc, List.cons_append, split, if_pos rfl]
  exact hvalue

def isWordChar (c : Char) : Bool := c ≠ '"' && !Text.isBlank c

theorem split_word {word : List Char} (h : word.all isWordChar = true) (current s : List Char) :
    split false (some current) (word ++ s) = split false (some (word.reverse ++ current)) s := by
  induction word generalizing current with
  | nil => rfl
  | cons c word ih =>
    obtain ⟨hc, hword⟩ := Bool.and_eq_true_iff.1 h
    obtain ⟨hquote, hblank⟩ : c ≠ '"' ∧ Text.isBlank c = false := by simpa [isWordChar] using hc
    rw [List.cons_append, split, if_neg hquote, if_neg (by simp [hblank]), Option.getD_some,
      ih hword, List.reverse_cons, List.append_assoc]
    rfl

theorem split_word_none {word : List Char} (h : word.all isWordChar = true) (hne : word ≠ [])
    (s : List Char) :
    split false none (word ++ s) = split false (some word.reverse) s := by
  obtain ⟨c, word, rfl⟩ := List.exists_cons_of_ne_nil hne
  obtain ⟨hc, hword⟩ := Bool.and_eq_true_iff.1 h
  obtain ⟨hquote, hblank⟩ : c ≠ '"' ∧ Text.isBlank c = false := by simpa [isWordChar] using hc
  rw [List.cons_append, split, if_neg hquote, if_neg (by simp [hblank]), Option.getD_none,
    split_word hword, List.reverse_cons]

/-- A part with the blanks before it and, for a switch, those before its value. -/
inductive WrittenPart where
  | url (before : Separator) (value : String)
  | switched (before : Separator) (switch : Switch) (between : Separator) (value : String)

namespace WrittenPart

def part : WrittenPart → Part
  | .url _ value => .url value
  | .switched _ switch _ value => .switched switch value

def chars : WrittenPart → List Char
  | .url before value => before.chars ++ quote value
  | .switched before switch between value =>
    before.chars ++ switch.word.toList ++ between.chars ++ quote value

theorem split_parts {parts : List WrittenPart}
    (h : ∀ written ∈ parts, '"' ∉ written.part.value.toList) (current : List Char) :
    split false (some current) (parts.flatMap chars) = current.reverse ::
      (parts.flatMap fun written => written.part.arguments).map String.toList := by
  induction parts generalizing current with
  | nil => rfl
  | cons written parts ih =>
    have hparts :=
      ih (fun w hw => h w (List.mem_cons_of_mem _ hw)) written.part.value.toList.reverse
    rw [List.reverse_reverse] at hparts
    cases written with
    | url before value =>
      have hvalue : '"' ∉ value.toList := h _ List.mem_cons_self
      rw [List.flatMap_cons, chars, List.append_assoc, split_separator, split_quote hvalue]
      exact congrArg (current.reverse :: ·) hparts
    | switched before switch between value =>
      have hvalue : '"' ∉ value.toList := h _ List.mem_cons_self
      have hword : switch.word.toList.all isWordChar = true := by cases switch <;> decide
      have hne : switch.word.toList ≠ [] := by cases switch <;> decide
      rw [List.flatMap_cons, chars, List.append_assoc, List.append_assoc, List.append_assoc,
        split_separator, split_word_none hword hne, split_separator, split_quote hvalue,
        List.reverse_reverse]
      exact congrArg (fun rest => current.reverse :: switch.word.toList :: rest) hparts

end WrittenPart

/-! Instructions -/

structure Instruction where
  before : Blanks := {}
  parts : List WrittenPart
  after : Blanks := {}

namespace Instruction

def core (i : Instruction) : List Char := keyword.toList ++ i.parts.flatMap WrittenPart.chars

def text (i : Instruction) : String :=
  String.ofList (i.before.chars ++ i.core ++ i.after.chars)

/-- It says what the link says, in some order. -/
def Says (i : Instruction) (link : Hyperlink) : Prop :=
  (i.parts.map WrittenPart.part).Perm link.parts

instance (i : Instruction) (link : Hyperlink) : Decidable (i.Says link) :=
  inferInstanceAs (Decidable ((i.parts.map WrittenPart.part).Perm link.parts))

variable {i : Instruction} {link : Hyperlink}

theorem quote_notMem (hlink : link.Quotable) (h : i.Says link) :
    ∀ written ∈ i.parts, '"' ∉ written.part.value.toList :=
  fun _ hmem => hlink.quote_notMem _ (h.subset (List.mem_map_of_mem hmem))

theorem arguments_core (hlink : link.Quotable) (h : i.Says link) :
    arguments (String.ofList i.core) =
      keyword :: (i.parts.map WrittenPart.part).flatMap Part.arguments := by
  have hword : keyword.toList.all isWordChar = true := by decide
  rw [arguments, String.toList_ofList, core, split_word_none hword (by decide),
    WrittenPart.split_parts (quote_notMem hlink h), List.reverse_reverse, List.map_cons,
    List.map_map, String.ofList_toList, List.flatMap_map]
  have hid : String.ofList ∘ String.toList = id := funext fun _ => String.ofList_toList
  rw [hid, List.map_id]

theorem getLast?_chars (written : WrittenPart) : written.chars.getLast? = some '"' := by
  cases written <;> simp [WrittenPart.chars, quote, List.getLast?_cons]

theorem getLast?_core (i : Instruction) :
    i.core.getLast? = some 'K' ∨ i.core.getLast? = some '"' := by
  rw [core]
  cases hparts : i.parts.getLast? with
  | none =>
    left
    rw [List.getLast?_eq_none_iff.1 hparts]
    decide
  | some last =>
    right
    obtain ⟨front, hfront⟩ := List.getLast?_eq_some_iff.1 hparts
    rw [hfront, List.flatMap_append, List.flatMap_singleton, ← List.append_assoc,
      List.getLast?_append, getLast?_chars]
    rfl

theorem trim?_text (i : Instruction) : Text.trim? i.text = some (String.ofList i.core) := by
  have hcore : i.core = 'H' :: (keyword.toList.tail ++ i.parts.flatMap WrittenPart.chars) := rfl
  have hhead : ∀ c ∈ i.core.head?, Text.isBlank c = false := by
    intro c hc
    rw [hcore] at hc
    obtain rfl := Option.some.inj hc
    decide
  have hlast : ∀ c ∈ i.core.getLast?, Text.isBlank c = false := by
    intro c hc
    obtain hlast | hlast := i.getLast?_core
    · rw [hlast] at hc
      obtain rfl := Option.some.inj hc
      decide
    · rw [hlast] at hc
      obtain rfl := Option.some.inj hc
      decide
  have htrim := Text.trimChars_append i.before.isBlank_of_mem i.after.isBlank_of_mem hhead hlast
    (by simp [hcore])
  rw [Text.trim?, text, String.toList_ofList, htrim, hcore]

theorem hyperlink?_of_instruction (hlink : link.Quotable) (h : i.Says link)
    {contents : List Token} (hcontents : instruction? contents = some (String.ofList i.core)) :
    hyperlink? contents = some link := by
  unfold hyperlink?
  rw [hcontents, Option.map_some, arguments_core hlink h]
  dsimp only
  rw [if_pos rfl, Hyperlink.ofArguments_of_perm hlink h]

end Instruction

/-- The last group with a text and without a role of its own holds the instruction. -/
theorem instruction?_of_last {inner after : List Token} {s : String}
    (hinner : Group.destination? inner = none) (hs : (Group.texts inner).head? = some s)
    (hafter : nestedTexts after = []) (before : List Token) :
    instruction? (before ++ .group inner :: after) = Text.trim? s := by
  have hnested : nestedTexts (.group inner :: after) = s :: nestedTexts after := by
    simp [nestedTexts, Group.groups, Token.group?, hinner, hs]
  rw [instruction?_group, nestedTexts_append, hnested, hafter, List.getLast?_append]
  rfl

/-- However a link is written as an instruction, a group reads back as just this link if it holds
nothing else, and if its last group with a text and without a role of its own begins its texts with
the instruction. -/
theorem hyperlink?_written {link : Hyperlink} (hlink : link.Quotable) {i : Instruction}
    (h : i.Says link) :
    hyperlink? [.atom .ignoreUnrecognized, .atom (.destination .fieldInstructions),
        .atom (.text i.text)] = some link ∧
      ∀ before inner after : List Token, Group.destination? inner = none →
        (Group.texts inner).head? = some i.text →
        (∀ g ∈ Group.groups after, Group.destination? g = none → Group.texts g = []) →
        hyperlink? (before ++ .group inner :: after) = some link := by
  constructor
  · exact Instruction.hyperlink?_of_instruction hlink h i.trim?_text
  · intro before inner after hinner htext hafter
    have hnested : nestedTexts after = [] := by
      rw [nestedTexts, List.filterMap_eq_nil_iff]
      intro g hg
      obtain ⟨hmem, hnone⟩ := List.mem_filter.1 hg
      rw [hafter g hmem (Option.isNone_iff_eq_none.1 hnone)]
      rfl
    refine Instruction.hyperlink?_of_instruction hlink h ?_
    rw [instruction?_of_last hinner htext hnested, i.trim?_text]

def awkwardLink : Hyperlink := { url := some "a b", anchor := some "\\o", title := some "" }

def awkwardInstruction : Instruction :=
  let blank : Separator :=
    { chars := [' '], chars_ne_nil := by simp, isBlank_of_mem := by simp [Text.isBlank] }
  let blanks : Separator :=
    { chars := ['\n', '\t'], chars_ne_nil := by simp, isBlank_of_mem := by simp [Text.isBlank] }
  { parts :=
      [.switched blank .anchor blanks "\\o", .url blanks "a b", .switched blank .title blank ""]
    after := blanks.toBlanks }

theorem hyperlink?_written_awkwardLink :
    awkwardLink.Quotable ∧ awkwardInstruction.Says awkwardLink ∧
      awkwardInstruction.text = "HYPERLINK \\l\n\t\"\\o\"\n\t\"a b\" \\o \"\"\n\t" ∧
      hyperlink? [.atom (.bold true), .group [.atom (.text awkwardInstruction.text)],
        .group [.atom (.destination .fieldResult), .atom (.text "x")]] = some awkwardLink := by
  have hlink : awkwardLink.Quotable := ⟨by decide, by decide⟩
  have hsays : awkwardInstruction.Says awkwardLink := by decide
  exact ⟨hlink, hsays, by decide,
    (hyperlink?_written hlink hsays).2 [.atom (.bold true)] _ _ rfl rfl (by decide)⟩

end Field

end RichText
