import RichText.Html.Markup
set_option autoImplicit false

/-!
Reading pages back. The reader knows the tags that pages are made of and no others, and a bracket
that is no end of a tag is an error to it, in text as in the value of an attribute. Main statement:
`read_write`.
-/
namespace RichText.Html

/-- What a reader finds in a page: a tag or a character. -/
inductive Lexeme where
  | opening (element : Element) (attributes : List Attribute)
  | closing (element : Element)
  | void (element : VoidElement) (attributes : List Attribute)
  | char (c : Char)
deriving DecidableEq

def Markup.lexemes : Markup → List Lexeme
  | .opening element attributes => [.opening element attributes]
  | .closing element => [.closing element]
  | .void element attributes => [.void element attributes]
  | .text s => s.toList.map .char

instance : Enumeration Element where
  all := [.div, .p, .ol, .ul, .li, .table, .tr, .td, .a, .span]
  name := Element.name
  find_name element := by cases element <;> decide

instance : Enumeration VoidElement where
  all := [.br, .img]
  name := VoidElement.name
  find_name element := by cases element <;> decide

instance : Enumeration AttributeName where
  all := [.style, .href, .title, .target, .id, .src]
  name := AttributeName.text
  find_name name := by cases name <;> decide

/-! Tags -/

def readKey : List Char → Option AttributeName
  | ' ' :: key =>
    if key.getLast? = some '=' then Enumeration.ofName? (String.ofList key.dropLast) else none
  | _ => none

def readAttributes : List (List Char) → Option (List Attribute)
  | [[]] => some []
  | key :: value :: rest => do
    let name ← readKey key
    let attributes ← readAttributes rest
    pure (⟨name, String.ofList (unescape value)⟩ :: attributes)
  | _ => none

/-- Reads a tag that is not an end tag, split at its quotes: its name goes to the first blank. -/
def readStart : List (List Char) → Option Lexeme
  | [] => none
  | head :: rest => do
    let name := String.ofList (head.takeWhile (· ≠ ' '))
    let attributes ← readAttributes (head.dropWhile (· ≠ ' ') :: rest)
    match Enumeration.ofName? name with
    | some element => pure (.opening element attributes)
    | none => (Enumeration.ofName? name).map (.void · attributes)

def readTag : List Char → Option Lexeme
  | '/' :: name => (Enumeration.ofName? (String.ofList name)).map .closing
  | body => readStart (body.splitOn '"')

def splitAttributes (head : List Char) : List Attribute → List (List Char)
  | [] => [head]
  | a :: as =>
    (head ++ ' ' :: a.name.text.toList ++ ['=']) :: escapeAttribute a.value.toList ::
      splitAttributes [] as

theorem special_notMem_attributeName (n : AttributeName) :
    '"' ∉ n.text.toList ∧ ' ' ∉ n.text.toList := by
  cases n <;> decide

theorem splitOn_attributes {head : List Char} (h : '"' ∉ head) (attributes : List Attribute) :
    (head ++ attributes.flatMap Attribute.chars).splitOn '"' =
      splitAttributes head attributes := by
  induction attributes generalizing head with
  | nil =>
    rw [List.flatMap_nil, List.append_nil]
    exact List.splitOn_eq_singleton h
  | cons a as ih =>
    have hname := (special_notMem_attributeName a.name).1
    have hvalue := (special_notMem_escapeAttribute a.value.toList).2.2
    have hkey : '"' ∉ head ++ ' ' :: a.name.text.toList ++ ['='] := by simp [h, hname]
    have hsplit : head ++ (a :: as).flatMap Attribute.chars =
        (head ++ ' ' :: a.name.text.toList ++ ['=']) ++ '"' ::
          (escapeAttribute a.value.toList ++ '"' :: ([] ++ as.flatMap Attribute.chars)) := by
      simp [Attribute.chars]
    rw [hsplit, List.splitOn_append_cons_self_of_not_mem hkey,
      List.splitOn_append_cons_self_of_not_mem hvalue, ih (by simp)]
    rfl

theorem readKey_wire (n : AttributeName) : readKey (' ' :: n.text.toList ++ ['=']) = some n := by
  have hname : Enumeration.ofName? n.text = some n := Enumeration.ofName?_name n
  simp [readKey, hname]

theorem readAttributes_splitAttributes (attributes : List Attribute) :
    readAttributes (splitAttributes [] attributes) = some attributes := by
  induction attributes with
  | nil => rfl
  | cons a as ih =>
    rw [splitAttributes, List.nil_append, readAttributes, readKey_wire, ih,
      unescape_escapeAttribute, String.ofList_toList]
    rfl

theorem readStart_splitAttributes {name : List Char} (h : ' ' ∉ name)
    (attributes : List Attribute) :
    readStart (splitAttributes name attributes) =
      match Enumeration.ofName? (String.ofList name) with
      | some element => some (.opening element attributes)
      | none => (Enumeration.ofName? (String.ofList name)).map (.void · attributes) := by
  have hname : ∀ c ∈ name, decide (c ≠ ' ') = true := by
    intro c hc
    have hne : c ≠ ' ' := fun heq => h (heq ▸ hc)
    simpa using hne
  have hsplit : ∃ head rest, splitAttributes name attributes = head :: rest ∧
      head.takeWhile (· ≠ ' ') = name ∧
      head.dropWhile (· ≠ ' ') :: rest = splitAttributes [] attributes := by
    cases attributes with
    | nil =>
      refine ⟨name, [], rfl, ?_, ?_⟩
      · rw [← List.append_nil name, List.takeWhile_append_of_pos hname]
        rfl
      · rw [← List.append_nil name, List.dropWhile_append_of_pos hname]
        rfl
    | cons a as =>
      refine ⟨_, _, rfl, ?_, ?_⟩
      · rw [List.append_assoc, List.takeWhile_append_of_pos hname]
        simp
      · rw [List.append_assoc, List.dropWhile_append_of_pos hname]
        simp [splitAttributes]
  obtain ⟨head, rest, hcons, htake, hdrop⟩ := hsplit
  rw [hcons, readStart, htake, hdrop, readAttributes_splitAttributes]
  rfl

theorem readTag_tagBody {name : String} (hslash : name.toList.head? ≠ some '/')
    (hblank : ' ' ∉ name.toList) (hquote : '"' ∉ name.toList) (hne : name.toList ≠ [])
    (attributes : List Attribute) :
    readTag (tagBody name attributes) =
      match Enumeration.ofName? name with
      | some element => some (.opening element attributes)
      | none => (Enumeration.ofName? name).map (.void · attributes) := by
  have hbody : readTag (tagBody name attributes) =
      readStart ((tagBody name attributes).splitOn '"') := by
    unfold readTag
    split
    · rename_i rest hrest
      rw [tagBody] at hrest
      cases hchars : name.toList with
      | nil => exact absurd hchars hne
      | cons c cs =>
        rw [hchars, List.cons_append, List.cons.injEq] at hrest
        rw [hchars, List.head?_cons, hrest.1] at hslash
        exact absurd rfl hslash
    · rfl
  rw [hbody, tagBody, splitOn_attributes hquote, readStart_splitAttributes hblank,
    String.ofList_toList]

theorem readTag_opening (element : Element) (attributes : List Attribute) :
    readTag (tagBody element.name attributes) = some (.opening element attributes) := by
  have hname : Enumeration.ofName? element.name = some element := Enumeration.ofName?_name element
  rw [readTag_tagBody, hname]
  all_goals cases element <;> decide

theorem readTag_void (element : VoidElement) (attributes : List Attribute) :
    readTag (tagBody element.name attributes) = some (.void element attributes) := by
  have hname : Enumeration.ofName? element.name = some element := Enumeration.ofName?_name element
  have hother : (Enumeration.ofName? element.name : Option Element) = none := by
    cases element <;> decide
  rw [readTag_tagBody, hname, hother]
  · rfl
  all_goals cases element <;> decide

theorem readTag_closing (element : Element) :
    readTag ('/' :: element.name.toList) = some (.closing element) := by
  have hname : Enumeration.ofName? element.name = some element := Enumeration.ofName?_name element
  rw [readTag, String.ofList_toList, hname]
  rfl

/-! Pages -/

inductive Mode where
  | text
  | reference (name : List Char)
  | tag (body : List Char)

structure Reader where
  lexemes : List Lexeme := []
  mode : Mode := .text

def reference? : List Char → Option Char
  | ['a', 'm', 'p'] => some '&'
  | ['l', 't'] => some '<'
  | ['g', 't'] => some '>'
  | ['q', 'u', 'o', 't'] => some '"'
  | _ => none

namespace Reader

def found (r : Reader) (lexeme : Lexeme) : Reader := { lexemes := r.lexemes ++ [lexeme] }

def step (r : Reader) (c : Char) : Option Reader :=
  match r.mode with
  | .text =>
    if c = '<' then some { r with mode := .tag [] }
    else if c = '>' then none
    else if c = '&' then some { r with mode := .reference [] }
    else some (r.found (.char c))
  | .reference name =>
    if c = ';' then (reference? name).map (fun c => r.found (.char c))
    else some { r with mode := .reference (name ++ [c]) }
  | .tag body =>
    if c = '>' then (readTag body).map r.found
    else if c = '<' then none
    else some { r with mode := .tag (body ++ [c]) }

def finish? (r : Reader) : Option (List Lexeme) :=
  match r.mode with
  | .text => some r.lexemes
  | .reference _ | .tag _ => none

end Reader

def read (page : List Char) : Option (List Lexeme) :=
  (page.foldlM Reader.step {}).bind Reader.finish?

namespace Reader

theorem foldlM_tag {cs : List Char} (h : '<' ∉ cs ∧ '>' ∉ cs) (found : List Lexeme)
    (body rest : List Char) :
    (cs ++ '>' :: rest).foldlM step ⟨found, .tag body⟩ =
      (readTag (body ++ cs)).bind (fun lexeme =>
        rest.foldlM step ⟨found ++ [lexeme], .text⟩) := by
  induction cs generalizing body with
  | nil =>
    rw [List.nil_append, List.append_nil, List.foldlM_cons]
    simp only [step, if_true]
    cases readTag body with
    | none => rfl
    | some lexeme => rfl
  | cons c cs ih =>
    have hopen : c ≠ '<' := by rintro rfl; simp at h
    have hclose : c ≠ '>' := by rintro rfl; simp at h
    have hcs : '<' ∉ cs ∧ '>' ∉ cs :=
      ⟨fun hc => h.1 (List.mem_cons_of_mem _ hc), fun hc => h.2 (List.mem_cons_of_mem _ hc)⟩
    have hstep : step ⟨found, .tag body⟩ c = some ⟨found, .tag (body ++ [c])⟩ := by
      simp [step, hopen, hclose]
    have hrest := ih hcs (body ++ [c])
    rw [List.append_assoc, List.singleton_append] at hrest
    rw [List.cons_append, List.foldlM_cons, hstep]
    exact hrest

theorem foldlM_bracketed {body : List Char} (h : '<' ∉ body ∧ '>' ∉ body) (found : List Lexeme)
    (rest : List Char) :
    ('<' :: body ++ ['>'] ++ rest).foldlM step ⟨found, .text⟩ =
      (readTag body).bind (fun lexeme => rest.foldlM step ⟨found ++ [lexeme], .text⟩) := by
  have hopen : ∀ cs, ('<' :: cs).foldlM step ⟨found, .text⟩ = cs.foldlM step ⟨found, .tag []⟩ :=
    fun cs => rfl
  have htag := foldlM_tag h found [] rest
  rw [List.append_assoc, List.cons_append, hopen]
  exact htag

theorem foldlM_escapeTextChar (c : Char) (found : List Lexeme) (rest : List Char) :
    (escapeTextChar c ++ rest).foldlM step ⟨found, .text⟩ =
      rest.foldlM step ⟨found ++ [.char c], .text⟩ := by
  unfold escapeTextChar
  split
  · rename_i hc
    rw [hc]
    rfl
  split
  · rename_i hc
    rw [hc]
    rfl
  split
  · rename_i hc
    rw [hc]
    rfl
  · rename_i hamp hopen hclose
    have hstep : step ⟨found, .text⟩ c = some ⟨found ++ [.char c], .text⟩ := by
      simp [step, Reader.found, hamp, hopen, hclose]
    rw [List.singleton_append, List.foldlM_cons, hstep]
    rfl

theorem foldlM_escapeText (s : List Char) (found : List Lexeme) (rest : List Char) :
    (escapeText s ++ rest).foldlM step ⟨found, .text⟩ =
      rest.foldlM step ⟨found ++ s.map .char, .text⟩ := by
  induction s generalizing found with
  | nil =>
    rw [List.map_nil, List.append_nil]
    rfl
  | cons c s ih =>
    have hcons : escapeText (c :: s) = escapeTextChar c ++ escapeText s := rfl
    rw [hcons, List.append_assoc, foldlM_escapeTextChar, ih, List.append_assoc]
    rfl

/-- A piece reads back whatever comes after it. -/
theorem foldlM_chars (piece : Markup) (found : List Lexeme) (rest : List Char) :
    (piece.chars ++ rest).foldlM step ⟨found, .text⟩ =
      rest.foldlM step ⟨found ++ piece.lexemes, .text⟩ := by
  cases piece with
  | opening element attributes =>
    have hname : '<' ∉ element.name.toList ∧ '>' ∉ element.name.toList := by
      cases element <;> decide
    have hbody := bracket_notMem_tagBody hname attributes
    have hread := foldlM_bracketed hbody found rest
    rwa [readTag_opening] at hread
  | closing element =>
    have hbody : '<' ∉ '/' :: element.name.toList ∧ '>' ∉ '/' :: element.name.toList := by
      cases element <;> decide
    have hread := foldlM_bracketed hbody found rest
    rwa [readTag_closing] at hread
  | void element attributes =>
    have hname : '<' ∉ element.name.toList ∧ '>' ∉ element.name.toList := by
      cases element <;> decide
    have hbody := bracket_notMem_tagBody hname attributes
    have hread := foldlM_bracketed hbody found rest
    rwa [readTag_void] at hread
  | text s => exact foldlM_escapeText s.toList found rest

theorem foldlM_flatMap_chars (pieces : List Markup) (found : List Lexeme) :
    (pieces.flatMap Markup.chars).foldlM step ⟨found, .text⟩ =
      some ⟨found ++ pieces.flatMap Markup.lexemes, .text⟩ := by
  induction pieces generalizing found with
  | nil =>
    rw [List.flatMap_nil, List.flatMap_nil, List.append_nil]
    rfl
  | cons piece pieces ih =>
    rw [List.flatMap_cons, List.flatMap_cons, foldlM_chars, ih, List.append_assoc]

end Reader

/-- Markup reads back as the pieces that it was written from. -/
theorem read_write (pieces : Array Markup) :
    read (Markup.write pieces).toList = some (pieces.toList.flatMap Markup.lexemes) := by
  have hread := Reader.foldlM_flatMap_chars pieces.toList []
  rw [read, Markup.write, String.toList_ofList, hread]
  rfl

end RichText.Html
