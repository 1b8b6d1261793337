set_option autoImplicit false

namespace RichText.Html

def escapeTextChar (c : Char) : List Char :=
  if c = '&' then ['&', 'a', 'm', 'p', ';']
  else if c = '<' then ['&', 'l', 't', ';']
  else if c = '>' then ['&', 'g', 't', ';']
  else [c]

def escapeText (s : List Char) : List Char := s.flatMap escapeTextChar

def escapeAttributeChar (c : Char) : List Char :=
  if c = '"' then ['&', 'q', 'u', 'o', 't', ';'] else escapeTextChar c

def escapeAttribute (s : List Char) : List Char := s.flatMap escapeAttributeChar

/-- Replaces each of the four references once, from left to right. -/
def unescape : List Char → List Char
  | '&' :: 'a' :: 'm' :: 'p' :: ';' :: rest => '&' :: unescape rest
  | '&' :: 'l' :: 't' :: ';' :: rest => '<' :: unescape rest
  | '&' :: 'g' :: 't' :: ';' :: rest => '>' :: unescape rest
  | '&' :: 'q' :: 'u' :: 'o' :: 't' :: ';' :: rest => '"' :: unescape rest
  | c :: rest => c :: unescape rest
  | [] => []

theorem unescape_cons {c : Char} (h : c ≠ '&') (s : List Char) :
    unescape (c :: s) = c :: unescape s := by
  rw [unescape] <;> simp_all

theorem unescape_escapeAttribute (s : List Char) : unescape (escapeAttribute s) = s := by
  induction s with
  | nil => rfl
  | cons c s ih =>
    rw [escapeAttribute, List.flatMap_cons, ← escapeAttribute]
    by_cases h₀ : c = '"'
    · subst h₀; simp [escapeAttributeChar, unescape, ih]
    by_cases h₁ : c = '&'
    · subst h₁; simp [escapeAttributeChar, escapeTextChar, unescape, ih]
    by_cases h₂ : c = '<'
    · subst h₂; simp [escapeAttributeChar, escapeTextChar, unescape, ih]
    by_cases h₃ : c = '>'
    · subst h₃; simp [escapeAttributeChar, escapeTextChar, unescape, ih]
    simp [escapeAttributeChar, escapeTextChar, h₀, h₁, h₂, h₃, unescape_cons, ih]

theorem bracket_notMem_escapeText (s : List Char) : '<' ∉ escapeText s ∧ '>' ∉ escapeText s := by
  simp only [escapeText, List.mem_flatMap, not_exists, not_and, escapeTextChar]
  constructor <;> intro c _ h <;> (repeat' split at h) <;> simp at h <;>
    exact absurd h.symm (by assumption)

theorem special_notMem_escapeAttribute (s : List Char) :
    '<' ∉ escapeAttribute s ∧ '>' ∉ escapeAttribute s ∧ '"' ∉ escapeAttribute s := by
  simp only [escapeAttribute, List.mem_flatMap, not_exists, not_and, escapeAttributeChar,
    escapeTextChar]
  refine ⟨?_, ?_, ?_⟩ <;> intro c _ h <;> (repeat' split at h) <;> simp at h <;>
    exact absurd h.symm (by assumption)

end RichText.Html
