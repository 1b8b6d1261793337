set_option autoImplicit false

namespace RichText

/-- A list and the number of its items that are consumed. -/
structure Cursor (α : Type) where
  items : List α
  consumed : Nat := 0

namespace Cursor

variable {α : Type}

def rest (c : Cursor α) : List α := c.items.drop c.consumed

def peek? (c : Cursor α) : Option α := c.items[c.consumed]?

def bump (c : Cursor α) : Option α × Cursor α :=
  match c.peek? with
  | some a => (some a, { c with consumed := c.consumed + 1 })
  | none => (none, c)

def bumpWhile (c : Cursor α) (p : α → Bool) : Cursor α :=
  { c with consumed := c.consumed + (c.rest.takeWhile p).length }

def bumpThrough (c : Cursor α) (p : α → Bool) : Cursor α :=
  (c.bumpWhile (fun a => !p a)).bump.2

def consumedSince (c : Cursor α) (start : Nat) : List α :=
  (c.items.take c.consumed).drop start

def reset (c : Cursor α) (index : Nat) : Cursor α :=
  { c with consumed := min index c.items.length }

end Cursor

end RichText
