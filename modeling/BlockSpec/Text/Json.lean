import BlockSpec.Digest.Basic

/-! # JSON text

Values are written over several lines, indented by two spaces for each level; lists and objects
without members stay on one line. In strings only quotes, backslashes and control characters are
escaped. -/

namespace BlockSpec

/-- A value to be written as JSON. Objects keep the order of their members. -/
inductive JsonValue where
  | number (n : Int)
  | string (t : Text)
  | list (items : List JsonValue)
  | object (members : List (String × JsonValue))

namespace JsonValue

/-- How one character is written inside a string. -/
def escaped (c : Char) : Text :=
  if c = '"' then ['\\', '"']
  else if c = '\\' then ['\\', '\\']
  else if c = '\n' then ['\\', 'n']
  else if c = '\r' then ['\\', 'r']
  else if c = '\t' then ['\\', 't']
  else if c = '\x08' then ['\\', 'b']
  else if c = '\x0C' then ['\\', 'f']
  else if c.toNat < 32 then ['\\', 'u'] ++ hexPadded 4 c.toNat
  else [c]

/-- A string between quotes. -/
def stringText (t : Text) : Text := '"' :: (t.flatMap escaped ++ ['"'])

/-- A new line at a level. -/
def newline (level : Nat) : Text := '\n' :: Text.spaces (2 * level)

/-- Members between brackets, each on a line of its own. -/
def bracketed (level : Nat) (opening closing : Char) (members : List Text) : Text :=
  if members.isEmpty then [opening, closing]
  else opening :: newline (level + 1) ++
    Text.joinWith (',' :: newline (level + 1)) members ++ newline level ++ [closing]

/-- The text of a value whose first line starts at a level. -/
def pretty (level : Nat) : JsonValue → Text
  | number n => Text.ofInt n
  | string t => stringText t
  | list items => bracketed level '[' ']' (items.attach.map fun ⟨v, _⟩ => v.pretty (level + 1))
  | object members =>
    bracketed level '\x7b' '\x7d' (members.attach.map fun ⟨m, _⟩ =>
      stringText m.1.toList ++ ": ".toList ++ m.2.pretty (level + 1))
termination_by v => sizeOf v
decreasing_by
  · have := List.sizeOf_lt_of_mem ‹_›
    simp only [list.sizeOf_spec]
    omega
  · rename_i h
    have := List.sizeOf_lt_of_mem h
    cases m
    simp only [object.sizeOf_spec, Prod.mk.sizeOf_spec] at *
    omega

end JsonValue

end BlockSpec
