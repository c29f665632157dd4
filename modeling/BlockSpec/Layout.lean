import BlockSpec.Text.Basic

/-! # Layout of embedded code

A body of code is moved to the left by the indentation of its first line and then to the right by
the indentation of the place it is copied to. Only the first line is measured: every later line
loses exactly that many characters, whatever they are. -/

namespace BlockSpec

/-- How many blanks a line starts with. -/
def indentWidth (line : Text) : Nat := (line.takeWhile isBlank).length

/-- Takes the indentation of the first line away from every line. -/
def dedent : List Text → List Text
  | [] => []
  | first :: rest => (first :: rest).map (·.drop (indentWidth first))

/-- Puts spaces in front of every line that is not empty. -/
def reindent (width : Nat) (rows : List Text) : List Text :=
  rows.map fun row => if row.isEmpty then [] else Text.spaces width ++ row

end BlockSpec
