import BlockSpec.Text.Basic

/-! # Kinds of block

A spec is made of blocks of six kinds, each opened by its keyword, inside one synthetic block for
the whole file. The nesting table says which kinds may stand directly inside which. -/

namespace BlockSpec

/-- The kinds of block; `group` is the file itself. -/
inductive Kind where
  | group
  | describe
  | context
  | before
  | after
  | binding
  | test
  deriving DecidableEq, Repr

namespace Kind

/-- The word that names a kind in a spec and in messages. -/
def keyword : Kind → String
  | group => "file"
  | describe => "describe"
  | context => "context"
  | before => "before"
  | after => "after"
  | binding => "let"
  | test => "it"

/-- The word that names a kind in a serialised tree: the keyword, but `group` for the file. -/
def tag : Kind → String
  | group => "group"
  | kind => kind.keyword

/-- The kinds that a keyword opens, in the order in which a header is tried against them. -/
def openable : List Kind := [describe, context, before, after, binding, test]

/-- All kinds. -/
def all : List Kind := group :: openable

/-- The kind that a word opens. The file has no opening word. -/
def ofKeyword? (word : Text) : Option Kind := openable.find? (·.keyword.toList == word)

/-- The kinds that may stand directly inside a kind. -/
def children : Kind → List Kind
  | group => [describe]
  | describe => [describe, context, before, after, binding, test]
  | context => [context, before, after, binding, test]
  | _ => []

/-- Whether a kind may stand directly inside another. -/
def accepts (parent child : Kind) : Bool := parent.children.contains child

/-- Blocks of these kinds hold tests and give their labels to the generated classes. -/
def isScope : Kind → Bool
  | describe | context => true
  | _ => false

/-- Blocks of these kinds carry a suffix that tells equal labels apart. -/
def takesSuffix : Kind → Bool
  | before | after => true
  | _ => false

end Kind

end BlockSpec
