import BlockSpec.Text.Basic

/-! # Problems with settings

What can be wrong with a settings file, as causes, and how each is put in words. -/

namespace BlockSpec

namespace Config

/-- The keys of settings. -/
inductive Field where
  | extension
  | outputDir
  | baseClass
  | interpreter
  | lineMarkers
  | colors
  deriving DecidableEq, Repr

namespace Field

/-- All keys, in the order in which messages list them. -/
def all : List Field := [extension, outputDir, baseClass, interpreter, lineMarkers, colors]

/-- How a key is written. -/
def key : Field → String
  | extension => "extension"
  | outputDir => "output_dir"
  | baseClass => "base_class"
  | interpreter => "interpreter"
  | lineMarkers => "line_markers"
  | colors => "colors"

/-- The key that a text spells. -/
def ofKey? (t : Text) : Option Field := all.find? (·.key.toList == t)

end Field

/-- What can be wrong with a settings file. -/
inductive Problem where
  | malformed
  | moreDocuments
  | unknownField (name : Text)
  | duplicateField (field : Field)
  /-- Something else was expected than what was found, under a key or at the root. -/
  | invalidType (key : Option Text) (found : Text) (expected : String)
  /-- The tag asks for another value than what was found. -/
  | invalidValue (key : Option Text) (found : Text) (expected : String)
  deriving DecidableEq, Repr

namespace Problem

/-- A key in front of a message. -/
def under (key : Option Text) (message : Text) : Text :=
  match key with
  | some k => k ++ ": ".toList ++ message
  | none => message

/-- What is wrong, in words. -/
def message : Problem → Text
  | malformed => "the document is malformed".toList
  | moreDocuments =>
    "deserializing from YAML containing more than one document is not supported".toList
  | unknownField name =>
    "unknown field `".toList ++ name ++ "`, expected one of ".toList ++
      Text.joinWith ", ".toList (Field.all.map fun f => ("`" ++ f.key ++ "`").toList)
  | duplicateField field => ("duplicate field `" ++ field.key ++ "`").toList
  | invalidType key found expected =>
    under key ("invalid type: ".toList ++ found ++ ", expected ".toList ++ expected.toList)
  | invalidValue key found expected =>
    under key ("invalid value: ".toList ++ found ++ ", expected ".toList ++ expected.toList)

end Problem

/-- A problem and the place it was found at: line and column, counted from zero. -/
structure Failure where
  problem : Problem
  line : Nat := 0
  column : Nat := 0
  deriving DecidableEq, Repr

/-- The message with its place, counted from one, unless that is the very start. -/
def Failure.message (f : Failure) : Text :=
  f.problem.message ++
    if f.line = 0 && f.column = 0 then []
    else " at line ".toList ++ Text.ofNat (f.line + 1) ++ " column ".toList ++
      Text.ofNat (f.column + 1)

end Config

end BlockSpec
