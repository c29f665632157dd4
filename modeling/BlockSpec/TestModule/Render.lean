import BlockSpec.Layout
import BlockSpec.TestModule.Basic

/-! # Writing a test module

A module is a list of rows. A row is either written by the library or copied from a spec line, and a
copied row remembers that line, so that the line markers are a matter of how rows are printed and of
nothing else. -/

namespace BlockSpec

/-- The comment that heads a generated file: the digest of what it was made from, if known, and the
path of its spec. -/
structure Stamp where
  digest : Option Text
  specPath : Text
  deriving DecidableEq, Repr

/-- How a module is generated. -/
structure Options where
  /-- The dotted name of the class that every test class derives from. -/
  baseClass : Text := "unittest.TestCase".toList
  /-- Whether copied lines end in a comment with their line in the spec. -/
  lineMarkers : Bool := false
  stamp : Option Stamp := none
  deriving DecidableEq, Repr

/-- A line of a module. -/
inductive Row where
  /-- A line of the library's own. -/
  | plain (text : Text)
  /-- A line copied from a line of the spec, moved to the right. -/
  | copied (width : Nat) (text : Text) (line : Nat)
  deriving DecidableEq, Repr

namespace Row

/-- A row as text, with its marker if markers are wanted. -/
def render (markers : Bool) : Row → Text
  | plain text => text
  | copied width text line =>
    Text.spaces width ++ text ++ (if markers then "  # L:".toList ++ Text.ofNat line else [])

/-- A row of the library's own, moved to the right. -/
def padded (width : Nat) (text : Text) : Row := plain (Text.spaces width ++ text)

/-- An empty row. -/
def blank : Row := plain []

end Row

namespace Stamp

/-- What the first line of a stamped file starts with. -/
def digestLead : Text := "# sha256: ".toList

/-- The rows of a stamp. -/
def rows (s : Stamp) : List Row :=
  (s.digest.map fun hex => Row.plain (digestLead ++ hex)).toList ++
    [.plain "# This file was auto-generated by carinata".toList,
      .plain "# It may be overwritten at any time, so please refer to the original:".toList,
      .plain ("# ".toList ++ s.specPath), .plain "#".toList]

/-- The digest that the first line of a generated file carries. -/
def readDigest? (generated : Text) : Option Text :=
  match Text.lines generated with
  | [] => none
  | first :: _ =>
    match Text.stripStart? digestLead first with
    | none => none
    | some rest => if Text.allBlank rest then none else some (Text.trim rest)

end Stamp

namespace TestModule

/-- How far the contents of a class are indented. -/
def classWidth : Nat := 4

/-- How far the contents of a method are indented. -/
def methodWidth : Nat := 8

/-- The code of a block: moved left by the indentation of its first line, then right. -/
def codeRows (width : Nat) (b : Block) : List Row :=
  List.zipWith
    (fun row text => if Text.allBlank text then .blank else .copied width text row.line)
    b.body (dedent (b.body.map (·.text)))

/-- The decorators of a block. -/
def decoratorRows (width : Nat) (b : Block) : List Row :=
  b.decorators.map fun row => .copied width row.text row.line

/-- The row that does nothing. -/
def passRow : Row := .padded methodWidth "pass".toList

/-- The row that opens a method. -/
def defRow (t : Tree) (m : Method) : Row :=
  let params := match (t.block m.owner).args with
    | some args => "self, ".toList ++ args
    | none => "self".toList
  .padded classWidth ("def ".toList ++ m.name ++ "(".toList ++ params ++ "):".toList)

/-- A method with its decorators, its code and an empty row behind. -/
def methodRows (t : Tree) (m : Method) : List Row :=
  let b := t.block m.owner
  decoratorRows classWidth b ++ [defRow t m] ++
    (if b.body.isEmpty then [passRow] else codeRows methodWidth b) ++ [.blank]

/-- A method that runs statements one after the other. -/
def dispatcherRows (name : String) (calls : List Text) : List Row :=
  [.padded classWidth ("def ".toList ++ name.toList ++ "(self):".toList)] ++
    (if calls.isEmpty then [passRow] else calls.map (.padded methodWidth)) ++ [.blank]

/-- The code of the scopes that have some, each with an empty row behind. -/
def scopeRows (t : Tree) (scopes : List Nat) : List Row :=
  scopes.flatMap fun i =>
    if (t.block i).body.isEmpty then [] else codeRows classWidth (t.block i) ++ [.blank]

/-- The row that opens a class. -/
def classRow (baseClass : Text) (c : TestClass) : Row :=
  .plain ("class ".toList ++ c.name ++ "(".toList ++ baseClass ++ "):".toList)

/-- A class. The set-up dispatcher is always there, the one for tear-downs only if it has something
to run. -/
def classRows (t : Tree) (baseClass : Text) (c : TestClass) : Except Fault (List Row) := do
  let calls ← c.setUps.mapM (setUpCall t)
  return [.blank, .blank] ++
    c.scopes.flatMap (fun i => decoratorRows 0 (t.block i)) ++
    [classRow baseClass c] ++
    scopeRows t c.scopes ++
    c.setUps.flatMap (methodRows t) ++
    c.tearDowns.flatMap (methodRows t) ++
    dispatcherRows "setUp" calls ++
    (if c.tearDowns.isEmpty then [] else dispatcherRows "tearDown" (c.tearDowns.map tearDownCall)) ++
    c.tests.flatMap (methodRows t)

/-- The import of the module that the base class comes from, unless it is imported anyway. -/
def baseImport (baseClass : Text) : List Row :=
  match Text.splitAtLast? '.' baseClass with
  | some (module, _) =>
    if module == "unittest".toList then [] else [.plain ("import ".toList ++ module)]
  | none => []

/-- What stands before the code of the file: the stamp and the imports. -/
def openingRows (options : Options) : List Row :=
  (options.stamp.map Stamp.rows).getD [] ++ [.plain "import unittest".toList] ++
    baseImport options.baseClass

/-- What stands before the classes. -/
def prologue (t : Tree) (options : Options) : List Row :=
  openingRows options ++ codeRows 0 (t.block 0)

/-- What stands behind the classes. -/
def epilogue (names : List Text) : List Row :=
  [.blank,
    .plain ("__all__ = [".toList ++
      Text.joinWith ", ".toList (names.map fun n => '\'' :: (n ++ ['\''])) ++ "]".toList),
    .blank, .plain "if __name__ == '__main__':".toList, .plain "    unittest.main()".toList]

/-- The classes of a spec, in the order of its units. -/
def classes (t : Tree) : List TestClass := t.units.map (TestClass.ofUnit t)

/-- The rows of a module. -/
def rows (t : Tree) (options : Options) : Except Fault (List Row) := do
  let body ← (classes t).mapM (classRows t options.baseClass)
  return prologue t options ++ body.flatten ++ epilogue ((classes t).map (·.name))

end TestModule

/-- The test module of a tree, as text. -/
def generate (t : Tree) (options : Options) : Except Fault Text :=
  (TestModule.rows t options).map fun rows =>
    Text.ofLines (rows.map (Row.render options.lineMarkers))

end BlockSpec
