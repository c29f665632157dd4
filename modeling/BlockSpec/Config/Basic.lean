import BlockSpec.Path
import BlockSpec.TestModule.Render

/-! # Settings

What a project can choose: which files are specs, where modules go, what their classes derive from,
how they are run, and how the output looks. -/

namespace BlockSpec

/-- The settings of a project. -/
structure Config where
  /-- The extension of spec files. -/
  extension : Text := "carinata".toList
  /-- Where generated modules go, unless that is the default place. -/
  outputDir : Option Path := none
  /-- The class that test classes derive from. -/
  baseClass : Text := "unittest.TestCase".toList
  /-- The program that runs modules. -/
  interpreter : Text := "python3".toList
  /-- Whether copied lines are marked with their line numbers. -/
  lineMarkers : Bool := false
  /-- Whether output is coloured; left open, that depends on where it goes. -/
  colors : Option Bool := none
  deriving DecidableEq, Repr

namespace Config

/-- The directory that modules are written under. -/
def outputRoot (c : Config) (temporary : Path) : Path :=
  c.outputDir.getD (Path.join temporary "carinata".toList)

/-- How modules are generated under these settings. -/
def options (c : Config) : Options := { baseClass := c.baseClass, lineMarkers := c.lineMarkers }

end Config

end BlockSpec
