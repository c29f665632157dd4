import BlockSpec.Fault
import BlockSpec.MethodName
import BlockSpec.Units

/-! # Test modules

The classes and methods of the generated module, before they are written out. A method is a name
and the block whose code it holds. -/

namespace BlockSpec

/-- A method of a test class. -/
structure Method where
  name : Text
  /-- The block whose code the method holds. -/
  owner : Nat
  deriving DecidableEq, Repr

/-- A test class. -/
structure TestClass where
  name : Text
  /-- The scopes whose decorators and code the class takes, the outermost first. -/
  scopes : List Nat
  setUps : List Method
  tearDowns : List Method
  tests : List Method
  deriving DecidableEq, Repr

namespace TestClass

/-- The class of a unit. Names are given to set-up methods first, then to tear-down methods, then
to tests. -/
def ofUnit (t : Tree) (unit : TestUnit) : TestClass :=
  let setUps := t.setUps unit.scope
  let tearDowns := t.tearDowns unit.scope
  let setUpNames := MethodName.setUps [] 0 (setUps.map t.block)
  let tearDownNames := MethodName.tearDowns 0 (tearDowns.map t.block)
  let testNames := MethodName.tests (tearDownNames ++ setUpNames) (unit.tests.map t.block)
  { name := t.className unit.scope
    scopes := t.scopeChain unit.scope
    setUps := List.zipWith Method.mk setUpNames setUps
    tearDowns := List.zipWith Method.mk tearDownNames tearDowns
    tests := List.zipWith Method.mk testNames unit.tests }

end TestClass

/-- The statement of the set-up dispatcher that runs one set-up method: the value of a binding is
kept as an attribute. -/
def setUpCall (t : Tree) (m : Method) : Except Fault Text :=
  match t.kind m.owner with
  | .before => .ok ("self.".toList ++ m.name ++ "()".toList)
  | .binding =>
    .ok ("self.".toList ++ t.nameOf m.owner ++ " = self.".toList ++ m.name ++ "()".toList)
  | other => .error (.setUp other (t.block m.owner).line)

/-- The statement of the tear-down dispatcher that runs one tear-down method. -/
def tearDownCall (m : Method) : Text := "self.".toList ++ m.name ++ "()".toList

end BlockSpec
