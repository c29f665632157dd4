import BlockSpec.Naming
import BlockSpec.Tree.Basic

/-! # Test units

A unit is one scope together with the tests that stand directly in it; each unit becomes one test
class. Units are found by one walk through the tree and come in the order of their first tests.

What is set up before a test comes from the whole chain of scopes around it, the outermost first.
Within a scope a binding takes the place of an earlier binding of the same name; bindings of
different scopes all run, and the inner one, running later, wins. -/

namespace BlockSpec

/-- A scope and the tests directly in it. -/
structure TestUnit where
  scope : Nat
  tests : List Nat
  deriving DecidableEq, Repr

namespace Tree

/-- The kind of the block at a position. -/
def kind (t : Tree) (i : Nat) : Kind := (t.block i).kind

/-- The snake name of the block at a position. -/
def nameOf (t : Tree) (i : Nat) : Text := snake (t.block i).label

/-- The tests that stand directly in a block. -/
def tests (t : Tree) (i : Nat) : List Nat := (t.children i).filter fun j => t.kind j = .test

/-- The units in the block at `i`: its own at the place of its first test, and those of the scopes
inside it at their places, as far as `n` blocks lead down. -/
def unitsWithin (t : Tree) : Nat → Nat → List TestUnit
  | 0, _ => []
  | n + 1, i =>
    let inner := fun j => if (t.kind j).isScope then t.unitsWithin n j else []
    let own := if (t.tests i).isEmpty then [] else [⟨i, t.tests i⟩]
    ((t.children i).takeWhile fun j => t.kind j ≠ .test).flatMap inner ++ own ++
      ((t.children i).dropWhile fun j => t.kind j ≠ .test).flatMap inner

/-- All units of a spec. -/
def units (t : Tree) : List TestUnit := t.unitsWithin t.size 0

/-- The scopes around and including a block, the outermost first, the file left out. -/
def scopeChain (t : Tree) (i : Nat) : List Nat := ((t.lineage i).filter (· ≠ 0)).reverse

/-- Adds a set-up block to those of its scope: a binding replaces an earlier one of its name. -/
def declare (t : Tree) (earlier : List Nat) (j : Nat) : List Nat :=
  match t.kind j with
  | .before => earlier ++ [j]
  | .binding =>
    earlier.filter (fun i => !(t.kind i = .binding && t.nameOf i == t.nameOf j)) ++ [j]
  | _ => earlier

/-- The set-up blocks of one scope, in the order in which they run. -/
def localSetUps (t : Tree) (scope : Nat) : List Nat := (t.children scope).foldl t.declare []

/-- The blocks that run before each test of a scope. -/
def setUps (t : Tree) (scope : Nat) : List Nat := (t.scopeChain scope).flatMap t.localSetUps

/-- The blocks that run after each test of a scope. -/
def tearDowns (t : Tree) (scope : Nat) : List Nat :=
  (t.scopeChain scope).flatMap fun i => (t.children i).filter fun j => t.kind j = .after

/-- The name of the class of a scope: `Test` and the camel names of its chain. -/
def className (t : Tree) (scope : Nat) : Text :=
  "Test".toList ++ (t.scopeChain scope).flatMap fun i => camel (t.block i).label

end Tree

end BlockSpec
