import BlockSpec.Kind

/-! # The block tree

The blocks of a spec in the order in which their headers stand, the file's own block first. Blocks
are linked by position, both ways: a block knows the block it stands in and the blocks that stand
directly in it. Following the links up gives a block's ancestors, following them down is a walk that
visits every block before the blocks inside it.

A way along the links that comes to no block twice is no longer than there are blocks, so that many
steps are enough for both. -/

namespace BlockSpec

/-- One line of embedded code with its number in the spec, counted from one. -/
structure CodeLine where
  line : Nat
  text : Text
  deriving DecidableEq, Repr

/-- A block of a spec. -/
structure Block where
  kind : Kind
  /-- How far the header is indented; the file stands at `-1`. -/
  indent : Int
  label : Text
  /-- The number of the header line; zero for the file. -/
  line : Nat
  /-- What tells blocks of equal label apart. -/
  suffix : Option Text := none
  /-- Extra parameters of a test. -/
  args : Option Text := none
  /-- The decorator lines directly above the header, without their indentation. -/
  decorators : List CodeLine := []
  /-- The code of the block as written, code from the header line first. -/
  body : List CodeLine := []
  /-- The positions of the blocks that stand directly in this one, in order. -/
  children : List Nat := []
  /-- The position of the block that this one stands in; none for the file. -/
  parent : Option Nat := none
  deriving DecidableEq, Repr

namespace Block

/-- The block of the file itself. -/
def root : Block := { kind := .group, indent := -1, label := [], line := 0 }

/-- The label with the suffix behind it. -/
def uniqueLabel (b : Block) : Text := b.label ++ b.suffix.getD []

end Block

/-- The blocks of a spec, in the order of their headers. -/
structure Tree where
  blocks : Array Block
  deriving DecidableEq, Repr

namespace Tree

/-- How many blocks there are, the file's own counted. -/
def size (t : Tree) : Nat := t.blocks.size

/-- The block at a position. -/
def block (t : Tree) (i : Nat) : Block := t.blocks[i]?.getD Block.root

/-- The position of the block that the block at `i` stands in. -/
def parent? (t : Tree) (i : Nat) : Option Nat := (t.block i).parent

/-- The positions of the blocks that stand directly inside the block at `i`. -/
def children (t : Tree) (i : Nat) : List Nat := (t.block i).children

/-- The ancestors of a block, nearest first, as far as `n` links lead up. -/
def ancestorsWithin (t : Tree) : Nat → Nat → List Nat
  | 0, _ => []
  | n + 1, i =>
    match t.parent? i with
    | some p => p :: t.ancestorsWithin n p
    | none => []

/-- The ancestors of a block, nearest first. -/
def ancestors (t : Tree) (i : Nat) : List Nat := t.ancestorsWithin t.size i

/-- The block itself and then its ancestors. -/
def lineage (t : Tree) (i : Nat) : List Nat := i :: t.ancestors i

/-- The walk from the block at `i` down, each block met with its depth, as far as `n` blocks lead
down. -/
def walkWithin (t : Tree) : Nat → Nat → Nat → List (Nat × Nat)
  | 0, _, _ => []
  | n + 1, depth, i => (depth, i) :: (t.children i).flatMap (t.walkWithin n (depth + 1))

/-- The walk through the whole tree. The file has depth zero. -/
def walk (t : Tree) : List (Nat × Nat) := t.walkWithin t.size 0 0

/-- A tree that holds only the file's block. -/
def empty : Tree := ⟨#[Block.root]⟩

/-- The tree with one more block, inside the block at `p`. -/
def attach (t : Tree) (p : Nat) (b : Block) : Tree :=
  ⟨(t.blocks.push { b with parent := some p }).modify p fun parent =>
    { parent with children := parent.children ++ [t.size] }⟩

/-- The tree with every suffix that is there replaced by the same text. -/
def withSuffix (t : Tree) (suffix : Text) : Tree :=
  ⟨t.blocks.map fun b => { b with suffix := b.suffix.map fun _ => suffix }⟩

end Tree

end BlockSpec
