import BlockSpec.Tree.Basic
import BlockSpec.Text.Quoted

/-! # The outline of a tree

One line for every block but the file's own, indented by two spaces for every scope around it. -/

namespace BlockSpec

namespace Block

/-- The line that describes a block: its kind, its label in quotes, where it stands and how much
code it holds. -/
def summary (b : Block) : Text :=
  b.kind.keyword.toList ++ " ".toList ++ Text.quoted b.uniqueLabel ++ " (line ".toList ++
    Text.ofNat b.line ++ ", ".toList ++ Text.ofNat b.body.length ++ " code line".toList ++
    (if b.body.length = 1 then [] else ['s']) ++ ")".toList

end Block

namespace Tree

/-- The line of a block that a walk meets at a depth. -/
def outlineRow (t : Tree) (depth i : Nat) : Text :=
  Text.spaces (2 * (depth - 1)) ++ (t.block i).summary

/-- The outline of the whole tree. -/
def outline (t : Tree) : Text :=
  Text.ofLines ((t.walk.filter fun (_, i) => i ≠ 0).map fun (depth, i) => t.outlineRow depth i)

end Tree

end BlockSpec
