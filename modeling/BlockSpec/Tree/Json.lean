import BlockSpec.Text.Json
import BlockSpec.Tree.Basic

/-! # A tree as JSON

Every block is an object; what a block does not have is left out, except for the body and the list
of the blocks inside it. -/

namespace BlockSpec

/-- A code line as JSON. -/
def CodeLine.json (c : CodeLine) : JsonValue :=
  .object [("line", .number c.line), ("text", .string c.text)]

namespace Tree

/-- The block at a position as JSON. -/
def blockJson (t : Tree) (i : Nat) : JsonValue :=
  let b := t.block i
  .object ([("kind", .string b.kind.tag.toList), ("indent", .number b.indent),
      ("label", .string b.label)] ++
    (b.suffix.map fun s => ("suffix", .string s)).toList ++ [("line", .number b.line)] ++
    (b.args.map fun a => ("args", .string a)).toList ++
    (if b.decorators.isEmpty then [] else [("decorators", .list (b.decorators.map (·.json)))]) ++
    [("body", .list (b.body.map (·.json))),
      ("children", .list ((t.children i).map fun (j : Nat) => .number j))])

/-- The whole tree as JSON. -/
def json (t : Tree) : JsonValue :=
  .object [("blocks", .list ((List.range t.size).map t.blockJson))]

end Tree

end BlockSpec
