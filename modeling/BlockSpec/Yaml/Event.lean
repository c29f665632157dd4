import BlockSpec.Yaml.Token

/-! # Reading YAML: nodes in the order in which they start

A document is read from its tokens by *goals*: what has to come next, the innermost first. A goal
looks at one or two tokens, perhaps starts a node, and leaves the goals of what is inside that node.
Each node that starts is an event. When a goal cannot be met the events before it still count, and
so they do when the tokens run out, since a goal is met only once it has seen what it has to look
at. -/

namespace BlockSpec.Yaml

/-- A scalar with its tag. -/
structure Scalar where
  text : Text
  style : Style
  tag : Option Tag
  deriving DecidableEq, Repr

/-- What a node is. -/
inductive Item where
  | scalar (s : Scalar)
  | sequence
  | mapping
  deriving DecidableEq, Repr

/-- What stands where a node starts: an item, perhaps under an anchor, or an alias for one. -/
inductive Start where
  | item (anchor : Option Text) (item : Item)
  | alias (name : Text)
  deriving DecidableEq, Repr

/-- The start of a node and its place. -/
structure Event where
  start : Start
  place : Place
  deriving DecidableEq, Repr

/-- Tag handles and the tags they stand for. -/
abbrev Handles := List (Text × Tag)

namespace Handles

/-- The handles that are known without a declaration. -/
def known : Handles :=
  [("!".toList, Text.utf8 "!".toList), ("!!".toList, Text.utf8 "tag:yaml.org,2002:".toList)]

/-- The full tag of a handle and a suffix. Each part ends before its first zero octet. -/
def tag? (handles : Handles) (handle : Text) (suffix : Tag) : Option Tag :=
  let cut (t : Tag) : Tag := t.takeWhile (· != 0)
  if handle.isEmpty then some (cut suffix)
  else ((handles ++ known).lookup handle).map fun lead => cut lead ++ cut suffix

end Handles

/-- Where a node may stand: as a block of its own, as a key or value of a block mapping, where a
sequence need not be indented, or inside brackets. -/
inductive Position where
  | block
  | inBlock
  | inFlow
  deriving DecidableEq, Repr

/-- What a mapping is written in: a block, or square or curly brackets. A pair alone in square
brackets is a mapping, too. -/
inductive Around where
  | block
  | square
  | curly
  deriving DecidableEq, Repr

namespace Around

/-- Where the keys and values of such a mapping stand. -/
def position : Around → Position
  | block => .inBlock
  | _ => .inFlow

/-- The token that ends the block or brackets. -/
def close : Around → Token
  | block => .blockEnd
  | square => .closeBracket
  | curly => .closeBrace

/-- The tokens in the place of a value that was left out. -/
def afterValue : Around → List Token
  | block => [.key, .value, .blockEnd]
  | a => [.comma, a.close]

/-- The tokens in the place of a key that was left out. -/
def afterKey : Around → List Token
  | block => [.key, .value, .blockEnd]
  | a => [.value, .comma, a.close]

end Around

/-- What has to come next. -/
inductive Goal where
  /-- The root of a document. -/
  | root
  /-- An entry of a block sequence, or its end. -/
  | entry
  /-- An entry of a sequence that is not indented; anything else is behind its end. -/
  | looseEntry
  /-- A key of a block mapping, or its end. -/
  | key
  /-- An element in square brackets, or their end. -/
  | element (isFirst : Bool)
  /-- The key of a pair alone in square brackets. -/
  | pairKey
  /-- A key in curly brackets, or their end. -/
  | field (isFirst : Bool)
  /-- The value of a key, which may be left out. -/
  | value (around : Around)
  /-- The value of a key that has none. -/
  | noValue
  deriving DecidableEq, Repr

/-- How a goal is met: the event if a node starts, the goals that follow from it, and the tokens
behind it. -/
structure Step where
  event : Option Event := none
  goals : List Goal := []
  rest : List Placed
  deriving Repr

/-- The anchor and the tag in front of a node, in either order, each at most once. -/
structure Properties where
  anchor : Option Text := none
  tag : Option (Text × Tag) := none
  deriving Repr

/-- The properties at the start of the tokens, and what follows them. -/
def properties : List Placed → Properties × List Placed
  | ⟨.anchor a, _⟩ :: ⟨.tag h s, _⟩ :: rest => (⟨some a, some (h, s)⟩, rest)
  | ⟨.tag h s, _⟩ :: ⟨.anchor a, _⟩ :: rest => (⟨some a, some (h, s)⟩, rest)
  | ⟨.anchor a, _⟩ :: rest => (⟨some a, none⟩, rest)
  | ⟨.tag h s, _⟩ :: rest => (⟨none, some (h, s)⟩, rest)
  | ts => ({}, ts)

/-- A scalar in its place. The tag that is a lone exclamation mark is none. -/
def scalarItem (tag : Option Tag) (style : Style) (text : Text) : Item :=
  .scalar ⟨text, style, tag.filter (· != Text.utf8 ['!'])⟩

/-- The item that the tokens start, the goals inside it, and the tokens behind its start. -/
def item? (position : Position) (tag : Option Tag) :
    List Placed → Option (Item × List Goal × List Placed)
  | [] => none
  | ts@(first :: rest) =>
    match first.token with
    | .scalar style text => some (scalarItem tag style text, [], rest)
    | .openBracket => some (.sequence, [.element true], rest)
    | .openBrace => some (.mapping, [.field true], rest)
    | .blockSequence => if position = .inFlow then none else some (.sequence, [.entry], rest)
    | .blockMapping => if position = .inFlow then none else some (.mapping, [.key], rest)
    | .entry => if position = .inBlock then some (.sequence, [.looseEntry], ts) else none
    | _ => none

/-- The node that the tokens start, before other goals. None if there is no node, or a tag handle
that is not known. A node that has properties may be left out. -/
def node? (handles : Handles) (position : Position) (goals : List Goal) (ts : List Placed) :
    Option Step :=
  match ts with
  | [] => none
  | first :: rest =>
    match first.token with
    | .alias name => some ⟨some ⟨.alias name, first.place⟩, goals, rest⟩
    | _ =>
      let (found, after) := properties ts
      let tag := found.tag.bind fun (h, s) => handles.tag? h s
      let start (item : Item) : Option Event := some ⟨.item found.anchor item, first.place⟩
      if after.isEmpty || (found.tag.isSome && tag.isNone) then none
      else match item? position tag after with
        | some (item, inside, rest) => some ⟨start item, inside ++ goals, rest⟩
        | none =>
          if found.anchor.isSome || tag.isSome then
            some ⟨start (.scalar ⟨[], .plain, tag⟩), goals, after⟩
          else none

/-- An empty scalar in front of a token. -/
def leftOut (place : Place) (goals : List Goal) (rest : List Placed) : Step :=
  ⟨some ⟨.item none (.scalar ⟨[], .plain, none⟩), place⟩, goals, rest⟩

/-- The node that the tokens start, or an empty scalar if one of the given tokens comes first. -/
def nodeBefore? (handles : Handles) (position : Position) (stops : List Token) (goals : List Goal)
    (ts : List Placed) : Option Step :=
  match ts with
  | [] => none
  | next :: _ =>
    if stops.contains next.token then some (leftOut next.place goals ts)
    else node? handles position goals ts

/-- The tokens of the next element in brackets: behind the first one a comma is needed, unless the
brackets end. -/
def separated? (isFirst : Bool) (close : Token) (ts : List Placed) : Option (List Placed) :=
  if isFirst then some ts
  else match ts with
    | ⟨.comma, _⟩ :: rest => some rest
    | next :: _ => if next.token = close then some ts else none
    | [] => none

/-- Meets a goal. -/
def Goal.step? (handles : Handles) (goal : Goal) (ts : List Placed) : Option Step :=
  match goal with
  | .root => node? handles .block [] ts
  | .entry =>
    match ts with
    | ⟨.entry, _⟩ :: rest => nodeBefore? handles .block [.entry, .blockEnd] [.entry] rest
    | ⟨.blockEnd, _⟩ :: rest => some { rest := rest }
    | _ => none
  | .looseEntry =>
    match ts with
    | ⟨.entry, _⟩ :: rest =>
      nodeBefore? handles .block [.entry, .key, .value, .blockEnd] [.looseEntry] rest
    | _ :: _ => some { rest := ts }
    | [] => none
  | .key =>
    match ts with
    | ⟨.key, _⟩ :: rest =>
      nodeBefore? handles .inBlock (Around.afterKey .block) [.value .block, .key] rest
    | ⟨.blockEnd, _⟩ :: rest => some { rest := rest }
    | _ => none
  | .element isFirst =>
    match separated? isFirst .closeBracket ts with
    | some (⟨.closeBracket, _⟩ :: rest) => some { rest := rest }
    | some (⟨.key, place⟩ :: rest) =>
      some ⟨some ⟨.item none .mapping, place⟩, [.pairKey, .value .square, .element false], rest⟩
    | some ts => node? handles .inFlow [.element false] ts
    | none => none
  | .pairKey =>
    match ts with
    | [] => none
    | next :: rest =>
      -- The token in the place of the key is lost.
      if (Around.afterKey .square).contains next.token then some (leftOut next.place [] rest)
      else node? handles .inFlow [] ts
  | .field isFirst =>
    match separated? isFirst .closeBrace ts with
    | some (⟨.closeBrace, _⟩ :: rest) => some { rest := rest }
    | some (⟨.key, _⟩ :: rest) =>
      nodeBefore? handles .inFlow (Around.afterKey .curly) [.value .curly, .field false] rest
    | some ts => node? handles .inFlow [.noValue, .field false] ts
    | none => none
  | .value around =>
    match ts with
    | ⟨.value, _⟩ :: rest => nodeBefore? handles around.position around.afterValue [] rest
    | next :: _ => some (leftOut next.place [] ts)
    | [] => none
  | .noValue =>
    match ts with
    | next :: _ => some (leftOut next.place [] ts)
    | [] => none

/-- Meets goals one after the other: the events on the way, and the tokens behind the last goal if
all are met. A token leaves at most three goals more than there were, so four steps for each token
are enough. -/
def events (handles : Handles) : Nat → List Goal → List Placed → List Event × Option (List Placed)
  | 0, _, _ => ([], none)
  | _ + 1, [], ts => ([], some ts)
  | fuel + 1, goal :: goals, ts =>
    match goal.step? handles ts with
    | none => ([], none)
    | some step =>
      let (more, after) := events handles fuel (step.goals ++ goals) step.rest
      (step.event.toList ++ more, after)

end BlockSpec.Yaml
