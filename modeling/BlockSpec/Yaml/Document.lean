import BlockSpec.Yaml.Event

/-! # Reading YAML: a document

A document is the list of its nodes in the order in which they start, and the way in which it ends:
what was read before a fault in the text still counts. Settings are scalars under keys, so where a
collection ends is not recorded.

An anchor gets a number: how many names are known when it is set. A name that is set again leaves
its old number and takes the next one, so two names can come to have the same number. An alias
stands for the number its name has at that place, and in the end for the last node in the document
that was given this number. -/

namespace BlockSpec.Yaml

/-- A node and its place. -/
structure Node where
  item : Item
  place : Place
  /-- Whether the node is named by an alias here. -/
  aliased : Bool := false
  deriving DecidableEq, Repr

/-- How a document ends. -/
inductive Ending where
  /-- As it should. -/
  | complete
  /-- With a fault in the text. -/
  | malformed
  /-- With something behind it. -/
  | another
  deriving DecidableEq, Repr

/-- The nodes of a document. -/
structure Document where
  nodes : List Node
  ending : Ending
  deriving DecidableEq, Repr

/-- The numbers of the names that are known, and the nodes that were given numbers, the last one
first. -/
structure Anchors where
  numbers : List (Text × Nat) := []
  nodes : List (Nat × Node) := []
  deriving Repr

/-- Sets an anchor on a node. -/
def Anchors.set (anchors : Anchors) (name : Text) (node : Node) : Anchors :=
  let number := anchors.numbers.length
  { numbers := (name, number) :: anchors.numbers.filter (·.1 != name)
    nodes := (number, node) :: anchors.nodes }

/-- A node, or the number of the node that an alias stands for. -/
inductive Reference where
  | node (n : Node)
  | number (n : Nat)
  deriving DecidableEq, Repr

/-- The node that a reference stands for once all anchors are set. -/
def Reference.resolve? (anchors : Anchors) : Reference → Option Node
  | .node n => some n
  | .number n => (anchors.nodes.lookup n).map fun node => { node with aliased := true }

/-- The references that events make, the anchors set by them, and whether every alias is known. The
first one that is not ends the document. -/
def references (anchors : Anchors) : List Event → List Reference × Anchors × Bool
  | [] => ([], anchors, true)
  | ⟨.alias name, _⟩ :: rest =>
    match anchors.numbers.lookup name with
    | none => ([], anchors, false)
    | some n =>
      let (more, last, known) := references anchors rest
      (.number n :: more, last, known)
  | ⟨.item anchor item, place⟩ :: rest =>
    let node : Node := ⟨item, place, false⟩
    let (more, last, known) :=
      references (match anchor with
        | some name => anchors.set name node
        | none => anchors) rest
    (.node node :: more, last, known)

/-- The document of some events, and how it ends if every alias is known. -/
def Document.ofEvents (es : List Event) (ending : Ending) : Document :=
  let (found, anchors, known) := references {} es
  ⟨found.filterMap (·.resolve? anchors), if known then ending else .malformed⟩

/-- How a document ends before the given tokens. -/
def endingOf (ts : List Placed) : Ending :=
  match ts with
  | [] => .malformed
  | _ =>
    match ts.dropWhile (·.token = .documentEnd) with
    | ⟨.streamEnd, _⟩ :: _ => .complete
    | _ => .another

/-- A document from its root on. -/
def rootDocument (handles : Handles) (ts : List Placed) : Document :=
  let (es, after) := events handles (4 * ts.length + 4) [.root] ts
  .ofEvents es ((after.map endingOf).getD .malformed)

/-- The declarations before a document that starts with a mark, and what follows the mark. Only
one version may be named, of the form 1.1 or 1.2, and a handle may be declared once. -/
def declarations? (version : Bool) (handles : Handles) :
    List Placed → Option (Handles × List Placed)
  | ⟨.version major minor, _⟩ :: rest =>
    if version || major ≠ 1 || (minor ≠ 1 && minor ≠ 2) then none
    else declarations? true handles rest
  | ⟨.tagHandle handle lead, _⟩ :: rest =>
    if (handles.lookup handle).isSome then none
    else declarations? version ((handle, lead) :: handles) rest
  | ⟨.documentStart, _⟩ :: rest => some (handles, rest)
  | _ => none

/-- Whether a token cannot start the content of a document. -/
def isOutside : Token → Bool
  | .version .. | .tagHandle .. | .documentStart | .documentEnd | .streamEnd => true
  | _ => false

/-- The document that tokens hold. -/
def Document.ofTokens (ts : List Placed) : Document :=
  match ts with
  | [] => ⟨[], .malformed⟩
  | first :: _ =>
    match first.token with
    | .streamEnd => ⟨[], .complete⟩
    | .version .. | .tagHandle .. | .documentStart =>
      match declarations? false [] ts with
      | none | some (_, []) => ⟨[], .malformed⟩
      | some (handles, next :: rest) =>
        if isOutside next.token then
          .ofEvents (leftOut next.place [] []).event.toList (endingOf (next :: rest))
        else rootDocument handles (next :: rest)
    | _ => rootDocument [] ts

/-- Reads a document. -/
def Document.read (t : Text) : Document := Document.ofTokens (tokens t)

end BlockSpec.Yaml
