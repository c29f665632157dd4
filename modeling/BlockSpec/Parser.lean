import BlockSpec.Fault
import BlockSpec.Header
import BlockSpec.Naming
import BlockSpec.Suffix
import BlockSpec.Tree.Basic

/-! # Reading a spec

A spec is read line by line in one left fold. Blank lines are skipped. A header opens a block inside
the nearest open block that is indented less; the block opened last takes the code lines that follow.
Decorator lines, and comments among them, wait until it is clear whose they are: a header takes them
as its decorators, a code line or the end of the file turns them into code of the current block.

The first header that cannot be opened ends the reading. -/

namespace BlockSpec

namespace Parser

/-- What is known after some lines: the blocks opened so far, the last of which is the current one,
the decorator lines that wait for an owner, and the suffixes still to be drawn. -/
structure State where
  tree : Tree
  pending : List CodeLine
  suffixes : SuffixStream
  deriving DecidableEq, Repr

/-- Before the first line. -/
def start (seed : Digest) : State := ⟨Tree.empty, [], SuffixStream.ofSeed seed⟩

/-- Whether a line is a decorator. -/
def isDecorator (line : Text) : Bool := (Text.trimStart line).head? == some '@'

/-- Whether a line is a comment. -/
def isComment (line : Text) : Bool := (Text.trimStart line).head? == some '#'

/-- Whether code is a return statement as it stands. -/
def isReturn (code : Text) : Bool :=
  code == "return".toList || Text.startsWith "return ".toList code ||
    Text.startsWith "return(".toList code

/-- The code of a header line as it enters the body: a binding returns its value. -/
def headerCode (kind : Kind) (code : Text) : Text :=
  if kind = .binding && !isReturn code then "return ".toList ++ code else code

namespace State

/-- The position of the block opened last. -/
def current (s : State) : Nat := s.tree.size - 1

/-- Adds code to the block opened last. -/
def addCode (s : State) (code : List CodeLine) : State :=
  { s with
    tree := ⟨s.tree.blocks.modify s.current fun b => { b with body := b.body ++ code }⟩ }

/-- Turns the waiting decorator lines into code of the current block. -/
def settle (s : State) : State := { s.addCode s.pending with pending := [] }

/-- The open block that a header at an indent belongs to: the nearest one of the current block's
lineage that is indented less, the file if there is none. -/
def scopeFor (s : State) (indent : Nat) : Nat :=
  ((s.tree.lineage s.current).find? fun i => (s.tree.block i).indent < indent).getD 0

/-- The block of a header, to be opened on a line. -/
def blockOf (s : State) (line : Nat) (h : Header) : Block :=
  { kind := h.kind
    indent := h.indent
    label := h.label
    line := line
    suffix := if h.kind.takesSuffix then some s.suffixes.suffix else none
    args := if h.kind = .test then h.args else none
    decorators := s.pending.map fun row => ⟨row.line, Text.trim row.text⟩
    body := (h.code.map fun code => ⟨line, headerCode h.kind code⟩).toList }

/-- Opens the block of a header, unless its kind is not accepted there or it is a binding without
a usable name. -/
def openBlock (s : State) (line : Nat) (h : Header) : Except Fault State :=
  let parent := s.scopeFor h.indent
  let parentKind := (s.tree.block parent).kind
  if !parentKind.accepts h.kind then .error (.nesting parentKind h.kind line h.indent)
  else if h.kind = .binding && !isIdentifier (snake h.label) then .error (.label h.label line)
  else .ok
    { tree := s.tree.attach parent (s.blockOf line h)
      pending := []
      suffixes := if h.kind.takesSuffix then s.suffixes.advance else s.suffixes }

/-- Reads one line with its number. -/
def step (s : State) (row : CodeLine) : Except Fault State :=
  if Text.allBlank row.text then .ok s
  else match Header.parse? row.text with
    | some h => s.openBlock row.line h
    | none =>
      if isDecorator row.text || (isComment row.text && !s.pending.isEmpty) then
        .ok { s with pending := s.pending ++ [row] }
      else .ok (s.settle.addCode [row])

end State

/-- The lines of a text with their numbers, counted from one. -/
def numbered (source : Text) : List CodeLine :=
  (Text.lines source).zipIdx.map fun (text, i) => ⟨i + 1, text⟩

end Parser

/-- Reads a spec; suffixes are drawn from the seed. -/
def parse (source : Text) (seed : Digest) : Except Fault Tree :=
  ((Parser.numbered source).foldlM Parser.State.step (Parser.start seed)).map (·.settle.tree)

end BlockSpec
