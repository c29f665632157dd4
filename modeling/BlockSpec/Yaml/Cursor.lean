import BlockSpec.Text.Basic

/-! # Reading YAML: characters and places

A document may hold printable characters, tabs and line breaks. It is read a portion at a time, and
a character that it may not hold spoils the whole portion. Carriage returns and U+0085 break lines
as newlines do and are turned into newlines first; the line and paragraph separators also break
lines but stay as they are. A cursor is the rest of the document with the place it starts at. -/

namespace BlockSpec.Yaml

/-- Characters that a document may hold. -/
def isAllowed (c : Char) : Bool :=
  let n := c.toNat
  n == 0x09 || n == 0x0A || n == 0x0D || (0x20 ≤ n && n ≤ 0x7E) || n == 0x85 ||
    (0xA0 ≤ n && n ≤ 0xFFFD) || 0x10000 ≤ n

/-- How many bytes are read at a time. -/
def portionSize : Nat := 16384

/-- The portions of a text: as many characters as fit each. The given number of bytes is still free
in the first one. -/
def portions (free : Nat) : Text → List Text
  | [] => [[]]
  | c :: t =>
    if c.utf8Size ≤ free then
      match portions (free - c.utf8Size) t with
      | [] => [[c]]
      | p :: ps => (c :: p) :: ps
    else
      match portions (portionSize - c.utf8Size) t with
      | [] => [[], [c]]
      | p :: ps => [] :: (c :: p) :: ps

/-- The part of a text before the first portion that cannot be read, and whether that is all. -/
def readable (t : Text) : Text × Bool :=
  let read := (portions portionSize t).takeWhile (·.all isAllowed)
  (read.flatten, t.all isAllowed)

/-- The text with every carriage return, alone or with a newline, and every U+0085 turned into a
newline. -/
def plainBreaks : Text → Text
  | [] => []
  | '\r' :: '\n' :: t => '\n' :: plainBreaks t
  | c :: t => (if c == '\r' || c == '\u0085' then '\n' else c) :: plainBreaks t

/-- Line breaks. -/
def isBreak (c : Char) : Bool := c == '\n' || c == '\u2028' || c == '\u2029'

/-- Spaces and tabs. -/
def isSpace (c : Char) : Bool := c == ' ' || c == '\t'

/-- What can stand between words: spaces, tabs and breaks. -/
def isGap (c : Char) : Bool := isSpace c || isBreak c

/-- Whether a word ends before the text: a gap follows, or nothing. -/
def endsWord : Text → Bool
  | [] => true
  | c :: _ => isGap c

/-- Whether a line ends before the text. -/
def endsLine : Text → Bool
  | [] => true
  | c :: _ => isBreak c

/-- The characters of names of anchors, directives and tag handles. -/
def isWordChar (c : Char) : Bool := c.isAlphanum || c == '_' || c == '-'

/-- Whether a mark that starts or ends a document comes next. -/
def isMarker (t : Text) : Bool :=
  (Text.startsWith "---".toList t || Text.startsWith "...".toList t) && endsWord (t.drop 3)

/-- A place in a document: its line, its column in characters, and the bytes before it on its line,
all counted from zero. -/
structure Place where
  line : Nat := 0
  column : Nat := 0
  offset : Nat := 0
  deriving DecidableEq, Repr

namespace Place

/-- Past one character. -/
def next (p : Place) (c : Char) : Place := ⟨p.line, p.column + 1, p.offset + c.utf8Size⟩

/-- Past some characters of the same line. -/
def past (p : Place) (t : Text) : Place :=
  ⟨p.line, p.column + t.length, p.offset + Text.byteSize t⟩

/-- The start of the next line. -/
def newLine (p : Place) : Place := { line := p.line + 1 }

end Place

/-- The rest of a document and where it starts. -/
structure Cursor where
  rest : Text
  place : Place := {}
  deriving Repr

namespace Cursor

/-- Past some characters of the same line. -/
def skip (c : Cursor) (n : Nat) : Cursor := ⟨c.rest.drop n, c.place.past (c.rest.take n)⟩

/-- Past the characters of a class that holds no breaks. -/
def skipWhile (p : Char → Bool) (c : Cursor) : Cursor := c.skip (c.rest.takeWhile p).length

/-- Past a break, if there is one. -/
def skipBreak (c : Cursor) : Cursor :=
  if c.rest.isEmpty then c else ⟨c.rest.drop 1, c.place.newLine⟩

/-- Past the rest of a line that may hold a comment, up to its break. None if anything else stands
there. -/
def skipComment? (c : Cursor) : Option Cursor :=
  let c := c.skipWhile isSpace
  let c := if c.rest.head? = some '#' then c.skipWhile (!isBreak ·) else c
  if endsLine c.rest then some c else none

end Cursor

end BlockSpec.Yaml
