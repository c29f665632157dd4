import BlockSpec.Yaml.Scalar

/-! # Reading YAML: tokens

The text is cut into tokens. Indentation becomes tokens too: a line that is indented deeper than the
block around it may start a new block, and one that is indented less ends blocks.

Whether a scalar, a bracket, an alias, an anchor or a tag starts a key shows only when a colon
follows it on the same line, at most 1024 bytes later. Until then it is a *candidate*, and the
tokens from the first candidate on are held back. When the text turns out to be malformed, the
tokens that were given out before still count. -/

namespace BlockSpec.Yaml

/-- A tag, or a part of one, as octets. Escapes can write octets that no text has. -/
abbrev Tag := List UInt8

/-- The tokens of a document. -/
inductive Token where
  | version (major minor : Nat)
  | tagHandle (handle : Text) (lead : Tag)
  | documentStart
  | documentEnd
  | blockSequence
  | blockMapping
  | blockEnd
  | openBracket
  | closeBracket
  | openBrace
  | closeBrace
  | entry
  | comma
  | key
  | value
  | alias (name : Text)
  | anchor (name : Text)
  | tag (handle : Text) (suffix : Tag)
  | scalar (style : Style) (text : Text)
  | streamEnd
  deriving DecidableEq, Repr

/-- A token and the place where it starts. -/
structure Placed where
  token : Token
  place : Place
  deriving DecidableEq, Repr

/-- Where a key may have started: before which token, and whether the block requires one there. -/
structure Candidate where
  position : Nat
  required : Bool
  place : Place
  deriving Repr

/-- What is known while a text is cut: the tokens so far, the column of the block around, those of
the blocks around that, whether a key may start here, and the candidate of each open bracket, the
innermost first and the outermost for the text outside of brackets. -/
structure Scanner where
  cursor : Cursor
  /-- Whether the text really ends where its readable part does. -/
  whole : Bool := true
  tokens : Array Placed := #[]
  indent : Int := -1
  indents : List Int := []
  keyAllowed : Bool := true
  candidates : List (Option Candidate) := [none]
  deriving Repr

namespace Scanner

/-- Whether the place is inside brackets. -/
def inFlow (s : Scanner) : Bool := 1 < s.candidates.length

/-- Adds a token that starts at a given cursor. -/
def emitAt (s : Scanner) (start : Cursor) (t : Token) : Scanner :=
  { s with tokens := s.tokens.push ⟨t, start.place⟩ }

/-- Adds a token that takes `n` characters. -/
def emit (s : Scanner) (n : Nat) (t : Token) : Scanner :=
  { s.emitAt s.cursor t with cursor := s.cursor.skip n }

/-- Gives up the candidate of the innermost bracket. None if a key was required. -/
def dropCandidate? (s : Scanner) : Option Scanner :=
  match s.candidates with
  | some k :: rest => if k.required then none else some { s with candidates := none :: rest }
  | _ => some s

/-- Makes the token that comes next a candidate, if a key may start here. -/
def addCandidate? (s : Scanner) : Option Scanner :=
  if !s.keyAllowed then some s
  else s.dropCandidate?.map fun s =>
    let k : Candidate :=
      { position := s.tokens.size
        required := !s.inFlow && s.indent == s.cursor.place.column
        place := s.cursor.place }
    { s with candidates := some k :: s.candidates.tail }

/-- Whether a candidate can be a key no more: its line is over, or it is too far away. -/
def isStale (s : Scanner) (k : Candidate) : Bool :=
  k.place.line < s.cursor.place.line || k.place.offset + 1024 < s.cursor.place.offset

/-- Gives up the stale candidates. None if one of them was a required key. -/
def dropStale? (s : Scanner) : Option Scanner :=
  let stale (k : Candidate) := s.isStale k
  if s.candidates.any fun k => k.any fun k => stale k && k.required then none
  else some { s with candidates := s.candidates.map fun k => k.filter (!stale ·) }

/-- How many tokens stand before all candidates. -/
def released (s : Scanner) : Nat :=
  s.candidates.foldl (fun n k => match k with
    | some k => min n k.position
    | none => n) s.tokens.size

/-- Starts a block at a place, if that is deeper than the block around. The token that starts it
stands before the token at `position`. -/
def openBlock (s : Scanner) (position : Nat) (place : Place) (t : Token) : Scanner :=
  if s.inFlow || (place.column : Int) ≤ s.indent then s
  else
    { s with
      tokens := (s.tokens.extract 0 position).push ⟨t, place⟩ ++
        s.tokens.extract position s.tokens.size
      indents := s.indent :: s.indents
      indent := place.column }

/-- Ends the blocks that are indented deeper than a column; outside of brackets only. -/
def closeBlocks (s : Scanner) (column : Int) : Scanner :=
  if s.inFlow then s else go s s.indents
where
  /-- Ends blocks as long as they are too deep, given the columns around them. -/
  go (s : Scanner) : List Int → Scanner
    | [] => s
    | outer :: rest =>
      if s.indent ≤ column then s
      else go { s.emitAt s.cursor .blockEnd with indent := outer, indents := rest } rest

/-- Past the gap before the next token. A break outside of brackets allows a key. Tabs do not count
as gap where a key may start; a byte order mark counts at the start of a line, where it takes a
column. The length of the text bounds the number of its lines. -/
def skipGap : Nat → Scanner → Scanner
  | 0, s => s
  | fuel + 1, s =>
    let c := if s.cursor.place.column == 0 && s.cursor.rest.head? == some '\uFEFF' then
        s.cursor.skip 1
      else s.cursor
    let c := c.skipWhile fun ch => ch == ' ' || ((s.inFlow || !s.keyAllowed) && ch == '\t')
    let c := if c.rest.head? == some '#' then c.skipWhile (!isBreak ·) else c
    match c.rest with
    | [] => { s with cursor := c }
    | ch :: _ =>
      if isBreak ch then
        skipGap fuel { s with cursor := c.skipBreak, keyAllowed := s.keyAllowed || !s.inFlow }
      else { s with cursor := c }

/-! ## One function for each kind of token -/

/-- The end of the text ends all blocks. -/
def streamEnd? (s : Scanner) : Option Scanner :=
  let s := if s.cursor.place.column = 0 then s
    else { s with cursor := ⟨s.cursor.rest, s.cursor.place.newLine⟩ }
  (s.closeBlocks (-1)).dropCandidate?.map fun s =>
    { s.emitAt s.cursor .streamEnd with keyAllowed := false }

/-- A mark at the start of a line that starts or ends a document. -/
def marker? (s : Scanner) (t : Token) : Option Scanner :=
  (s.closeBlocks (-1)).dropCandidate?.map fun s => { s.emit 3 t with keyAllowed := false }

/-- An opening bracket. -/
def openFlow? (s : Scanner) (t : Token) : Option Scanner :=
  s.addCandidate?.map fun s =>
    { s.emit 1 t with candidates := none :: s.candidates, keyAllowed := true }

/-- A closing bracket. -/
def closeFlow? (s : Scanner) (t : Token) : Option Scanner :=
  s.dropCandidate?.map fun s =>
    { s.emit 1 t with
      candidates := if s.inFlow then s.candidates.tail else s.candidates
      keyAllowed := false }

/-- A comma between entries. -/
def comma? (s : Scanner) : Option Scanner :=
  s.dropCandidate?.map fun s => { s.emit 1 .comma with keyAllowed := true }

/-- A dash, which starts an entry and perhaps a block. -/
def sequenceEntry (s : Scanner) : Option Scanner :=
  if !s.inFlow && !s.keyAllowed then none
  else
    let s := s.openBlock s.tokens.size s.cursor.place .blockSequence
    s.dropCandidate?.map fun s => { s.emit 1 .entry with keyAllowed := true }

/-- A question mark, which starts a key and perhaps a block. -/
def key? (s : Scanner) : Option Scanner :=
  if !s.inFlow && !s.keyAllowed then none
  else
    let s := s.openBlock s.tokens.size s.cursor.place .blockMapping
    s.dropCandidate?.map fun s => { s.emit 1 .key with keyAllowed := !s.inFlow }

/-- A colon. It makes the candidate a key, or starts the value of a key that was announced. -/
def value? (s : Scanner) : Option Scanner :=
  match s.candidates with
  | some k :: rest =>
    let s := { s with
      tokens := (s.tokens.extract 0 k.position).push ⟨.key, k.place⟩ ++
        s.tokens.extract k.position s.tokens.size
      candidates := none :: rest
      keyAllowed := false }
    some ((s.openBlock k.position k.place .blockMapping).emit 1 .value)
  | _ =>
    if !s.inFlow && !s.keyAllowed then none
    else
      let s := s.openBlock s.tokens.size s.cursor.place .blockMapping
      some { s.emit 1 .value with keyAllowed := !s.inFlow }

/-- An anchor or an alias: its mark and a name, which must end there. -/
def named? (s : Scanner) (make : Text → Token) : Option Scanner :=
  s.addCandidate?.bind fun s =>
    let name := (s.cursor.rest.drop 1).takeWhile isWordChar
    let after := s.cursor.rest.drop (1 + name.length)
    let ends := endsWord after ||
      (after.head?.map fun c => "?:,]\x7d%@`".toList.contains c) == some true
    if name.isEmpty || !ends then none
    else some { s.emit (1 + name.length) (make name) with keyAllowed := false }

/-- A character of a tag, apart from escapes; the brackets and the comma only in full tags. -/
def isTagChar (full : Bool) (c : Char) : Bool :=
  isWordChar c || ";/?:@&=+$.!~*'()".toList.contains c || (full && ",[]".toList.contains c)

/-- How many octets a character takes whose first octet is given. -/
def leadWidth? (b : Nat) : Option Nat :=
  if b < 0x80 then some 1
  else if b / 0x20 = 6 then some 2
  else if b / 0x10 = 14 then some 3
  else if b / 8 = 30 then some 4
  else none

/-- One octet written as a percent sign and two hexadecimal digits. -/
def escapedOctet? : Text → Option Nat
  | '%' :: a :: b :: _ => hexNumber? [a, b]
  | _ => none

/-- The octets of one escaped character: the first one tells how many there are, and all others have
the form of a continuation. Whether they encode a character at all is not checked. -/
def escapedChar? (t : Text) : Option Tag := do
  let first ← escapedOctet? t
  let width ← leadWidth? first
  let others ← (List.range (width - 1)).mapM fun i => escapedOctet? (t.drop (3 * (i + 1)))
  if others.all fun b => b / 0x40 = 2 then some ((first :: others).map Nat.toUInt8) else none

/-- The body of a tag: its octets and how many characters it takes. None if an escape is bad. The
length of the text bounds the number of its characters. -/
def tagBody (full : Bool) : Nat → Text → Option (Tag × Nat)
  | 0, _ => some ([], 0)
  | _ + 1, [] => some ([], 0)
  | fuel + 1, c :: t =>
    if c == '%' then
      (escapedChar? (c :: t)).bind fun octets =>
        (tagBody full fuel ((c :: t).drop (3 * octets.length))).map fun (body, n) =>
          (octets ++ body, 3 * octets.length + n)
    else if isTagChar full c then
      (tagBody full fuel t).map fun (body, n) => (String.utf8EncodeChar c ++ body, n + 1)
    else some ([], 0)

/-- The handle at the start of a tag: an exclamation mark, and a word with another one if that
follows. -/
def handleOf (t : Text) : Text :=
  let word := (t.drop 1).takeWhile isWordChar
  if (t.drop (1 + word.length)).head? == some '!' then '!' :: word ++ ['!'] else '!' :: word

/-- A tag: handle, suffix and how many characters it takes. A full tag has no handle, and neither has
a lone exclamation mark, with or without a zero octet behind it. -/
def tag? (t : Text) : Option (Text × Tag × Nat) :=
  if t.take 2 == "!<".toList then
    (tagBody true t.length (t.drop 2)).bind fun (body, n) =>
      if body.isEmpty || (t.drop (2 + n)).head? != some '>' then none else some ([], body, n + 3)
  else
    let handle := handleOf t
    let rest := t.drop handle.length
    (tagBody false t.length rest).bind fun (body, n) =>
      if 1 < handle.length && handle.getLast? == some '!' then
        if body.isEmpty then none else some (handle, body, handle.length + n)
      else
        let suffix := Text.utf8 (handle.drop 1) ++ body
        if suffix.headD 0 == 0 then some ([], Text.utf8 ['!'], handle.length + n)
        else some (['!'], suffix, handle.length + n)

/-- A tag in its place: it must end a word, or stand before a comma inside brackets. -/
def tagToken? (s : Scanner) : Option Scanner :=
  s.addCandidate?.bind fun s =>
    (tag? s.cursor.rest).bind fun (handle, suffix, n) =>
      let s' := { s.emit n (.tag handle suffix) with keyAllowed := false }
      if endsWord s'.cursor.rest || (s.inFlow && s'.cursor.rest.head? == some ',') then some s'
      else none

/-- A number of at most nine digits at the start of a text, and how many characters it takes. -/
def versionNumber? (t : Text) : Option (Nat × Nat) :=
  let digits := t.takeWhile Char.isDigit
  if digits.isEmpty || 9 < digits.length then none
  else some (digits.foldl (fun n c => 10 * n + (c.toNat - '0'.toNat)) 0, digits.length)

/-- The version that a directive names. -/
def version? (c : Cursor) : Option (Token × Cursor) := do
  let c := c.skipWhile isSpace
  let (major, n) ← versionNumber? c.rest
  let c := c.skip n
  if c.rest.head? != some '.' then none
  else
    let (minor, m) ← versionNumber? (c.rest.drop 1)
    return (.version major minor, c.skip (1 + m))

/-- The tag handle that a directive declares. -/
def tagHandle? (c : Cursor) : Option (Token × Cursor) :=
  let c := c.skipWhile isSpace
  let handle := handleOf c.rest
  if c.rest.head? != some '!' || (handle != ['!'] && handle.getLast? != some '!') then none
  else
    let c := c.skip handle.length
    if (c.rest.head?.map isSpace) != some true then none
    else
      let c := c.skipWhile isSpace
      (tagBody true c.rest.length c.rest).bind fun (body, n) =>
        if body.isEmpty || !endsWord (c.rest.drop n) then none
        else some (.tagHandle handle body, c.skip n)

/-- A directive on a line of its own. -/
def directive? (s : Scanner) : Option Scanner :=
  (s.closeBlocks (-1)).dropCandidate?.bind fun s =>
    let name := (s.cursor.rest.drop 1).takeWhile isWordChar
    let c := s.cursor.skip (1 + name.length)
    if name.isEmpty || !endsWord c.rest then none
    else
      let found := if name == "YAML".toList then version? c
        else if name == "TAG".toList then tagHandle? c
        else none
      found.bind fun (t, c) =>
        c.skipComment?.map fun c =>
          { s.emitAt s.cursor t with
            keyAllowed := false
            cursor := c.skipBreak }

/-- A scalar in quotes. -/
def quotedToken? (s : Scanner) (style : Style) : Option Scanner :=
  s.addCandidate?.bind fun s =>
    (quoted (style == .single) {} (s.cursor.skip 1).place (s.cursor.rest.drop 1)).map fun (text, c) =>
      { s.emitAt s.cursor (.scalar style text) with cursor := c, keyAllowed := false }

/-- A plain scalar. A key may follow it if it ended with its line. -/
def plainToken? (s : Scanner) : Option Scanner :=
  s.addCandidate?.bind fun s =>
    (plain s.inFlow (s.indent + 1) {} s.cursor.place s.cursor.rest).map fun (f, c) =>
      { s.emitAt s.cursor (.scalar .plain f.text) with cursor := c, keyAllowed := f.broken }

/-- A block scalar. -/
def blockToken? (s : Scanner) (style : Style) : Option Scanner :=
  s.dropCandidate?.bind fun s =>
    (block (style == .literal) s.indent (s.cursor.skip 1)).map fun (text, c) =>
      { s.emitAt s.cursor (.scalar style text) with cursor := c, keyAllowed := true }

/-- Whether a plain scalar can start with a character, before the given text. -/
def startsPlain (inFlow : Bool) (c : Char) (t : Text) : Bool :=
  !(isGap c || "-?:,[]\x7b\x7d#&*!|>'\"%@`".toList.contains c) ||
    (c == '-' && (t.head?.map isSpace) != some true) ||
    (!inFlow && (c == '?' || c == ':') && !endsWord t)

/-- Whether so many characters can be looked at, or the text ends before. -/
def canSee (s : Scanner) (n : Nat) : Bool := s.whole || n ≤ s.cursor.rest.length

/-- The token that starts here. None if the text is malformed. -/
def token? (s : Scanner) : Option Scanner :=
  match s.cursor.rest with
  | [] => s.streamEnd?
  | c :: t =>
    if s.cursor.place.column = 0 && c == '%' then s.directive?
    else if s.cursor.place.column = 0 && isMarker (c :: t) then
      s.marker? (if c == '-' then .documentStart else .documentEnd)
    else if c == '[' then s.openFlow? .openBracket
    else if c == '{' then s.openFlow? .openBrace
    else if c == ']' then s.closeFlow? .closeBracket
    else if c == '}' then s.closeFlow? .closeBrace
    else if c == ',' then s.comma?
    else if c == '-' && endsWord t then s.sequenceEntry
    else if c == '?' && (s.inFlow || endsWord t) then s.key?
    else if c == ':' && (s.inFlow || endsWord t) then s.value?
    else if c == '*' then s.named? .alias
    else if c == '&' then s.named? .anchor
    else if c == '!' then s.tagToken?
    else if c == '|' && !s.inFlow then s.blockToken? .literal
    else if c == '>' && !s.inFlow then s.blockToken? .folded
    else if c == '\'' then s.quotedToken? .single
    else if c == '"' then s.quotedToken? .double
    else if startsPlain s.inFlow c t then s.plainToken?
    else none

/-- Reads the next token, and the ends of blocks before it. None if the text is malformed here. No
mark is longer than three characters, so four are looked at where a token starts, and one where it
ends. -/
def next? (s : Scanner) : Option Scanner :=
  (s.skipGap (s.cursor.rest.length + 1)).dropStale?.bind fun s =>
    if !s.canSee 4 then none
    else (s.closeBlocks s.cursor.place.column).token?.filter (·.canSee 1)

/-- Reads tokens until the text ends or is malformed, and gives out those that can no longer become
keys, `given` of them so far. A text is also malformed if a required key has become stale, and then
the tokens since the last time are lost as well. Every round takes a character or ends the text, so
its length bounds the rounds. -/
def run : Nat → Nat → Scanner → List Placed
  | 0, given, s => s.tokens.toList.take given
  | fuel + 1, given, s =>
    match s.dropStale? with
    | none => s.tokens.toList.take given
    | some s =>
      if s.tokens.back?.map (·.token) = some .streamEnd then s.tokens.toList.take s.released
      else match s.next? with
        | none => s.tokens.toList.take s.released
        | some s' => run fuel s.released s'

end Scanner

/-- The tokens of a text. They end with the end of the stream exactly if the text is well formed as
far as tokens go. -/
def tokens (t : Text) : List Placed :=
  let (t, whole) := readable t
  let t := plainBreaks t
  Scanner.run (t.length + 2) 0 { cursor := { rest := t }, whole := whole }

end BlockSpec.Yaml
