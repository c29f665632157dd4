import BlockSpec.Yaml.Cursor

/-! # Reading YAML: scalars

A scalar is a text in one of five styles. Plain and quoted scalars may go over several lines: a
single break between words becomes a space, and of several breaks all but the first stay. Block
scalars keep their lines, or fold them, and say what becomes of the breaks at their end. -/

namespace BlockSpec.Yaml

/-- How a scalar is written. -/
inductive Style where
  | plain
  | single
  | double
  | literal
  | folded
  deriving DecidableEq, Repr

/-- The text of a scalar so far, and the gap that follows it: spaces, or breaks once there is
one. -/
structure Folding where
  text : Text := []
  spaces : Text := []
  /-- Whether the gap holds a break; spaces do not count in it any more. -/
  broken : Bool := false
  first : Text := []
  more : Text := []
  deriving Repr

namespace Folding

/-- One more character of the gap. -/
def gap (f : Folding) (c : Char) : Folding :=
  if isBreak c then
    if f.broken then { f with more := f.more ++ [c] }
    else { f with spaces := [], first := [c], broken := true }
  else if f.broken then f
  else { f with spaces := f.spaces ++ [c] }

/-- The gap made part of the text. -/
def close (f : Folding) : Folding :=
  if !f.broken then { text := f.text ++ f.spaces }
  else if f.first == ['\n'] then { text := f.text ++ (if f.more.isEmpty then [' '] else f.more) }
  else { text := f.text ++ f.first ++ f.more }

/-- One more character of the text, which closes the gap before it. -/
def add (f : Folding) (c : Char) : Folding := { text := f.close.text ++ [c] }

/-- Whether a gap is open. -/
def inGap (f : Folding) : Bool := f.broken || !f.spaces.isEmpty

end Folding

/-- The characters that end a plain scalar inside brackets. -/
def isFlowMark (c : Char) : Bool := c == ',' || c == '[' || c == ']' || c == '{' || c == '}'

/-- Reads a plain scalar that has to be indented by `indent` on each line, unless it stands inside
brackets. It ends before a colon that ends a word, before a comment, at a line that is indented
less and at a document mark. None if a tab takes the place of indentation, or if a colon inside
brackets touches a bracket or comma. -/
def plain (inFlow : Bool) (indent : Int) (f : Folding) (place : Place) :
    Text → Option (Folding × Cursor)
  | [] => some (f, ⟨[], place⟩)
  | c :: t =>
    if isBreak c then plain inFlow indent (f.gap c) place.newLine t
    else if isSpace c then
      if c == '\t' && f.broken && place.column < indent then none
      else plain inFlow indent (f.gap c) (place.next c) t
    else if (f.inGap && ((!inFlow && place.column < indent) || c == '#')) ||
        (place.column == 0 && isMarker (c :: t)) then
      some (f, ⟨c :: t, place⟩)
    else if inFlow && c == ':' && (t.head?.map fun d => isFlowMark d || d == '?') == some true then
      none
    else if (c == ':' && endsWord t) || (inFlow && isFlowMark c) then
      some (f, ⟨c :: t, place⟩)
    else plain inFlow indent (f.add c) (place.next c) t

/-- The characters that a letter after a backslash stands for. -/
def escapes : List (Char × Char) :=
  [('0', Char.ofNat 0), ('a', '\x07'), ('b', '\x08'), ('t', '\t'), ('\t', '\t'), ('n', '\n'),
    ('v', '\x0B'), ('f', '\x0C'), ('r', '\r'), ('e', '\x1B'), (' ', ' '), ('"', '"'), ('/', '/'),
    ('\\', '\\'), ('N', '\u0085'), ('_', '\u00A0'), ('L', '\u2028'), ('P', '\u2029')]

/-- The value of a hexadecimal digit. -/
def hexValue? (c : Char) : Option Nat :=
  if c.isDigit then some (c.toNat - '0'.toNat)
  else if 'a' ≤ c && c ≤ 'f' then some (c.toNat - 'a'.toNat + 10)
  else if 'A' ≤ c && c ≤ 'F' then some (c.toNat - 'A'.toNat + 10)
  else none

/-- The number that hexadecimal digits stand for. -/
def hexNumber? (digits : Text) : Option Nat :=
  digits.foldlM (fun n c => (hexValue? c).map (16 * n + ·)) 0

/-- How many hexadecimal digits follow a letter after a backslash. -/
def hexWidth? : Char → Option Nat
  | 'x' => some 2
  | 'u' => some 4
  | 'U' => some 8
  | _ => none

/-- The character that a number of exactly so many hexadecimal digits at the start of a text stands
for. -/
def hexChar? (width : Nat) (t : Text) : Option Char :=
  if (t.take width).length < width then none
  else (hexNumber? (t.take width)).bind fun n => if n.isValidChar then some (Char.ofNat n) else none

/-- Reads a quoted scalar after its opening quote. None if it does not end, or holds an unknown
escape. -/
def quoted (single : Bool) (f : Folding) (place : Place) (t : Text) : Option (Text × Cursor) :=
  match t with
  | [] => none
  | c :: t =>
    if isBreak c then quoted single (f.gap c) place.newLine t
    else if isSpace c then quoted single (f.gap c) (place.next c) t
    else if place.column == 0 && isMarker (c :: t) then none
    else if single && c == '\'' then
      match t with
      | '\'' :: t => quoted single (f.add '\'') (place.past ['\'', '\'']) t
      | t => some (f.close.text, ⟨t, place.next c⟩)
    else if !single && c == '"' then some (f.close.text, ⟨t, place.next c⟩)
    else if !single && c == '\\' then
      match t with
      | [] => none
      | d :: t =>
        if isBreak d then quoted single { f.close with broken := true } place.newLine t
        else match escapes.lookup d with
          | some e => quoted single (f.add e) (place.past [c, d]) t
          | none =>
            match hexWidth? d with
            | none => none
            | some width =>
              match hexChar? width t with
              | none => none
              | some e =>
                quoted single (f.add e) (place.past (c :: d :: t.take width)) (t.drop width)
    else quoted single (f.add c) (place.next c) t
termination_by t.length
decreasing_by all_goals simp only [List.length_cons, List.length_drop]; omega

/-- What becomes of the breaks at the end of a block scalar: all but one go, all go, or all
stay. -/
inductive Chomp where
  | clip
  | strip
  | keep
  deriving DecidableEq, Repr

/-- A chomping indicator at the start of a text. -/
def chomp? : Text → Option (Chomp × Text)
  | '+' :: t => some (.keep, t)
  | '-' :: t => some (.strip, t)
  | _ => none

/-- An indentation indicator at the start of a text: none at all, a digit, or a refused zero. -/
def increment (t : Text) : Option (Nat × Text) :=
  match t with
  | c :: rest => if c == '0' then none else if c.isDigit then some (c.toNat - '0'.toNat, rest)
    else some (0, t)
  | [] => some (0, t)

/-- The indicators of a block scalar, in either order, and how many characters they take. -/
def blockHeader (t : Text) : Option (Chomp × Nat × Nat) :=
  match chomp? t with
  | some (chomp, rest) => (increment rest).map fun (n, after) => (chomp, n, t.length - after.length)
  | none =>
    (increment t).map fun (n, rest) =>
      match if n = 0 then none else chomp? rest with
      | some (chomp, after) => (chomp, n, t.length - after.length)
      | none => (.clip, n, t.length - rest.length)

/-- The empty lines before a line of a block scalar. While the indentation is unknown (zero) all
spaces count as such; the widest of them is given with the breaks. None if a tab stands in the
indentation. -/
def emptyLines (indent : Nat) (breaks : Text) (widest : Nat) (place : Place) :
    Text → Option (Text × Nat × Cursor)
  | [] => some (breaks, max widest place.column, ⟨[], place⟩)
  | c :: t =>
    if (indent = 0 || place.column < indent) && c == ' ' then
      emptyLines indent breaks widest (place.next c) t
    else if (indent = 0 || place.column < indent) && c == '\t' then none
    else if isBreak c then
      emptyLines indent (breaks ++ [c]) (max widest place.column) place.newLine t
    else some (breaks, max widest place.column, ⟨c :: t, place⟩)

/-- What has been read of a block scalar: its text, the break that ended the last line, whether that
line began with a space, and the breaks of the empty lines after it. -/
structure BlockText where
  text : Text := []
  lastBreak : Text := []
  spaced : Bool := false
  breaks : Text := []
  deriving Repr

/-- Adds a line to a block scalar. Folding turns a single break between two lines that start with
no space into a space. -/
def BlockText.addLine (b : BlockText) (literal : Bool) (row : Text) : BlockText :=
  let spaced := (row.head?.map isSpace) == some true
  let between :=
    if !literal && b.lastBreak == ['\n'] && !b.spaced && !spaced then
      if b.breaks.isEmpty then [' '] else []
    else b.lastBreak
  { text := b.text ++ between ++ b.breaks ++ row, spaced := spaced }

/-- Reads the lines of a block scalar, which are indented by `indent`. Every line takes at least one
character, so the length of the text bounds their number. -/
def blockLines (literal : Bool) (indent : Nat) : Nat → BlockText → Cursor → Option (BlockText × Cursor)
  | 0, b, c => some (b, c)
  | fuel + 1, b, c =>
    if c.place.column ≠ indent || c.rest.isEmpty then some (b, c)
    else
      let row := c.rest.takeWhile (!isBreak ·)
      let after := c.skip row.length
      let b := b.addLine literal row
      match after.rest with
      | [] => some (b, after)
      | d :: t =>
        match emptyLines indent [] 0 after.place.newLine t with
        | none => none
        | some (breaks, _, next) =>
          blockLines literal indent fuel { b with lastBreak := [d], breaks := breaks } next

/-- Reads a block scalar after its indicator, inside a block that is indented by `parent`. -/
def block (literal : Bool) (parent : Int) (c : Cursor) : Option (Text × Cursor) :=
  match blockHeader c.rest with
  | none => none
  | some (chomp, increment, width) =>
    match (c.skip width).skipComment? with
    | none => none
    | some c =>
      let start := c.skipBreak
      let given := if increment = 0 then 0 else (max parent 0).toNat + increment
      match emptyLines given [] 0 start.place start.rest with
      | none => none
      | some (breaks, widest, next) =>
        let indent := if given = 0 then max widest (max (parent + 1).toNat 1) else given
        match blockLines literal indent next.rest.length { breaks := breaks } next with
        | none => none
        | some (b, next) =>
          let tail := match chomp with
            | .strip => []
            | .clip => b.lastBreak
            | .keep => b.lastBreak ++ b.breaks
          some (b.text ++ tail, next)

end BlockSpec.Yaml
