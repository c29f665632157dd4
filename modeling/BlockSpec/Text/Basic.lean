import BlockSpec.Text.Blank

/-! # Text as a list of characters

Every text the library reads or writes is the list of its Unicode scalar values, so that reading,
cutting and joining are recursions on lists. Fixed words of the formats stay `String` literals and
are turned into texts where they are used. -/

namespace BlockSpec

/-- A text: its characters, first to last. -/
abbrev Text := List Char

namespace Text

/-- The text of a natural number in decimal digits. -/
def ofNat (n : Nat) : Text := Nat.toDigits 10 n

/-- The text of an integer: a minus sign for negative ones, then decimal digits. -/
def ofInt : Int → Text
  | .ofNat n => ofNat n
  | .negSucc n => '-' :: ofNat (n + 1)

/-- The pieces between the characters of a class. There is always one piece more than there are
such characters. -/
def piecesBy (isSep : Char → Bool) : Text → List Text
  | [] => [[]]
  | c :: t =>
    if isSep c then [] :: piecesBy isSep t
    else match piecesBy isSep t with
      | [] => [[c]]
      | p :: ps => (c :: p) :: ps

/-- The pieces between the copies of one separator. -/
def pieces (sep : Char) (t : Text) : List Text := piecesBy (· == sep) t

/-- The lines of a text. A line ends at a newline, and one carriage return directly before that
newline belongs to the line's end. A last line without a newline counts if it is not empty. -/
def lines : Text → List Text
  | [] => []
  | '\n' :: t => [] :: lines t
  | '\r' :: '\n' :: t => [] :: lines t
  | c :: t =>
    match lines t with
    | [] => [[c]]
    | l :: ls => (c :: l) :: ls

/-- Without the blanks in front. -/
def trimStart (t : Text) : Text := t.dropWhile isBlank

/-- Without the blanks at the end. -/
def trimEnd (t : Text) : Text := (t.reverse.dropWhile isBlank).reverse

/-- Without the blanks at both ends. -/
def trim (t : Text) : Text := trimEnd (trimStart t)

/-- Whether nothing but blanks stands in the text. -/
def allBlank (t : Text) : Bool := t.all isBlank

/-- Without the copies of one character at the end. -/
def dropTrailing (c : Char) (t : Text) : Text := (t.reverse.dropWhile (· == c)).reverse

/-- The words of a text: its longest runs without blanks. -/
def words (t : Text) : List Text := (piecesBy isBlank t).filter (!·.isEmpty)

/-- The texts with a separator between neighbours. -/
def joinWith (sep : Text) (parts : List Text) : Text := sep.intercalate parts

/-- Every line followed by a newline. -/
def ofLines (rows : List Text) : Text := rows.flatMap (· ++ ['\n'])

/-- What follows a given beginning, when the text starts with it. -/
def stripStart? : Text → Text → Option Text
  | [], t => some t
  | _ :: _, [] => none
  | p :: ps, c :: t => if p = c then stripStart? ps t else none

/-- Whether the text starts with the given beginning. -/
def startsWith (beginning t : Text) : Bool := (stripStart? beginning t).isSome

/-- The bytes of a text in UTF-8. -/
def utf8 (t : Text) : List UInt8 := t.flatMap String.utf8EncodeChar

/-- How many bytes the text takes in UTF-8. -/
def byteSize (t : Text) : Nat := t.foldr (fun c n => c.utf8Size + n) 0

/-- Spaces, as many as asked for. -/
def spaces (width : Nat) : Text := List.replicate width ' '

/-- The parts before and after the last occurrence of a character. -/
def splitAtLast? (sep : Char) (t : Text) : Option (Text × Text) :=
  match t.reverse.span (· != sep) with
  | (after, _ :: before) => some (before.reverse, after.reverse)
  | (_, []) => none

end Text

end BlockSpec
