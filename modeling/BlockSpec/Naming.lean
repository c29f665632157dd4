import BlockSpec.Text.Basic
import BlockSpec.Text.Letter

/-! # Names for generated code

Labels are free text; the classes, methods and attributes made from them have ASCII names. A label
becomes a *snake* name (lower case words joined by underscores) for methods and attributes and a
*camel* name (words with a capital each, run together) for classes.

Names keep ASCII letters, digits and underscores only, so of the Unicode case maps only the images
that hold an ASCII character matter: `lower` and `upper` give those exactly and leave every other
character beyond ASCII as it is, to be dropped afterwards. -/

namespace BlockSpec

/-- ASCII letters and digits. -/
def isAlphanumeric (c : Char) : Bool := c.isAlpha || c.isDigit

/-- Characters that may stand in a name. -/
def isNameChar (c : Char) : Bool := isAlphanumeric c || c == '_'

/-- The characters of a text that may stand in a name. -/
def nameChars (t : Text) : Text := t.filter isNameChar

/-- The words that Python keeps for itself. -/
def reservedWords : List String :=
  ["False", "None", "True", "and", "as", "assert", "async", "await", "break", "class", "continue",
    "def", "del", "elif", "else", "except", "finally", "for", "from", "global", "if", "import",
    "in", "is", "lambda", "nonlocal", "not", "or", "pass", "raise", "return", "try", "while",
    "with", "yield"]

/-- Whether a name is reserved. -/
def isReserved (name : Text) : Bool := reservedWords.any fun word => word.toList == name

/-- Whether a name can stand on its own as an attribute or method: not empty, made of name
characters, not led by a digit and not reserved. -/
def isIdentifier (name : Text) : Bool :=
  match name with
  | [] => false
  | first :: _ => !first.isDigit && name.all isNameChar && !isReserved name

/-- The lower case of a character: exact wherever it holds an ASCII character. -/
def lower (c : Char) : Text :=
  if c = '\u0130' then ['i', '\u0307'] else if c = '\u212A' then ['k'] else [c.toLower]

/-- The characters beyond ASCII whose upper case holds ASCII letters, with those letters. -/
def upperLetters : List (Char × String) :=
  [('\u00DF', "SS"), ('\u0131', "I"), ('\u0149', "N"), ('\u017F', "S"), ('\u01F0', "J"),
    ('\u1E96', "H"), ('\u1E97', "T"), ('\u1E98', "W"), ('\u1E99', "Y"), ('\u1E9A', "A"),
    ('\uFB00', "FF"), ('\uFB01', "FI"), ('\uFB02', "FL"), ('\uFB03', "FFI"), ('\uFB04', "FFL"),
    ('\uFB05', "ST"), ('\uFB06', "ST")]

/-- The upper case of a character: its ASCII letters are exact, other marks are left out. -/
def upper (c : Char) : Text :=
  match upperLetters.lookup c with
  | some letters => letters.toList
  | none => [c.toUpper]

/-- Title case: a letter is in upper case when it follows no letter, and else in lower case. -/
def titleCase (afterLetter : Bool) : Text → Text
  | [] => []
  | c :: t =>
    if isLetter c then (if afterLetter then lower c else upper c) ++ titleCase true t
    else c :: titleCase false t

/-- The camel name of a label: `adds two numbers` becomes `AddsTwoNumbers`. -/
def camel (label : Text) : Text := (titleCase false label).filter isAlphanumeric

/-- The snake name of a label: `Adds Two` becomes `adds_two`. Words that hold no name character
vanish. -/
def snake (label : Text) : Text :=
  let words := (Text.words (label.flatMap lower)).map nameChars
  Text.joinWith ['_'] (words.filter (!·.isEmpty))

end BlockSpec
