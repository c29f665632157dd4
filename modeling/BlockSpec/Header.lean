import BlockSpec.Kind

/-! # Header lines

A header opens a block:

    <indent><keyword>[ (]["]label["][ (args)][)]: [code]

After the keyword comes one blank or an opening parenthesis, then a label with optional quotes
around it, an optional list of arguments in parentheses, an optional closing parenthesis, a colon,
and code on the same line. An opening quote is taken whenever one is there. The label is the
shortest one after which the rest of the line fits; a list of arguments is read in preference to
none. Everything after the label is then determined, so reading is one walk along the line that
asks at each place whether the header can end there. -/

namespace BlockSpec

/-- A header line split into its parts. -/
structure Header where
  /-- How many blanks stand in front of the keyword. -/
  indent : Nat
  kind : Kind
  label : Text
  /-- Extra parameters of a test, without their parentheses. -/
  args : Option Text
  /-- Code on the header's own line. -/
  code : Option Text
  deriving DecidableEq, Repr

namespace Header

/-- What follows a text when one given character in front of it is skipped, if it is there. -/
def skipChar (c : Char) : Text → Text
  | [] => []
  | d :: t => if d = c then t else d :: t

/-- What follows a text when one blank in front of it is skipped, if there is one. -/
def skipBlank : Text → Text
  | [] => []
  | d :: t => if isBlank d then t else d :: t

/-- The end of a header: an optional closing parenthesis, the colon, one optional blank, and then
the code, which holds no newline. -/
def code? (t : Text) : Option Text :=
  match skipChar ')' t with
  | ':' :: rest => if (skipBlank rest).contains '\n' then none else some (skipBlank rest)
  | _ => none

/-- A list of arguments: an optional blank, then everything from an opening parenthesis to the
first closing one. Gives what stands between the two, and what follows. -/
def arguments? (t : Text) : Option (Text × Text) :=
  match skipBlank t with
  | '(' :: rest =>
    match rest.span (· != ')') with
    | (inside, _ :: after) => some (inside, after)
    | (_, []) => none
  | _ => none

/-- What follows a label: an optional closing quote, the arguments if they can be read with a
header's end after them, and the code. -/
def ending? (t : Text) : Option (Option Text × Text) :=
  let rest := skipChar '"' t
  let plain := (code? rest).map fun code => (none, code)
  match arguments? rest with
  | none => plain
  | some (inside, after) =>
    match code? after with
    | some code => some (some inside, code)
    | none => plain

/-- The shortest label after which a header can end, with what stands there. A label holds no
quote. -/
def labelled? : Text → Option (Text × Option Text × Text)
  | [] => (ending? []).map fun e => ([], e)
  | c :: t =>
    match ending? (c :: t) with
    | some e => some ([], e)
    | none =>
      if c = '"' then none
      else (labelled? t).map fun found => (c :: found.1, found.2)

/-- Arguments without surrounding blanks and without further parentheses at their ends; none if
nothing remains. -/
def cleanArgs (inside : Text) : Option Text :=
  let core := Text.dropTrailing ')' ((Text.trim ('(' :: (inside ++ [')']))).dropWhile (· == '('))
  let args := Text.trim core
  if args.isEmpty then none else some args

/-- The keyword that a text starts with, if a blank or an opening parenthesis follows it. -/
def keyword? (t : Text) : Option (Kind × Text) :=
  Kind.openable.findSome? fun kind =>
    match Text.stripStart? kind.keyword.toList t with
    | some (sep :: rest) => if isBlank sep || sep == '(' then some (kind, rest) else none
    | _ => none

/-- Reads a line as a header. -/
def parse? (line : Text) : Option Header :=
  match keyword? (Text.trimStart line) with
  | none => none
  | some (kind, rest) =>
    (labelled? (skipChar '"' rest)).map fun (label, inside, code) =>
      { indent := (line.takeWhile isBlank).length
        kind := kind
        label := label
        args := inside.bind cleanArgs
        code := if Text.allBlank code then none else some code }

end Header

end BlockSpec
