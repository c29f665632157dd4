import BlockSpec.Text.Basic

/-! # Paths

A path is a text whose pieces are divided by slashes. Empty pieces and single dots say nothing,
except that a leading slash makes the path absolute and a leading dot names the working directory.
What a path says is its list of components; paths are compared by components, but cutting and
joining keep the pieces as they were written. -/

namespace BlockSpec

/-- A path as written. -/
abbrev Path := Text

/-- What one step of a path says. -/
inductive Component where
  /-- The top of the file system. -/
  | top
  /-- The working directory, at the start of a path. -/
  | here
  /-- One directory up. -/
  | up
  /-- Into a directory, or to a file. -/
  | name (n : Text)
  deriving DecidableEq, Repr

namespace Component

/-- The order of texts by code point, character by character. -/
def textLE : Text → Text → Bool
  | [], _ => true
  | _ :: _, [] => false
  | a :: s, b :: t => if a = b then textLE s t else decide (a.toNat < b.toNat)

/-- The order of components: top, here, up, and then names by code point. -/
def le : Component → Component → Bool
  | top, _ => true
  | _, top => false
  | here, _ => true
  | _, here => false
  | up, _ => true
  | _, up => false
  | name a, name b => textLE a b

/-- The order of lists of components, component by component. -/
def listLE : List Component → List Component → Bool
  | [], _ => true
  | _ :: _, [] => false
  | a :: s, b :: t => if a = b then listLE s t else le a b

end Component

namespace Path

/-- Whether a piece says nothing where it stands. -/
def isIdle (piece : Text) : Bool := piece.isEmpty || piece == ['.']

/-- What a piece says that is not idle. -/
def meaning (piece : Text) : Component := if piece = ['.', '.'] then .up else .name piece

/-- Without the idle pieces at the end. -/
def trimIdle (pieces : List Text) : List Text := (pieces.reverse.dropWhile isIdle).reverse

/-- Whether a path starts at the top. -/
def isAbsolute (p : Path) : Bool := p.head? == some '/'

/-- A path cut into what it starts with, if that is the top or the working directory, and the
pieces after that. -/
def cut (p : Path) : Option Component × List Text :=
  match Text.pieces '/' p with
  | [] :: next :: rest => (some .top, next :: rest)
  | ['.'] :: rest => (some .here, rest)
  | pieces => (none, pieces)

/-- The path that starts as given and goes on with the pieces. -/
def uncut : Option Component → List Text → Path
  | some .top, pieces => '/' :: Text.joinWith ['/'] pieces
  | some .here, [] => ['.']
  | some .here, pieces => '.' :: '/' :: Text.joinWith ['/'] pieces
  | _, pieces => Text.joinWith ['/'] pieces

/-- What a path says. -/
def components (p : Path) : List Component :=
  (cut p).1.toList ++ ((cut p).2.filter (!isIdle ·)).map meaning

/-- The order of paths. -/
def le (a b : Path) : Bool := Component.listLE a.components b.components

/-- The pieces that are left after the given components have been walked. -/
def walk : List Component → List Text → Option (List Text)
  | [], pieces => some pieces
  | c :: cs, pieces =>
    match pieces.dropWhile isIdle with
    | [] => none
    | piece :: rest => if meaning piece = c then walk cs rest else none

/-- What follows a beginning that a path has, in components. -/
def relativeTo? (base p : Path) : Option Path :=
  let (start, pieces) := cut p
  let (baseStart, basePieces) := cut base
  let steps := (basePieces.filter (!isIdle ·)).map meaning
  if baseStart = none && steps.isEmpty then some (uncut start (trimIdle pieces))
  else if start = baseStart then
    (walk steps pieces).map fun rest => Text.joinWith ['/'] (trimIdle (rest.dropWhile isIdle))
  else none

/-- The name that a path ends in. -/
def fileName? (p : Path) : Option Text :=
  match p.components.getLast? with
  | some (.name n) => some n
  | _ => none

/-- A file name cut at its last dot: the stem and the extension. A dot in front of the name starts
no extension. -/
def splitName (n : Text) : Text × Option Text :=
  match Text.splitAtLast? '.' n with
  | some ([], _) => (n, none)
  | some (stem, ext) => (stem, some ext)
  | none => (n, none)

/-- The extension of the file name. -/
def extension? (p : Path) : Option Text := p.fileName?.bind fun n => (splitName n).2

/-- The path with an extension in place of what follows the last dot of the file name; unchanged if
it ends in no name. -/
def putExtension (ext : Text) (p : Path) : Path :=
  match p.fileName? with
  | none => p
  | some n =>
    let (start, pieces) := cut p
    uncut start ((trimIdle pieces).dropLast ++ [(splitName n).1 ++ '.' :: ext])

/-- The path without its extension. The dot before it stays, so two dots and an extension become the
step up. -/
def dropExtension (p : Path) : Path :=
  match p.extension? with
  | none => p
  | some old => p.take (p.length - old.length)

/-- The path with another extension. -/
def withExtension (ext : Text) (p : Path) : Path := putExtension ext (dropExtension p)

/-- A path and then another one from there; an absolute one starts anew. -/
def join (base rest : Path) : Path :=
  if isAbsolute rest then rest
  else if base.isEmpty || base.getLast? == some '/' then base ++ rest
  else base ++ '/' :: rest

/-- The directory that a path leads through last. -/
def parent? (p : Path) : Option Path :=
  let (start, pieces) := cut p
  match trimIdle pieces with
  | [] => if start = some .here then some [] else none
  | last => some (uncut start (trimIdle last.dropLast))

end Path

end BlockSpec
