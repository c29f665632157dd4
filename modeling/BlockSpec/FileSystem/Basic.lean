import BlockSpec.Path

/-! # File systems

A file system is a value: the entries at their locations, and the directory that relative paths start
from. An operation takes a path, finds the location it leads to and gives the next file system or
the error that stops it. Links are followed wherever a path passes through them, and at its end
unless the operation is about the link itself; after forty links a path is given up. -/

namespace BlockSpec

/-- The names from the top down to an entry. The top itself is the empty list. -/
abbrev Location := List Text

/-- What is stored in a file: a text, or bytes that are no text in UTF-8. -/
inductive Content where
  | text (t : Text)
  | bytes (b : List UInt8)
  deriving DecidableEq, Repr

/-- Bytes as content: a text whenever they are one. -/
def Content.ofBytes (b : List UInt8) : Content :=
  match String.fromUTF8? b.toByteArray with
  | some s => .text s.toList
  | none => .bytes b

/-- What can stand at a location. -/
inductive Entry where
  | directory
  | file (content : Content)
  | link (target : Path)
  deriving DecidableEq, Repr

/-- The errors of file operations. -/
inductive FileError where
  | noEntry
  | alreadyExists
  | notDirectory
  | isDirectory
  | nameTooLong
  | tooManyLinks
  | notText
  | zeroInPath
  | permissionDenied
  | inputOutput
  deriving DecidableEq, Repr

/-- The wording of an error. -/
def FileError.message : FileError → String
  | noEntry => "No such file or directory (os error 2)"
  | alreadyExists => "File exists (os error 17)"
  | notDirectory => "Not a directory (os error 20)"
  | isDirectory => "Is a directory (os error 21)"
  | nameTooLong => "File name too long (os error 36)"
  | tooManyLinks => "Too many levels of symbolic links (os error 40)"
  | notText => "stream did not contain valid UTF-8"
  | zeroInPath => "file name contained an unexpected NUL byte"
  | permissionDenied => "Permission denied (os error 13)"
  | inputOutput => "Input/output error (os error 5)"

/-- The entries of a file system, each at its own location, and the working directory. -/
structure FileSystem where
  entries : List (Location × Entry)
  workingDirectory : Location
  nodup : (entries.map (·.1)).Nodup
  deriving DecidableEq, Repr

namespace FileSystem

/-- A file system with nothing in it. -/
def empty (workingDirectory : Location) : FileSystem := ⟨[], workingDirectory, List.nodup_nil⟩

/-- The entry at a location. The top is a directory. -/
def get? (fs : FileSystem) (l : Location) : Option Entry :=
  if l = [] then some .directory else fs.entries.lookup l

/-- Fewer entries are still at different locations. -/
theorem nodup_filter (fs : FileSystem) (keep : Location × Entry → Bool) :
    ((fs.entries.filter keep).map (·.1)).Nodup :=
  fs.nodup.sublist (List.filter_sublist.map _)

/-- The entries at the locations of a class. -/
def keep (fs : FileSystem) (isKept : Location → Bool) : FileSystem :=
  { fs with
    entries := fs.entries.filter (isKept ·.1)
    nodup := fs.nodup_filter (isKept ·.1) }

/-- The file system with nothing at a location. -/
def erase (fs : FileSystem) (l : Location) : FileSystem := fs.keep (· ≠ l)

/-- The file system with an entry put at a location. -/
def put (fs : FileSystem) (l : Location) (e : Entry) : FileSystem :=
  { fs with
    entries := (l, e) :: (fs.erase l).entries
    nodup := by
      rw [List.map_cons, List.nodup_cons]
      exact ⟨by simp [erase, keep], (fs.erase l).nodup⟩ }

/-- Looking up a location among the entries that are kept. -/
theorem lookup_filter (entries : List (Location × Entry)) (isKept : Location → Bool)
    (l : Location) :
    (entries.filter (isKept ·.1)).lookup l = if isKept l then entries.lookup l else none := by
  induction entries with
  | nil => simp
  | cons head rest ih =>
    obtain ⟨m, e⟩ := head
    by_cases hl : l = m
    · subst hl
      cases hm : isKept l <;> simp [hm, ih]
    · have hlm : (l == m) = false := by simp [hl]
      by_cases hm : isKept m <;> simp [hm, List.lookup_cons, hlm, ih]

/-- Of all entries only those that are kept are still there. -/
theorem get?_keep (fs : FileSystem) (isKept : Location → Bool) {l : Location} (h : l ≠ []) :
    (fs.keep isKept).get? l = if isKept l then fs.get? l else none := by
  simp [get?, keep, h, lookup_filter]

/-- After an entry is erased there is nothing at its location, and all else stays. -/
theorem get?_erase (fs : FileSystem) (l : Location) {m : Location} (h : m ≠ []) :
    (fs.erase l).get? m = if m = l then none else fs.get? m := by
  rw [erase, get?_keep _ _ h]
  by_cases hm : m = l <;> simp [hm]

/-- After an entry is put it stands at its location, and all else stays. -/
theorem get?_put (fs : FileSystem) (l : Location) (e : Entry) {m : Location} (h : m ≠ []) :
    (fs.put l e).get? m = if m = l then some e else fs.get? m := by
  have erased := fs.get?_erase l h
  rw [get?, if_neg h] at erased
  rw [get?, if_neg h, put, List.lookup_cons]
  by_cases hm : m = l
  · simp [hm]
  · have hml : (m == l) = false := by simp [hm]
    simp [hml, erased, hm]

/-- The names that a path lists. A slash at the end asks for a directory, as a dot there does. -/
def namesOf (p : Path) : List Text :=
  (Text.pieces '/' p).filter (!·.isEmpty) ++ (if p.getLast? = some '/' then [['.']] else [])

/-- Where a path leads: to an entry, or to a free place in a directory. -/
inductive Found where
  | at (l : Location) (e : Entry)
  | free (l : Location)
  deriving DecidableEq, Repr

/-- Walks the names from a location, following at most `links` links. A link in the last place is
followed only if asked for. -/
def walk (fs : FileSystem) (followLast : Bool) (links : Nat) (origin : Location)
    (names : List Text) : Except FileError Found :=
  match names with
  | [] =>
    match fs.get? origin with
    | some n => .ok (.at origin n)
    | none => .ok (.free origin)
  | name :: rest =>
    match fs.get? origin with
    | some .directory =>
      if name = ['.'] then fs.walk followLast links origin rest
      else if name = ['.', '.'] then fs.walk followLast links origin.dropLast rest
      else if 255 < name.byteSize then .error .nameTooLong
      else
        let next := origin ++ [name]
        match fs.get? next with
        | none => if rest = [] then .ok (.free next) else .error .noEntry
        | some (.link target) =>
          if rest = [] && !followLast then .ok (.at next (.link target))
          else match links with
            | 0 => .error .tooManyLinks
            | links + 1 =>
              fs.walk followLast links (if Path.isAbsolute target then [] else origin)
                (namesOf target ++ rest)
        | some _ => fs.walk followLast links next rest
    | some _ => .error .notDirectory
    | none => .error .noEntry
termination_by (links, names.length)

/-- Where a path leads from the working directory. -/
def find (fs : FileSystem) (followLast : Bool) (p : Path) : Except FileError Found :=
  if p.isEmpty then .error .noEntry
  else if p.contains (Char.ofNat 0) then .error .zeroInPath
  else if 4096 ≤ p.byteSize then .error .nameTooLong
  else fs.walk followLast 40 (if Path.isAbsolute p then [] else fs.workingDirectory) (namesOf p)

/-- The entry that a path leads to, links followed. -/
def entryAt? (fs : FileSystem) (p : Path) : Except FileError (Location × Entry) :=
  match fs.find true p with
  | .ok (.at l n) => .ok (l, n)
  | .ok (.free _) => .error .noEntry
  | .error e => .error e

/-- Whether a path leads to anything. -/
def present (fs : FileSystem) (p : Path) : Bool := (fs.entryAt? p).isOk

/-- Whether a path leads to a directory. -/
def isDirectory (fs : FileSystem) (p : Path) : Bool :=
  match fs.entryAt? p with
  | .ok (_, .directory) => true
  | _ => false

/-- Whether a path leads to a file. -/
def isFile (fs : FileSystem) (p : Path) : Bool :=
  match fs.entryAt? p with
  | .ok (_, .file _) => true
  | _ => false

/-- The text of a file. -/
def readText (fs : FileSystem) (p : Path) : Except FileError Text :=
  match fs.entryAt? p with
  | .ok (_, .file (.text t)) => .ok t
  | .ok (_, .file (.bytes _)) => .error .notText
  | .ok (_, .directory) => .error .isDirectory
  | .ok (_, .link _) => .error .tooManyLinks
  | .error e => .error e

/-- Writes a file, a new one if there is none. -/
def write (fs : FileSystem) (p : Path) (c : Content) : Except FileError FileSystem :=
  match fs.find true p with
  | .ok (.free l) => .ok (fs.put l (.file c))
  | .ok (.at l (.file _)) => .ok (fs.put l (.file c))
  | .ok (.at _ .directory) => .error .isDirectory
  | .ok (.at _ (.link _)) => .error .tooManyLinks
  | .error e => .error e

/-- Removes a file or a link. -/
def removeFile (fs : FileSystem) (p : Path) : Except FileError FileSystem :=
  match fs.find false p with
  | .ok (.at _ .directory) => .error .isDirectory
  | .ok (.at l _) => .ok (fs.erase l)
  | .ok (.free _) => .error .noEntry
  | .error e => .error e

/-- A path without the slashes at its end, unless there is nothing else. -/
def withoutSlash (p : Path) : Path :=
  if (Text.dropTrailing '/' p).isEmpty then p else Text.dropTrailing '/' p

/-- Makes one directory. A slash may follow its name. -/
def makeDirectory (fs : FileSystem) (p : Path) : Except FileError FileSystem :=
  match fs.find false (withoutSlash p) with
  | .ok (.free l) => .ok (fs.put l .directory)
  | .ok (.at _ _) => .error .alreadyExists
  | .error e => .error e

/-- Makes a link. -/
def makeLink (fs : FileSystem) (p target : Path) : Except FileError FileSystem :=
  match fs.find false p with
  | .ok (.free l) => .ok (fs.put l (.link target))
  | .ok (.at _ _) => .error .alreadyExists
  | .error e => .error e

/-- Removes what a path leads to and everything below it. A link is removed itself. -/
def removeTree (fs : FileSystem) (p : Path) : Except FileError FileSystem :=
  match fs.find false p with
  | .ok (.at l _) => .ok (fs.keep fun m => !l.isPrefixOf m)
  | .ok (.free _) => .error .noEntry
  | .error e => .error e

/-- A location as an absolute path. -/
def absolute (l : Location) : Path := '/' :: Text.joinWith ['/'] l

/-- The absolute path of the entry that a path leads to, without links. -/
def canonical (fs : FileSystem) (p : Path) : Except FileError Path :=
  (fs.entryAt? p).map fun found => absolute found.1

/-- What follows a location in another one below it. -/
def below? : Location → Location → Option (List Text)
  | [], rest => if rest.isEmpty then none else some rest
  | _ :: _, [] => none
  | a :: l, b :: m => if a = b then below? l m else none

/-- Everything below a location: the names from there on, and the entry. -/
def under (fs : FileSystem) (l : Location) : List (List Text × Entry) :=
  fs.entries.filterMap fun (m, n) => (below? l m).map fun rest => (rest, n)

end FileSystem

end BlockSpec
