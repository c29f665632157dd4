import BlockSpec.FileSystem.Basic

/-! # Denied operations

Any single operation may be denied, whatever the files are, by missing rights as well as by a fault
of the device. It then gives an error and changes nothing:

    attempted   denied       the error it is denied with, the files as they were
                not denied   what the operation gives

The operations of a file system are those under which nothing is denied. -/

namespace BlockSpec

/-- A single operation on what a path leads to. -/
inductive Operation where
  | look (p : Path)
  | read (p : Path)
  | write (p : Path)
  | remove (p : Path)
  | makeDirectory (p : Path)
  deriving DecidableEq, Repr

/-- Which operations are denied and with which error, as the files are when they are attempted. -/
structure Denials where
  error? : FileSystem → Operation → Option FileError

namespace Denials

variable {α : Type}

/-- Nothing is denied. -/
def nothing : Denials := ⟨fun _ _ => none⟩

/-- What an operation gives, or the error it is denied with. -/
def attempt (d : Denials) (fs : FileSystem) (o : Operation) (result : Except FileError α) :
    Except FileError α :=
  match d.error? fs o with
  | some e => .error e
  | none => result

/-- The entry that a path leads to, links followed. -/
def entryAt? (d : Denials) (fs : FileSystem) (p : Path) : Except FileError (Location × Entry) :=
  d.attempt fs (.look p) (fs.entryAt? p)

/-- Whether a path leads to anything. -/
def present (d : Denials) (fs : FileSystem) (p : Path) : Bool := (d.entryAt? fs p).isOk

/-- Whether a path leads to a directory. -/
def isDirectory (d : Denials) (fs : FileSystem) (p : Path) : Bool :=
  match d.entryAt? fs p with
  | .ok (_, .directory) => true
  | _ => false

/-- The absolute path of the entry that a path leads to, without links. -/
def canonical (d : Denials) (fs : FileSystem) (p : Path) : Except FileError Path :=
  d.attempt fs (.look p) (fs.canonical p)

/-- The text of a file. -/
def readText (d : Denials) (fs : FileSystem) (p : Path) : Except FileError Text :=
  d.attempt fs (.read p) (fs.readText p)

/-- Writes a file, a new one if there is none. -/
def write (d : Denials) (fs : FileSystem) (p : Path) (c : Content) : Except FileError FileSystem :=
  d.attempt fs (.write p) (fs.write p c)

/-- Removes a file or a link. -/
def removeFile (d : Denials) (fs : FileSystem) (p : Path) : Except FileError FileSystem :=
  d.attempt fs (.remove p) (fs.removeFile p)

/-- Makes one directory. -/
def makeDirectory (d : Denials) (fs : FileSystem) (p : Path) : Except FileError FileSystem :=
  d.attempt fs (.makeDirectory p) (fs.makeDirectory p)

/-- Makes a directory and those it stands in, as far as they are missing. What was made before an
error stays. -/
def makeDirectories (d : Denials) (fs : FileSystem) (p : Path) : FileSystem × Option FileError :=
  let settled (fs : FileSystem) (e : FileError) : FileSystem × Option FileError :=
    (fs, if d.isDirectory fs p then none else some e)
  if p.isEmpty then (fs, none)
  else match d.makeDirectory fs p with
    | .ok fs => (fs, none)
    | .error .noEntry =>
      match Path.parent? p with
      | none => (fs, some .noEntry)
      | some parent =>
        if parent.length < p.length then
          match d.makeDirectories fs parent with
          | (fs, some e) => (fs, some e)
          | (fs, none) =>
            match d.makeDirectory fs p with
            | .ok fs => (fs, none)
            | .error e => settled fs e
        else (fs, some .noEntry)
    | .error e => settled fs e
termination_by p.length

@[simp] theorem readText_nothing (fs : FileSystem) (p : Path) :
    nothing.readText fs p = fs.readText p := rfl

@[simp] theorem present_nothing (fs : FileSystem) (p : Path) :
    nothing.present fs p = fs.present p := rfl

@[simp] theorem write_nothing (fs : FileSystem) (p : Path) (c : Content) :
    nothing.write fs p c = fs.write p c := rfl

@[simp] theorem removeFile_nothing (fs : FileSystem) (p : Path) :
    nothing.removeFile fs p = fs.removeFile p := rfl

/-- What was given was not denied. -/
theorem eq_ok_of_attempt {d : Denials} {fs : FileSystem} {o : Operation}
    {result : Except FileError α} {a : α} (h : d.attempt fs o result = .ok a) : result = .ok a := by
  unfold attempt at h
  split at h
  · cases h
  · exact h

end Denials

/-- Makes a directory and those it stands in, as far as they are missing. -/
def FileSystem.makeDirectories (fs : FileSystem) (p : Path) : FileSystem × Option FileError :=
  Denials.nothing.makeDirectories fs p

end BlockSpec
