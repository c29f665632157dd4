import BlockSpec.CommandLine.Response

/-! # The program

The files that a command line is about are read into a file system value, the command line is
answered on that value, and what has changed is written back. -/

namespace BlockSpec

namespace Disk

/-- A location as the operating system names it. -/
def nameOf (l : Location) : String := String.ofList (FileSystem.absolute l)

/-- What stands at a location. A link is read as a link to where it finally leads. -/
def read? (l : Location) : IO (Option Entry) := do
  try
    let p := (← IO.currentDir) / nameOf l
    match (← p.symlinkMetadata).type with
    | .dir => return some .directory
    | .file => return some (.file (.ofBytes (← IO.FS.readBinFile p).toList))
    | .symlink => return some (.link (← IO.FS.realPath p).toString.toList)
    | .other => return none
  catch _ => return none

/-- Adds everything below a directory. -/
partial def addBelow (fs : FileSystem) (l : Location) : IO FileSystem := do
  let mut fs := fs
  for child in ← ((← IO.currentDir) / nameOf l).readDir do
    let next := l ++ [child.fileName.toList]
    if let some e ← read? next then
      fs := fs.put next e
      if e = .directory then
        fs ← addBelow fs next
  return fs

/-- Adds what a path leads through and, if asked for, everything below its end. -/
partial def addPath (deep : Bool) (fs : FileSystem) (l : Location) : List Text → IO FileSystem
  | [] => if deep && fs.get? l == some .directory then addBelow fs l else return fs
  | ['.'] :: rest => addPath deep fs l rest
  | ['.', '.'] :: rest => addPath deep fs l.dropLast rest
  | name :: rest => do
    let next := l ++ [name]
    match ← read? next with
    | none => return fs
    | some (.link target) =>
      addPath deep (fs.put next (.link target)) [] (FileSystem.namesOf target ++ rest)
    | some e => addPath deep (fs.put next e) next rest

/-- Adds a path, seen from the working directory. -/
def add (deep : Bool) (fs : FileSystem) (p : Path) : IO FileSystem :=
  addPath deep fs (if Path.isAbsolute p then [] else fs.workingDirectory) (FileSystem.namesOf p)

/-- The file system as far as a command line is about it. -/
def load (temporary : Path) (words : List Text) : IO FileSystem := do
  let here := (← IO.currentDir).toString.toList
  let fs ← add false (.empty (FileSystem.namesOf here)) here
  match Invocation.read words with
  | .error _ => return fs
  | .ok i =>
    let fs ← add false fs (i.config.getD Config.fileName.toList)
    let c := (Config.discover fs i.config).toOption.getD {}
    (i.command.paths temporary c).foldlM (add true) fs

/-- Writes back what has changed. -/
def save (old new : FileSystem) : IO Unit := do
  for (l, e) in new.entries.reverse do
    if old.get? l ≠ some e then
      match e with
      | .directory => IO.FS.createDirAll (nameOf l)
      | .file (.text t) => IO.FS.writeFile (nameOf l) (String.ofList t)
      | .file (.bytes b) => IO.FS.writeBinFile (nameOf l) b.toByteArray
      | .link _ => pure ()
  for (l, _) in old.entries do
    if (new.get? l).isNone then
      IO.FS.removeFile (nameOf l)

end Disk

end BlockSpec

open BlockSpec in
/-- Answers the command line of the program. -/
def main (arguments : List String) : IO UInt32 := do
  let words := arguments.map String.toList
  let temporary := ((← IO.getEnv "TMPDIR").getD "/tmp").toList
  let old ← Disk.load temporary words
  let (response, new) := respond interpret temporary old words
  Disk.save old new
  IO.print (String.ofList response.output)
  for d in response.diagnostics do
    IO.eprintln (String.ofList (d.code ++ ": ".toList ++ d.fault.message))
  return response.exitCode.toUInt32
