import BlockSpec.Diagnostic
import BlockSpec.FileSystem.Basic

/-! # Spec files

The spec files of a suite are the files below the given directories that have the right extension,
in the order of their paths. A file may also be given in place of a directory. Links are not
followed, except that a given directory may itself be named by a link. -/

namespace BlockSpec

/-- A spec file and the directory it was found under. -/
structure SpecFile where
  root : Path
  path : Path
  deriving DecidableEq, Repr

namespace SpecFile

/-- Where the module of a spec goes: the path below its directory, under the output root, with the
extension of modules. A spec that was given itself keeps only its name. -/
def output (s : SpecFile) (outputRoot : Path) : Path :=
  let relative := match Path.relativeTo? s.root s.path with
    | some (c :: rest) => c :: rest
    | _ => (Path.fileName? s.path).getD []
  Path.withExtension "py".toList (Path.join outputRoot relative)

/-- The paths of all files at or below a directory, as they are reached from it. -/
def filesUnder (fs : FileSystem) (dir : Path) : Except FileError (List Path) :=
  let below (l : Location) : List Path :=
    (fs.under l).filterMap fun (names, e) =>
      match e with
      | .file _ => some (names.foldl Path.join dir)
      | _ => none
  match fs.find false dir with
  | .error e => .error e
  | .ok (.free _) => .error .noEntry
  | .ok (.at l .directory) => .ok (below l)
  | .ok (.at _ (.file _)) => .ok [dir]
  | .ok (.at _ (.link _)) =>
    (fs.entryAt? dir).map fun (l, e) => if e = .directory then below l else []

/-- The diagnostic of a directory that cannot be searched. -/
def searchFault (dir : Path) (e : FileError) : Diagnostic :=
  { fault := .file dir
      ("IO error for operation on ".toList ++ dir ++ ": ".toList ++ e.message.toList) }

/-- The spec files under one directory. -/
def under (fs : FileSystem) (extension : Text) (dir : Path) : Except Diagnostic (List SpecFile) :=
  match filesUnder fs dir with
  | .error e => .error (searchFault dir e)
  | .ok paths =>
    .ok ((paths.filter fun p => Path.extension? p == some extension).map (SpecFile.mk dir))

/-- The spec files under the given directories, in the order of their paths; files of equal path
stay in the order of the directories. The first directory that cannot be searched is an error. -/
def discover (fs : FileSystem) (dirs : List Path) (extension : Text) :
    Except Diagnostic (List SpecFile) :=
  (dirs.mapM (under fs extension)).map fun found =>
    found.flatten.mergeSort fun a b => Path.le a.path b.path

end SpecFile

end BlockSpec
