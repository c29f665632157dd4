import BlockSpec.FileSystem.Basic

/-! # Interpreters

A module is run by starting the interpreter with the module's path. What a program does is given by
its effect on a file system that it only reads: what it writes to its output and whether it
succeeds. -/

namespace BlockSpec

/-- What a program wrote, and whether it succeeded. -/
structure Execution where
  output : Text
  success : Bool
  deriving DecidableEq, Repr

/-- The programs that can be started. -/
inductive Program where
  /-- Writes the file out. -/
  | cat
  /-- Writes the last name of the path. -/
  | basename
  /-- Succeeds. -/
  | succeed
  /-- Fails. -/
  | fail
  deriving DecidableEq, Repr

namespace Program

/-- The name of a program. -/
def name : Program → String
  | cat => "cat"
  | basename => "basename"
  | succeed => "true"
  | fail => "false"

/-- All programs. -/
def all : List Program := [cat, basename, succeed, fail]

/-- The directories that programs are found in. -/
def directories : List String := ["/bin/", "/usr/bin/"]

/-- The program that a name or full path stands for. -/
def find? (t : Text) : Option Program :=
  all.find? fun p => p.name.toList == t || directories.any fun d => (d ++ p.name).toList == t

/-- Runs a program on the file at a path. To a program that reads its argument, a path that starts
with a dash is an option that it does not have. -/
def run (p : Program) (fs : FileSystem) (path : Path) : Execution :=
  match p with
  | cat =>
    if path.head? = some '-' then ⟨[], false⟩
    else match fs.readText path with
      | .ok t => ⟨t, true⟩
      | .error _ => ⟨[], false⟩
  | basename =>
    if path.head? = some '-' then ⟨[], false⟩
    else ⟨(Path.fileName? path).getD path ++ ['\n'], true⟩
  | succeed => ⟨[], true⟩
  | fail => ⟨[], false⟩

end Program

/-- Starts an interpreter on a module. -/
def interpret (fs : FileSystem) (interpreter : Text) (module : Path) : Except FileError Execution :=
  match Program.find? interpreter with
  | some p => .ok (p.run fs module)
  | none => .error .noEntry

end BlockSpec
