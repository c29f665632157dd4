import BlockSpec.Compile
import BlockSpec.Config.Basic
import BlockSpec.FileSystem.Denials
import BlockSpec.Suite.SpecFile

/-! # Work on a whole suite

Every operation first finds the spec files and then goes through them one after the other; a spec
that fails is reported and the others still get their turn. A module whose first line carries the
fingerprint of its spec is current and is not generated again unless that is forced.

Every operation is given what is denied at the turn of each spec; as it is carried out for a
command, nothing is denied. -/

namespace BlockSpec

/-- The diagnostic of a file operation that failed. -/
def fileFault (p : Path) (e : FileError) : Diagnostic := { fault := .file p e.message.toList }

/-- What happened to one spec. -/
inductive Outcome where
  | generated (output : Path)
  | unchanged (output : Path)
  | removed (output : Path)
  | absent (output : Path)
  | failed (why : Diagnostic)
  deriving DecidableEq, Repr

/-- What happened to the spec at a path. -/
structure FileReport where
  spec : Path
  outcome : Outcome
  deriving DecidableEq, Repr

namespace FileReport

/-- Whether the spec failed. -/
def isFailure (r : FileReport) : Bool :=
  match r.outcome with
  | .failed _ => true
  | _ => false

/-- The module that stands there for the spec. -/
def output? (r : FileReport) : Option Path :=
  match r.outcome with
  | .generated p | .unchanged p => some p
  | _ => none

end FileReport

/-- How a module compares with what would be generated now. -/
inductive Freshness where
  | current
  | missing (expected : Text)
  | stale (existing expected : Text)
  deriving DecidableEq, Repr

/-- What a check found for the spec at a path. -/
structure CheckReport where
  spec : Path
  output : Path
  result : Except Diagnostic Freshness

/-- A suite: its settings, whether modules are generated even if current, and the directory for
temporary files. -/
structure Suite where
  config : Config
  force : Bool := false
  temporary : Path
  deriving DecidableEq, Repr

namespace Suite

/-- The directory that modules are written under. -/
def outputRoot (s : Suite) : Path := s.config.outputRoot s.temporary

/-- The spec files under the given directories. -/
def specs (s : Suite) (fs : FileSystem) (dirs : List Path) : Except Diagnostic (List SpecFile) :=
  SpecFile.discover fs dirs s.config.extension

/-! ### Under denials -/

/-- Compiles the text of a spec file. Messages name the file as given; the module records its
absolute path. -/
def compileContent (d : Denials) (fs : FileSystem) (p : Path) (content : Text)
    (options : Options) : Except Diagnostic Text :=
  let recorded := match d.canonical fs p with
    | .ok absolute => absolute
    | .error _ => p
  compile ⟨p, content⟩ recorded options

/-- Reads and compiles a spec file. -/
def compileFileUnder (d : Denials) (fs : FileSystem) (p : Path) (options : Options) :
    Except Diagnostic Text :=
  match d.readText fs p with
  | .error e => .error (fileFault p e)
  | .ok content => compileContent d fs p content options

/-- Whether the module at a path carries the fingerprint of a spec. -/
def isCurrentUnder (d : Denials) (fs : FileSystem) (output : Path) (content : Text)
    (options : Options) : Bool :=
  match d.readText fs output with
  | .error _ => false
  | .ok existing => Stamp.readDigest? existing == some (fingerprint content options).hex

/-- Writes a module, making the directories it stands in. -/
def writeModule (d : Denials) (fs : FileSystem) (output : Path) (text : Text) :
    Outcome × FileSystem :=
  let write (fs : FileSystem) : Outcome × FileSystem :=
    match d.write fs output (.text text) with
    | .error e => (.failed (fileFault output e), fs)
    | .ok fs => (.generated output, fs)
  match Path.parent? output with
  | none => write fs
  | some parent =>
    match d.makeDirectories fs parent with
    | (fs, some e) => (.failed (fileFault parent e), fs)
    | (fs, none) => write fs

/-- Generates the module of one spec, unless it is current. -/
def generateOneUnder (s : Suite) (d : Denials) (fs : FileSystem) (spec : SpecFile) :
    Outcome × FileSystem :=
  let output := spec.output s.outputRoot
  match d.readText fs spec.path with
  | .error e => (.failed (fileFault spec.path e), fs)
  | .ok content =>
    if !s.force && isCurrentUnder d fs output content s.config.options then (.unchanged output, fs)
    else match compileContent d fs spec.path content s.config.options with
      | .error why => (.failed why, fs)
      | .ok text => writeModule d fs output text

/-- Removes the module of one spec. -/
def cleanOneUnder (s : Suite) (d : Denials) (fs : FileSystem) (spec : SpecFile) :
    Outcome × FileSystem :=
  let output := spec.output s.outputRoot
  if !d.present fs output then (.absent output, fs)
  else match d.removeFile fs output with
    | .error e => (.failed (fileFault output e), fs)
    | .ok fs => (.removed output, fs)

/-- Compares the module of one spec with a fresh one. -/
def checkOneUnder (s : Suite) (d : Denials) (fs : FileSystem) (spec : SpecFile) : CheckReport :=
  let output := spec.output s.outputRoot
  { spec := spec.path
    output := output
    result := (compileFileUnder d fs spec.path s.config.options).map fun expected =>
      match d.readText fs output with
      | .error _ => .missing expected
      | .ok existing => if existing = expected then .current else .stale existing expected }

/-- Goes through specs one after the other, passing the file system on. The spec at position `k`
gets the step of number `k`. -/
def eachWith (steps : Nat → FileSystem → SpecFile → Outcome × FileSystem) (fs : FileSystem) :
    List SpecFile → List FileReport × FileSystem
  | [] => ([], fs)
  | spec :: rest =>
    let (outcome, fs) := steps 0 fs spec
    let (reports, fs) := eachWith (fun k => steps (k + 1)) fs rest
    (⟨spec.path, outcome⟩ :: reports, fs)

/-- Generates the modules of all specs under the given directories. What is denied may be another
thing at the turn of every spec. -/
def generateUnder (s : Suite) (d : Nat → Denials) (fs : FileSystem) (dirs : List Path) :
    Except Diagnostic (List FileReport × FileSystem) :=
  (s.specs fs dirs).map (eachWith (fun k => s.generateOneUnder (d k)) fs)

/-- Removes the modules of all specs under the given directories. -/
def cleanUnder (s : Suite) (d : Nat → Denials) (fs : FileSystem) (dirs : List Path) :
    Except Diagnostic (List FileReport × FileSystem) :=
  (s.specs fs dirs).map (eachWith (fun k => s.cleanOneUnder (d k)) fs)

/-- Compares the modules of all specs under the given directories with fresh ones. -/
def checkUnder (s : Suite) (d : Nat → Denials) (fs : FileSystem) (dirs : List Path) :
    Except Diagnostic (List CheckReport) :=
  (s.specs fs dirs).map (List.mapIdx fun k => s.checkOneUnder (d k) fs)

/-! ### Nothing denied -/

/-- Reads and compiles a spec file. -/
def compileFile (fs : FileSystem) (p : Path) (options : Options) : Except Diagnostic Text :=
  compileFileUnder .nothing fs p options

/-- Whether the module at a path carries the fingerprint of a spec. -/
def isCurrent (fs : FileSystem) (output : Path) (content : Text) (options : Options) : Bool :=
  isCurrentUnder .nothing fs output content options

/-- Generates the module of one spec, unless it is current. -/
def generateOne (s : Suite) (fs : FileSystem) (spec : SpecFile) : Outcome × FileSystem :=
  s.generateOneUnder .nothing fs spec

/-- Removes the module of one spec. -/
def cleanOne (s : Suite) (fs : FileSystem) (spec : SpecFile) : Outcome × FileSystem :=
  s.cleanOneUnder .nothing fs spec

/-- Compares the module of one spec with a fresh one. -/
def checkOne (s : Suite) (fs : FileSystem) (spec : SpecFile) : CheckReport :=
  s.checkOneUnder .nothing fs spec

/-- Goes through specs one after the other with the same step. -/
def each (step : FileSystem → SpecFile → Outcome × FileSystem) (fs : FileSystem)
    (specs : List SpecFile) : List FileReport × FileSystem :=
  eachWith (fun _ => step) fs specs

/-- Generates the modules of all specs under the given directories. -/
def generate (s : Suite) (fs : FileSystem) (dirs : List Path) :
    Except Diagnostic (List FileReport × FileSystem) :=
  s.generateUnder (fun _ => .nothing) fs dirs

/-- Removes the modules of all specs under the given directories. -/
def clean (s : Suite) (fs : FileSystem) (dirs : List Path) :
    Except Diagnostic (List FileReport × FileSystem) :=
  s.cleanUnder (fun _ => .nothing) fs dirs

/-- Compares the modules of all specs under the given directories with fresh ones. -/
def check (s : Suite) (fs : FileSystem) (dirs : List Path) : Except Diagnostic (List CheckReport) :=
  s.checkUnder (fun _ => .nothing) fs dirs

end Suite

/-- How many specs met which fate. -/
structure Summary where
  generated : Nat := 0
  unchanged : Nat := 0
  removed : Nat := 0
  failed : Nat := 0
  deriving DecidableEq, Repr

/-- Counts reports by outcome; absent modules are not counted. -/
def Summary.tally (reports : List FileReport) : Summary :=
  reports.foldl (fun s r => match r.outcome with
    | .generated _ => { s with generated := s.generated + 1 }
    | .unchanged _ => { s with unchanged := s.unchanged + 1 }
    | .removed _ => { s with removed := s.removed + 1 }
    | .absent _ => s
    | .failed _ => { s with failed := s.failed + 1 }) {}

end BlockSpec
