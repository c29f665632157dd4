import BlockSpec.CommandLine.Arguments
import BlockSpec.CommandLine.Report
import BlockSpec.Config.Reader
import BlockSpec.Suite.Interpreter
import BlockSpec.Tree.Json
import BlockSpec.Tree.Outline

/-! # Responses

A command line is answered by what it prints, the diagnostics it raises, and an exit code: zero if
all went well, one if something failed, two if the line makes no sense. Settings come first from the
settings file and then from the options of the command. -/

namespace BlockSpec

/-- The answer to a command line. -/
structure Response where
  output : Text := []
  diagnostics : List Diagnostic := []
  exitCode : Nat := 0
  deriving DecidableEq, Repr

namespace Response

/-- The exit code of a command that came to its end. -/
def codeOf (success : Bool) : Nat := if success then 0 else 1

/-- The answer if a command had to be given up. -/
def failure (d : Diagnostic) : Response := { diagnostics := [d], exitCode := 1 }

/-- The name and number of this version. -/
def versionLine : String := "carinata 0.1.0\n"

/-- The answer to a line that is not carried out. -/
def ofRefusal : Refusal → Response
  | .help => {}
  | .version => { output := versionLine.toList }
  | .usage => { exitCode := 2 }

end Response

/-- The settings of a suite after those of the command line. -/
def SuiteArguments.override (a : SuiteArguments) (c : Config) : Config :=
  { c with
    outputDir := a.outputDir <|> c.outputDir
    baseClass := a.baseClass.getD c.baseClass
    lineMarkers := a.lineMarkers || c.lineMarkers }

/-- Whether output is coloured. It never goes to a terminal, so it is only if that is asked for. -/
def Config.useColors (c : Config) : Bool := c.colors.getD false

/-- How an interpreter is started on a module. -/
abbrev Launch := FileSystem → Text → Path → Except FileError Execution

/-- Starts the interpreter on one module after the other: what they wrote, and whether all of them
succeeded. If it cannot be started, that ends it. -/
def runModules (start : Path → Except FileError Execution) :
    List Path → Text × Except FileError Bool
  | [] => ([], .ok true)
  | m :: rest =>
    match start m with
    | .error e => ([], .error e)
    | .ok x =>
      let (output, result) := runModules start rest
      (x.output ++ output, result.map (x.success && ·))

namespace Response

/-- The answer to a batch of specs. -/
def ofBatch (colors : Bool) (reports : List FileReport) : Response :=
  { output := Report.batch colors reports
    diagnostics := Report.diagnostics reports
    exitCode := codeOf (!reports.any (·.isFailure)) }

/-- The answer to a batch whose modules are then run. -/
def ofRun (start : Path → Except FileError Execution) (interpreter : Text) (colors : Bool)
    (reports : List FileReport) : Response :=
  let r := ofBatch colors reports
  match runModules start (reports.filterMap (·.output?)) with
  | (output, .ok passed) =>
    { r with output := r.output ++ output, exitCode := if passed then r.exitCode else 1 }
  | (output, .error e) =>
    { output := r.output ++ output
      diagnostics := r.diagnostics ++ [fileFault interpreter e]
      exitCode := 1 }

/-- The answer to a check. -/
def ofCheck (colors : Bool) (reports : List CheckReport) : Response :=
  { output := reports.flatMap (Report.checkLine colors)
    diagnostics := Report.checkDiagnostics reports
    exitCode := codeOf (reports.all Report.isCurrent) }

/-- A tree as it is printed. -/
def treeText (json : Bool) (t : Tree) : Text :=
  if json then t.json.pretty 0 ++ ['\n'] else t.outline

/-- The answer to a request for the tree of a file. Suffixes are those of its module. -/
def ofTree (fs : FileSystem) (c : Config) (file : Path) (json : Bool) : Response :=
  match fs.readText file with
  | .error e => failure (fileFault file e)
  | .ok content =>
    match parse content (fingerprint content c.options) with
    | .error fault => failure (Source.diagnose ⟨file, content⟩ "parse".toList fault)
    | .ok t => { output := treeText json t }

/-- The answer to a batch or the diagnostic that stopped it, with the file system afterwards. -/
def afterBatch (fs : FileSystem) (respond : FileSystem → List FileReport → Response)
    (result : Except Diagnostic (List FileReport × FileSystem)) : Response × FileSystem :=
  match result with
  | .error d => (failure d, fs)
  | .ok (reports, fs) => (respond fs reports, fs)

end Response

namespace Command

/-- The paths that a command reads or writes below. -/
def paths (temporary : Path) (c : Config) : Command → List Path
  | .generate a _ => (a.override c).outputRoot temporary :: a.directories
  | .run a _ => (a.override c).outputRoot temporary :: a.directories
  | .clean a => (a.override c).outputRoot temporary :: a.directories
  | .check a => (a.override c).outputRoot temporary :: a.directories
  | .tree file _ => [file]

/-- Carries out a command under the settings of the settings file. -/
def perform (launch : Launch) (temporary : Path) (fs : FileSystem) (c : Config) :
    Command → Response × FileSystem
  | .generate a force =>
    let c := a.override c
    let suite : Suite := { config := c, force, temporary }
    Response.afterBatch fs (fun _ => Response.ofBatch c.useColors) (suite.generate fs a.directories)
  | .run a force =>
    let c := a.override c
    let suite : Suite := { config := c, force, temporary }
    Response.afterBatch fs
      (fun fs => Response.ofRun (launch fs c.interpreter) c.interpreter c.useColors)
      (suite.generate fs a.directories)
  | .clean a =>
    let c := a.override c
    let suite : Suite := { config := c, temporary }
    Response.afterBatch fs (fun _ => Response.ofBatch c.useColors) (suite.clean fs a.directories)
  | .check a =>
    let c := a.override c
    let suite : Suite := { config := c, temporary }
    match suite.check fs a.directories with
    | .error d => (Response.failure d, fs)
    | .ok reports => (Response.ofCheck c.useColors reports, fs)
  | .tree file json => (Response.ofTree fs c file json, fs)

end Command

/-- Answers a command line. -/
def respond (launch : Launch) (temporary : Path) (fs : FileSystem) (words : List Text) :
    Response × FileSystem :=
  match Invocation.read words with
  | .error r => (Response.ofRefusal r, fs)
  | .ok i =>
    match Config.discover fs i.config with
    | .error d => (Response.failure d, fs)
    | .ok c => i.command.perform launch temporary fs c

end BlockSpec
