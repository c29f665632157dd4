import BlockSpec.Diff
import BlockSpec.Suite.Batch

/-! # Reports

What a command prints: a status line for each spec, which is a tag in a column of ten and a message,
then a summary; and for a module that is out of date the lines that would change. With colours on,
the tag stands between escape sequences, and so do the changed lines. -/

namespace BlockSpec

/-- The colours of a report. -/
inductive Color where
  | red
  | green
  | yellow
  | cyan
  deriving DecidableEq, Repr

namespace Color

/-- The number of a colour in an escape sequence. -/
def digit : Color → Char
  | red => '1'
  | green => '2'
  | yellow => '3'
  | cyan => '6'

end Color

namespace Report

/-- An escape sequence with the given code. -/
def sequence (code : Text) : Text := '\x1b' :: '[' :: code ++ ['m']

/-- What ends a colour. -/
def reset (colors : Bool) : Text := if colors then sequence ['0'] else []

/-- What starts a colour. -/
def start (colors bold : Bool) (c : Color) : Text :=
  if colors then sequence ['0'] ++ (if bold then sequence ['1'] else []) ++ sequence ['3', c.digit]
  else []

/-- A text pushed to the right end of a column. -/
def rightAligned (width : Nat) (t : Text) : Text := Text.spaces (width - t.length) ++ t

/-- A status line. -/
def status (colors : Bool) (c : Color) (tag : String) (message : Text) : Text :=
  start colors true c ++ rightAligned 10 tag.toList ++ reset colors ++ ' ' :: message ++ ['\n']

/-- A spec and its module. -/
def arrow (spec output : Path) : Text := spec ++ " -> ".toList ++ output

/-- The status line of a spec. A module that was not there is passed over. -/
def line (colors : Bool) (r : FileReport) : Text :=
  match r.outcome with
  | .generated p => status colors .green "generated" (arrow r.spec p)
  | .unchanged p => status colors .cyan "unchanged" (arrow r.spec p)
  | .removed p => status colors .yellow "removed" p
  | .absent _ => []
  | .failed _ => status colors .red "failed" r.spec

/-- The last line: how many specs met which fate. -/
def total (colors : Bool) (s : Summary) : Text :=
  let count (n : Nat) (what : String) : Text := Text.ofNat n ++ ' ' :: what.toList
  status colors (if s.failed = 0 then .green else .red) "done"
    (Text.joinWith ", ".toList [count s.generated "generated", count s.unchanged "unchanged",
      count s.removed "removed", count s.failed "failed"])

/-- The status lines of a batch and their summary. -/
def batch (colors : Bool) (reports : List FileReport) : Text :=
  reports.flatMap (line colors) ++ total colors (.tally reports)

/-- The diagnostics of the specs that failed. -/
def diagnostics (reports : List FileReport) : List Diagnostic :=
  reports.filterMap fun r => match r.outcome with
    | .failed d => some d
    | _ => none

/-- Changed lines, each after a mark. They pass through one text, so a single empty line is none. -/
def marked (mark : Char) (rows : List Text) : Text :=
  Text.ofLines ((Text.lines (Text.joinWith ['\n'] rows)).map (mark :: ·))

/-- A run of lines in a difference. Lines that stay are left out. -/
def chunk (colors : Bool) : Diff.Chunk → Text
  | .same _ => []
  | .added rows => start colors false .green ++ marked '+' rows
  | .removed rows => start colors false .red ++ marked '-' rows

/-- The difference between an existing text and the expected one. -/
def difference (colors : Bool) (existing expected : Text) : Text :=
  (diff existing expected).flatMap (chunk colors) ++ reset colors

/-- What a check says about one spec. -/
def checkLine (colors : Bool) (r : CheckReport) : Text :=
  match r.result with
  | .ok .current => status colors .green "current" r.output
  | .ok (.missing _) => status colors .yellow "missing" r.output
  | .ok (.stale existing expected) =>
    status colors .yellow "stale" r.output ++ difference colors existing expected
  | .error _ => status colors .red "failed" r.spec

/-- Whether a module is current. -/
def isCurrent (r : CheckReport) : Bool :=
  match r.result with
  | .ok .current => true
  | _ => false

/-- The diagnostics of the specs that could not be compiled. -/
def checkDiagnostics (reports : List CheckReport) : List Diagnostic :=
  reports.filterMap fun r => match r.result with
    | .error d => some d
    | .ok _ => none

end Report

end BlockSpec
