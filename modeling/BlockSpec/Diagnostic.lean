import BlockSpec.Fault

/-! # Diagnostics

A diagnostic is a fault with the place in a spec that it concerns: the name of the source, the
stretch of bytes to underline, and the phase that found it. Faults of files and settings concern no
spec text. -/

namespace BlockSpec

/-- A stretch of a text, in bytes of its UTF-8 form. -/
structure Span where
  offset : Nat
  length : Nat
  deriving DecidableEq, Repr

/-- A spec text and the name that messages give it. -/
structure Source where
  name : Text
  content : Text
  deriving DecidableEq, Repr

/-- The name of a text that came from no file. -/
def Source.unnamed : String := "<spec>"

/-- The stretch of a text that its `n`-th line takes, without the carriage returns that end it. A
number that is no line's gives the empty stretch at the start. -/
def lineSpan (content : Text) : Nat → Span
  | 0 => ⟨0, 0⟩
  | n + 1 =>
    let rows := Text.pieces '\n' content
    match rows[n]? with
    | none => ⟨0, 0⟩
    | some row =>
      ⟨Text.byteSize (Text.ofLines (rows.take n)), Text.byteSize (Text.dropTrailing '\r' row)⟩

/-- Where in a spec a fault was found, and by which phase. -/
structure Place where
  source : Text
  span : Span
  phase : Text
  deriving DecidableEq, Repr

/-- A fault and, when it concerns a spec text, its place there. -/
structure Diagnostic where
  fault : Fault
  place : Option Place := none
  deriving DecidableEq, Repr

namespace Diagnostic

/-- The phase part of the error code. -/
def phase (d : Diagnostic) : Text :=
  match d.place with
  | some place => place.phase
  | none => d.fault.codeName.toList

/-- The error code. -/
def code (d : Diagnostic) : Text :=
  "carinata::".toList ++ d.phase ++ "::".toList ++ d.fault.codeName.toList

end Diagnostic

/-- The diagnostic of a fault that a phase found in a source. -/
def Source.diagnose (s : Source) (phase : Text) (fault : Fault) : Diagnostic :=
  { fault := fault
    place := some ⟨s.name, lineSpan s.content (fault.line?.getD 0), phase⟩ }

end BlockSpec
