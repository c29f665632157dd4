import BlockSpec.Config.Basic
import BlockSpec.Config.Problem
import BlockSpec.Diagnostic
import BlockSpec.FileSystem.Basic
import BlockSpec.Yaml.Document
import BlockSpec.Yaml.Meaning

/-! # Reading settings

Settings come from a YAML file of scalars under six keys, all of which may be left out. A key may
stand once. A text setting takes any scalar as it is written; a switch takes the spellings of true
and false; the output directory and the choice of colours may also be null, which leaves them
open. -/

namespace BlockSpec

namespace Config

open Yaml (Scalar Node Meaning)

/-- A tag of the standard set. -/
def standardTag (name : String) : Yaml.Tag :=
  Text.utf8 ("tag:yaml.org,2002:".toList ++ name.toList)

/-- A problem at a place. -/
def Problem.at (problem : Problem) (place : Yaml.Place) : Failure :=
  ⟨problem, place.line, place.column⟩

/-- Why a scalar is not what was expected. A standard tag is taken at its word: if the text does not
fit the tag, that is the problem. -/
def wrongScalar (key : Option Text) (s : Scalar) (expected : String) : Problem :=
  let wrongType (m : Meaning) : Problem := .invalidType key (m.describe s.text) expected
  let wrongValue (wanted : String) : Problem :=
    .invalidValue key (Meaning.text.describe s.text) wanted
  let untagged : Problem := wrongType (if s.style = .plain then Yaml.meaning s.text else .text)
  match s.tag with
  | none => untagged
  | some tag =>
    if tag = standardTag "bool" then
      match Yaml.boolean? s.text with
      | some b => wrongType (.boolean b)
      | none => wrongValue "a boolean"
    else if tag = standardTag "int" then
      match Yaml.integer? s.text with
      | some n => wrongType (.integer n)
      | none => wrongValue "an integer"
    else if tag = standardTag "float" then
      match Yaml.real? s.text with
      | some r => wrongType (.real r)
      | none => wrongValue "a float"
    else if tag = standardTag "null" then
      if Yaml.isNull s.text then wrongType .null else wrongValue "null"
    else if tag.take 1 = Text.utf8 ['!'] then untagged
    else wrongType .text

/-- Why a node is not what was expected. -/
def wrongNode (key : Option Text) (n : Node) (expected : String) : Failure :=
  let problem := match n.item with
    | .scalar s => wrongScalar key s expected
    | .sequence => .invalidType key "sequence".toList expected
    | .mapping => .invalidType key "map".toList expected
  problem.at n.place

/-- A node as a text: any scalar, as written. -/
def textOf (key : Option Text) (n : Node) (expected : String) : Except Failure Text :=
  match n.item with
  | .scalar s => .ok s.text
  | _ => .error (wrongNode key n expected)

/-- A node as a switch: a plain spelling of true or false. -/
def switchOf (key : Option Text) (n : Node) : Except Failure Bool :=
  let wrong := Except.error (wrongNode key n "a boolean")
  match n.item with
  | .scalar s =>
    if s.style = .plain || (s.style = .literal && s.tag = some (standardTag "bool")) then
      match Yaml.boolean? s.text with
      | some b => .ok b
      | none => wrong
    else wrong
  | _ => wrong

/-- A node as something that may be left open: a plain null or empty scalar is nothing. A plain scalar
that is tagged as null but is not is a problem of the whole, so its key is not named. -/
def optional {α : Type} (root : Node) (n : Node) (read : Node → Except Failure α) :
    Except Failure (Option α) :=
  let given := (read n).map some
  match n.item with
  | .scalar s =>
    if s.style ≠ .plain then given
    else match s.tag with
      | none => if s.text.isEmpty || Yaml.isNull s.text then .ok none else given
      | some tag =>
        if tag = standardTag "null" then
          if Yaml.isNull s.text then .ok none
          else
            .error ((Problem.invalidValue none (Meaning.text.describe s.text) "null").at root.place)
        else given
  | _ => given

/-- The settings with the value of one key in the mapping that starts at `root`. -/
def set (c : Config) (root : Node) (field : Field) (key : Option Text) (n : Node) :
    Except Failure Config :=
  match field with
  | .extension => (textOf key n "a string").map fun t => { c with extension := t }
  | .outputDir =>
    (optional root n fun n => textOf key n "path string").map fun t => { c with outputDir := t }
  | .baseClass => (textOf key n "a string").map fun t => { c with baseClass := t }
  | .interpreter => (textOf key n "a string").map fun t => { c with interpreter := t }
  | .lineMarkers => (switchOf key n).map fun b => { c with lineMarkers := b }
  | .colors => (optional root n (switchOf key)).map fun b => { c with colors := b }

/-- What an ending means once everything before it has been read. -/
def ended (ending : Yaml.Ending) (c : Config) : Except Failure Config :=
  match ending with
  | .complete => .ok c
  | .malformed => .error { problem := .malformed }
  | .another => .error { problem := .moreDocuments }

/-- Reads keys and values in turn, given the keys that stood before and where the mapping starts. -/
def entries (ending : Yaml.Ending) (root : Node) (seen : List Field) (c : Config) :
    List Node → Except Failure Config
  | [] => ended ending c
  | key :: rest =>
    match key.item with
    | .scalar s =>
      match Field.ofKey? s.text with
      | none => .error ((Problem.unknownField s.text).at key.place)
      | some field =>
        if seen.contains field then .error ((Problem.duplicateField field).at root.place)
        else match rest with
          | [] => .error { problem := .malformed }
          | value :: rest =>
            match c.set root field (some (if key.aliased then ['?'] else s.text)) value with
            | .error f => .error f
            | .ok c => entries ending root (field :: seen) c rest
    | _ => .error (wrongNode none key "field identifier")

/-- The settings that a document holds. A document without content leaves everything open. -/
def ofDocument (d : Yaml.Document) : Except Failure Config :=
  match d.nodes with
  | [] => ended d.ending {}
  | root :: rest =>
    match root.item with
    | .mapping => entries d.ending root [] {} rest
    | .scalar s =>
      if s.text.isEmpty && s.style = .plain then ended d.ending {}
      else .error (wrongNode none root "struct Config")
    | .sequence => .error (wrongNode none root "struct Config")

/-- The diagnostic of a settings file that cannot be used. -/
def diagnostic (origin : Path) (message : Text) : Diagnostic :=
  { fault := .settings origin message }

/-- Reads settings from a text; `origin` names it in messages. -/
def ofText (t : Text) (origin : Path) : Except Diagnostic Config :=
  if Text.allBlank t then .ok {}
  else match ofDocument (Yaml.Document.read t) with
    | .ok c => .ok c
    | .error f => .error (diagnostic origin f.message)

/-- Reads settings from a file. -/
def load (fs : FileSystem) (p : Path) : Except Diagnostic Config :=
  match fs.readText p with
  | .ok t => ofText t p
  | .error e => .error (diagnostic p e.message.toList)

/-- The name of the settings file that is looked for. -/
def fileName : String := "carinata.yaml"

/-- The settings to use: those of the file that is asked for, else those of the file in the working
directory if there is one, else the default ones. -/
def discover (fs : FileSystem) (asked : Option Path) : Except Diagnostic Config :=
  match asked with
  | some p => load fs p
  | none => if fs.isFile fileName.toList then load fs fileName.toList else .ok {}

end Config

end BlockSpec
