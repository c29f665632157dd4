import BlockSpec.Kind
import BlockSpec.Text.Quoted

/-! # Faults

What can go wrong, as causes. The wording of each, the help that goes with it and its place in the
error codes are functions of the cause. -/

namespace BlockSpec

/-- The causes of failure. -/
inductive Fault where
  /-- A block stands where its kind is not accepted. -/
  | nesting (parent child : Kind) (line indent : Nat)
  /-- A binding's label gives no name for an attribute. -/
  | label (label : Text) (line : Nat)
  /-- A block that is no set-up was used as one. -/
  | setUp (found : Kind) (line : Nat)
  /-- A file operation failed. -/
  | file (path message : Text)
  /-- The settings could not be read. -/
  | settings (path message : Text)
  deriving DecidableEq, Repr

namespace Fault

/-- The area that a fault belongs to. -/
inductive Category where
  | parse
  | codegen
  | file
  | settings
  deriving DecidableEq, Repr

/-- The name of an area in messages. -/
def Category.name : Category → String
  | parse => "Parse"
  | codegen => "Codegen"
  | file => "IO"
  | settings => "Config"

/-- The area of a fault. -/
def category : Fault → Category
  | nesting .. | label .. => .parse
  | setUp .. => .codegen
  | file .. => .file
  | settings .. => .settings

/-- The last part of a fault's code. -/
def codeName : Fault → String
  | nesting .. => "invalid_nesting"
  | label .. => "invalid_label"
  | setUp .. => "invalid_setup"
  | file .. => "io"
  | settings .. => "config"

/-- The spec line that a fault points at. -/
def line? : Fault → Option Nat
  | nesting _ _ line _ | label _ line | setUp _ line => some line
  | file .. | settings .. => none

/-- What is written beside the line that a fault points at. -/
def note : Fault → String
  | nesting .. => "block cannot be nested here"
  | label .. => "unusable name"
  | setUp .. => "not a setup block"
  | file .. => "i/o failure"
  | settings .. => "bad configuration"

/-- A keyword between backquotes. -/
def ticked (kind : Kind) : Text := ("`" ++ kind.keyword ++ "`").toList

/-- What happened, in words. -/
def description : Fault → Text
  | nesting parent child line indent =>
    "cannot nest ".toList ++ ticked child ++ " inside ".toList ++ ticked parent ++
      " (line ".toList ++ Text.ofNat line ++ ", indent ".toList ++ Text.ofNat indent ++ ")".toList
  | label text line =>
    "`let` on line ".toList ++ Text.ofNat line ++
      " needs a name usable as an attribute, found ".toList ++ Text.quoted text
  | setUp found line =>
    "setup blocks must be `before` or `let`, found ".toList ++ ticked found ++
      " (line ".toList ++ Text.ofNat line ++ ")".toList
  | file path message => path ++ ": ".toList ++ message
  | settings path message =>
    "invalid configuration in ".toList ++ path ++ ": ".toList ++ message

/-- The whole message: the area and what happened. -/
def message (f : Fault) : Text := f.category.name.toList ++ " error: ".toList ++ f.description

/-- Which kinds a block accepts, as advice. -/
def nestingHelp (parent : Kind) : Text :=
  if parent.children.isEmpty then
    ticked parent ++ " holds code only; dedent the block to close it first".toList
  else
    ticked parent ++ " accepts only ".toList ++
      Text.joinWith ", ".toList (parent.children.map ticked)

/-- The advice that goes with a fault. -/
def help? : Fault → Option Text
  | nesting parent .. => some (nestingHelp parent)
  | label .. =>
    some "name the binding with a non-keyword identifier, e.g. `let \"client\": Client()`".toList
  | setUp .. => some "This is an internal carinata error. Please report this as a bug.".toList
  | file .. => none
  | settings .. =>
    some ("accepted keys: extension, output_dir, base_class, interpreter, line_markers, " ++
      "colors").toList

end Fault

end BlockSpec
