import BlockSpec.Path

/-! # Command lines

A command line has two levels: the options in front of the command, and then the command with its
own options and operands. The words of a level are first cut into tokens, one word after the other,
and the tokens are then taken in turn. A value that stands in a word of its own is held until the
next token comes or the whole line has been read; only then is it looked at. -/

namespace BlockSpec

/-- The options that a command line can hold. -/
inductive Flag where
  | config
  | verbose
  | quiet
  | help
  | version
  | outputDir
  | baseClass
  | lineMarkers
  | force
  | json
  deriving DecidableEq, Repr

namespace Flag

/-- The name after two dashes. -/
def long : Flag → String
  | config => "config"
  | verbose => "verbose"
  | quiet => "quiet"
  | help => "help"
  | version => "version"
  | outputDir => "output-dir"
  | baseClass => "base-class"
  | lineMarkers => "line-markers"
  | force => "force"
  | json => "json"

/-- The letter after one dash. -/
def letter? : Flag → Option Char
  | verbose => some 'v'
  | quiet => some 'q'
  | help => some 'h'
  | version => some 'V'
  | outputDir => some 'o'
  | force => some 'f'
  | _ => none

/-- Whether a value follows. -/
def takesValue : Flag → Bool
  | config | outputDir | baseClass => true
  | _ => false

/-- Whether the value may be empty. A path is never empty. -/
def takesEmpty (f : Flag) : Bool := f = baseClass

/-- Whether the option may stand more than once at one level. -/
def repeats (f : Flag) : Bool := f = verbose

/-- The options that every level has. -/
def everywhere : List Flag := [config, verbose, quiet, help]

/-- The options in front of the command. -/
def inFront : List Flag := version :: everywhere

end Flag

/-- The commands by name. -/
inductive Verb where
  | generate
  | run
  | clean
  | check
  | tree
  deriving DecidableEq, Repr

namespace Verb

/-- The word for a command. -/
def name : Verb → String
  | generate => "generate"
  | run => "run"
  | clean => "clean"
  | check => "check"
  | tree => "tree"

/-- All commands. -/
def all : List Verb := [generate, run, clean, check, tree]

/-- The command that a word stands for. -/
def ofName? (t : Text) : Option Verb := all.find? fun v => v.name.toList == t

/-- The options of every command that works on a suite. -/
def suiteFlags : List Flag := [.outputDir, .baseClass, .lineMarkers] ++ Flag.everywhere

/-- The options of a command. -/
def flags : Verb → List Flag
  | generate | run => .force :: suiteFlags
  | clean | check => suiteFlags
  | tree => .json :: Flag.everywhere

/-- Whether a command takes one more operand. -/
def hasRoom (v : Verb) (taken : Nat) : Bool := v ≠ tree || taken = 0

end Verb

/-! ### Tokens -/

/-- What the words of a level say. -/
inductive Token where
  /-- An option without a value. -/
  | switch (f : Flag)
  /-- An option and its value in one word. -/
  | attached (f : Flag) (value : Text)
  /-- An option and its value in the word after it. -/
  | separate (f : Flag) (value : Text)
  | operand (t : Text)
  /-- Something that cannot stand here. -/
  | wrong
  deriving DecidableEq, Repr

namespace Token

/-- Whether a word is no operand: it starts with a dash and goes on. -/
def isOption : Text → Bool
  | '-' :: _ :: _ => true
  | _ => false

/-- The letters after one dash: the tokens, and the option that waits for a value. -/
def ofLetters (flags : List Flag) : Text → List Token × Option Flag
  | [] => ([], none)
  | c :: rest =>
    match flags.find? fun f => f.letter? == some c with
    | none => ([wrong], none)
    | some f =>
      if f.takesValue then
        match rest with
        | [] => ([], some f)
        | '=' :: value => ([attached f value], none)
        | value => ([attached f value], none)
      else
        let (tokens, waiting) := ofLetters flags rest
        (switch f :: tokens, waiting)

/-- The name after two dashes, and what follows an equals sign. -/
def ofName (flags : List Flag) (t : Text) : List Token × Option Flag :=
  let named (n : Text) : Option Flag := flags.find? fun f => f.long.toList == n
  match t.span (· ≠ '=') with
  | (n, []) =>
    match named n with
    | none => ([wrong], none)
    | some f => if f.takesValue then ([], some f) else ([switch f], none)
  | (n, _ :: value) =>
    match named n with
    | none => ([wrong], none)
    | some f => if f.takesValue then ([attached f value], none) else ([wrong], none)

/-- The tokens of a level, and the words from the first one that belongs to the next level. After
two dashes alone everything is an operand. In front of the command there are no operands: there the
first word that is no option ends the level. -/
def read (flags : List Flag) (operands : Bool) : List Text → List Token × List Text
  | [] => ([], [])
  | word :: rest =>
    if word = ['-', '-'] then
      if operands then (rest.map operand, []) else ([wrong], [])
    else if isOption word then
      let (tokens, waiting) := match word with
        | '-' :: '-' :: t => ofName flags t
        | _ => ofLetters flags word.tail
      match waiting, rest with
      | none, rest =>
        let (more, left) := read flags operands rest
        (tokens ++ more, left)
      | some _, [] => (tokens ++ [wrong], [])
      | some f, value :: rest =>
        if isOption value then (tokens ++ [wrong], [])
        else
          let (more, left) := read flags operands rest
          (tokens ++ separate f value :: more, left)
    else if operands then
      let (more, left) := read flags operands rest
      (operand word :: more, left)
    else ([], word :: rest)

end Token

/-! ### Levels -/

/-- Why a command line is not carried out. -/
inductive Refusal where
  | help
  | version
  | usage
  deriving DecidableEq, Repr

/-- What has been taken at one level: options with their values, a value that is still held, and
operands. -/
structure Level where
  given : List (Flag × Text) := []
  held : Option (Flag × Text) := none
  operands : List Text := []
  deriving DecidableEq, Repr

namespace Level

/-- Whether an option has been given. -/
def has (l : Level) (f : Flag) : Bool := l.given.any (·.1 = f)

/-- The value of an option. -/
def value? (l : Level) (f : Flag) : Option Text := l.given.lookup f

/-- Takes an option. It is refused if it stands there already or lacks its value. -/
def add (l : Level) (f : Flag) (value : Text) : Except Refusal Level :=
  if l.has f && !f.repeats then .error .usage
  else if f.takesValue && value.isEmpty && !f.takesEmpty then .error .usage
  else .ok { l with given := l.given ++ [(f, value)] }

/-- Takes the value that is held. -/
def settle (l : Level) : Except Refusal Level :=
  match l.held with
  | none => .ok l
  | some (f, value) => add { l with held := none } f value

/-- Takes one token. -/
def step (hasRoom : Nat → Bool) (l : Level) (t : Token) : Except Refusal Level := do
  let l ← l.settle
  match t with
  | .switch .help => .error .help
  | .switch .version => .error .version
  | .switch f => l.add f []
  | .attached f value => l.add f value
  | .separate f value => .ok { l with held := some (f, value) }
  | .operand t =>
    if t.isEmpty || !hasRoom l.operands.length then .error .usage
    else .ok { l with operands := l.operands ++ [t] }
  | .wrong => .error .usage

/-- Ends a level. More output and less output cannot both be asked for at one level. -/
def close (l : Level) : Except Refusal Level := do
  let l ← l.settle
  if l.has .quiet && l.has .verbose then .error .usage else .ok l

end Level

/-! ### Invocations -/

/-- Which suite a command works on, and the settings that it overrides. -/
structure SuiteArguments where
  directories : List Path
  outputDir : Option Path
  baseClass : Option Text
  lineMarkers : Bool
  deriving DecidableEq, Repr

namespace SuiteArguments

/-- The directory that is worked on if none is given. -/
def defaultDirectory : String := "carinata"

/-- The arguments that a level holds. -/
def ofLevel (l : Level) : SuiteArguments :=
  { directories := if l.operands.isEmpty then [defaultDirectory.toList] else l.operands
    outputDir := l.value? .outputDir
    baseClass := l.value? .baseClass
    lineMarkers := l.has .lineMarkers }

end SuiteArguments

/-- What can be asked for. -/
inductive Command where
  | generate (suite : SuiteArguments) (force : Bool)
  | run (suite : SuiteArguments) (force : Bool)
  | clean (suite : SuiteArguments)
  | check (suite : SuiteArguments)
  | tree (file : Path) (json : Bool)
  deriving DecidableEq, Repr

/-- The command that its own level describes. A tree needs a file. -/
def Command.ofLevel (v : Verb) (l : Level) : Except Refusal Command :=
  match v with
  | .generate => .ok (.generate (.ofLevel l) (l.has .force))
  | .run => .ok (.run (.ofLevel l) (l.has .force))
  | .clean => .ok (.clean (.ofLevel l))
  | .check => .ok (.check (.ofLevel l))
  | .tree =>
    match l.operands with
    | [] => .error .usage
    | file :: _ => .ok (.tree file (l.has .json))

/-- A command line that can be carried out: the settings file asked for, and the command. -/
structure Invocation where
  config : Option Path
  command : Command
  deriving DecidableEq, Repr

namespace Invocation

/-- The word that asks for help on a command. -/
def helpWord : String := "help"

/-- The answer to a request for help with the words after it: they name at most one command. -/
def helpOn : List Text → Refusal
  | [] => .help
  | [t] => if (Verb.ofName? t).isSome || t = helpWord.toList then .help else .usage
  | _ => .usage

/-- Reads a command line. Of two settings files the one after the command counts. -/
def read (words : List Text) : Except Refusal Invocation := do
  let (tokens, rest) := Token.read Flag.inFront false words
  let front ← tokens.foldlM (Level.step fun _ => false) {}
  match rest with
  | [] => .error .usage
  | word :: rest =>
    match Verb.ofName? word with
    | none => .error (if word = helpWord.toList then helpOn rest else .usage)
    | some v =>
      let own ← ((Token.read v.flags true rest).1.foldlM (Level.step v.hasRoom) {}) >>= Level.close
      let command ← Command.ofLevel v own
      let front ← front.close
      .ok { config := own.value? .config <|> front.value? .config, command }

end Invocation

end BlockSpec
