import ShutdownLint.Files.Path
/-!
The arguments of the command line.

Options for every command may stand in front of the name of the command or behind it, and count
where they stand closest to the end. An option that takes a value has it behind an equals sign or as
the next argument, which must not look like an option. A double dash makes operands of all that
follows it. An option that cannot be repeated is refused when it is given twice in one place.
-/

set_option autoImplicit false

namespace ShutdownLint.CommandLine

/-! ### Arguments -/

inductive Argument where
  /-- Two dashes. -/
  | terminator
  | long (name : String) (value : Option String)
  /-- Letters behind a dash. -/
  | short (letters : List Char)
  | plain (s : String)
  deriving DecidableEq, Inhabited, Repr

namespace Argument

/-- An option and its value are separated by the first equals sign. -/
def ofLong (cs : List Char) : Argument :=
  let name := String.ofList (cs.takeWhile (· != '='))
  match cs.dropWhile (· != '=') with
  | [] => long name none
  | _ :: value => long name (some (String.ofList value))

def ofText (s : String) : Argument :=
  match s.toList with
  | ['-', '-'] => terminator
  | '-' :: '-' :: cs => ofLong cs
  | ['-'] => plain s
  | '-' :: cs => short cs
  | _ => plain s

def isPlain : Argument → Bool
  | plain _ => true
  | _ => false

end Argument

/-! ### Options -/

/-- An option without a value. -/
inductive Switch where
  | verbose
  | quiet
  | help
  | version
  deriving DecidableEq, Inhabited, Repr

/-- An option with a value. -/
inductive Setting where
  | config
  | format
  | reportOut
  | disable
  deriving DecidableEq, Inhabited, Repr

/-- Where options stand: in front of the name of the command, or behind it. -/
inductive Level where
  | top
  | check
  | explain
  deriving DecidableEq, Inhabited, Repr

namespace Level

def longSwitch? (level : Level) : String → Option Switch
  | "verbose" => some .verbose
  | "quiet" => some .quiet
  | "help" => some .help
  | "version" => if level = .top then some .version else none
  | _ => none

def shortSwitch? (level : Level) : Char → Option Switch
  | 'v' => some .verbose
  | 'q' => some .quiet
  | 'h' => some .help
  | 'V' => if level = .top then some .version else none
  | _ => none

def setting? (level : Level) : String → Option Setting
  | "config" => some .config
  | "format" => if level = .check then some .format else none
  | "report-out" => if level = .check then some .reportOut else none
  | "disable" => if level = .check then some .disable else none
  | _ => none

end Level

/-- Why there is no command to run. -/
inductive Stop where
  | usage
  | help
  | version
  deriving DecidableEq, Inhabited, Repr

/-- What has been given at one level. -/
structure Given where
  config : Option String
  format : Option String
  reportOut : Option String
  disable : List String
  /-- How many times more notes were asked for. -/
  verbosity : Nat
  quiet : Bool
  operands : List String
  deriving DecidableEq, Inhabited, Repr

namespace Given

def nothing : Given :=
  ⟨none, none, none, [], 0, false, []⟩

def addSwitch (g : Given) : Switch → Except Stop Given
  | .verbose => .ok { g with verbosity := g.verbosity + 1 }
  | .quiet => if g.quiet then .error .usage else .ok { g with quiet := true }
  | .help => .error .help
  | .version => .error .version

def addSetting (g : Given) (value : String) : Setting → Except Stop Given
  | .config => if g.config.isSome then .error .usage else .ok { g with config := some value }
  | .format => if g.format.isSome then .error .usage else .ok { g with format := some value }
  | .reportOut =>
    if g.reportOut.isSome then .error .usage else .ok { g with reportOut := some value }
  | .disable => .ok { g with disable := g.disable ++ [value] }

def addLetter (level : Level) (g : Given) (c : Char) : Except Stop Given :=
  match level.shortSwitch? c with
  | some s => g.addSwitch s
  | none => .error .usage

/-- There is one rule to explain, and no operand belongs to no command. -/
def addOperand (level : Level) (g : Given) (operand : String) : Except Stop Given :=
  match level, g.operands with
  | .top, _ => .error .usage
  | .explain, _ :: _ => .error .usage
  | _, _ => .ok { g with operands := g.operands ++ [operand] }

/-- Reads the arguments of a level. The first one at the top that is no option is left, together
with all behind it. -/
def read (level : Level) (g : Given) : List String → Except Stop (Given × List String)
  | [] => .ok (g, [])
  | arg :: rest =>
    match Argument.ofText arg with
    | .terminator => (rest.foldlM (addOperand level) g).map (·, [])
    | .short letters => do
      let g ← letters.foldlM (addLetter level) g
      read level g rest
    | .plain s =>
      if level = .top then .ok (g, arg :: rest)
      else do
        let g ← g.addOperand level s
        read level g rest
    | .long name (some value) =>
      match level.setting? name with
      | some setting => do
        let g ← g.addSetting value setting
        read level g rest
      | none => .error .usage
    | .long name none =>
      match level.setting? name, level.longSwitch? name with
      | some setting, _ =>
        match rest with
        | [] => .error .usage
        | value :: rest =>
          if (Argument.ofText value).isPlain then do
            let g ← g.addSetting value setting
            read level g rest
          else .error .usage
      | none, some switch => do
        let g ← g.addSwitch switch
        read level g rest
      | none, none => .error .usage

/-- All that has been given at the top and behind the name of the command. -/
def combine (top behind : Given) : Given :=
  { behind with
    config := behind.config.or top.config
    verbosity := if behind.verbosity = 0 then top.verbosity else behind.verbosity
    quiet := behind.quiet || top.quiet }

end Given

/-! ### Commands -/

/-- A check with all that can be said about it. -/
structure CheckCommand where
  /-- The settings file. -/
  config : Path
  format : String
  /-- Where the report goes, if this has been said. -/
  reportOut : Option Path
  disable : List String
  paths : List Path
  deriving DecidableEq, Inhabited, Repr

namespace CheckCommand

/-- The settings file if nothing else is said. -/
def defaultConfig : String := "drainguard.toml"

/-- The format if nothing else is said. -/
def defaultFormat : String := "text"

def ofGiven (g : Given) : CheckCommand where
  config := .ofText (g.config.getD defaultConfig)
  format := g.format.getD defaultFormat
  reportOut := g.reportOut.map Path.ofText
  disable := g.disable
  paths := g.operands.map Path.ofText

end CheckCommand

inductive Command where
  | check (c : CheckCommand)
  | explain (rule : String)
  deriving DecidableEq, Inhabited, Repr

structure Invocation where
  verbosity : Nat
  quiet : Bool
  command : Command
  deriving DecidableEq, Inhabited, Repr

namespace Invocation

/-- The names of the commands, one of which explains the others. -/
def commandNames : List String :=
  ["check", "explain", "help"]

def ofArguments (args : List String) : Except Stop Invocation := do
  let (top, rest) ← Given.nothing.read .top args
  match rest with
  | "check" :: args =>
    let (behind, _) ← Given.nothing.read .check args
    let g := top.combine behind
    return ⟨g.verbosity, g.quiet, .check (.ofGiven g)⟩
  | "explain" :: args =>
    let (behind, _) ← Given.nothing.read .explain args
    let g := top.combine behind
    match g.operands with
    | [rule] => return ⟨g.verbosity, g.quiet, .explain rule⟩
    | _ => .error .usage
  | ["help"] => .error .help
  | ["help", name] => .error (if commandNames.contains name then .help else .usage)
  | _ => .error .usage

end Invocation

end ShutdownLint.CommandLine
