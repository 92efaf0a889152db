import LogTemplate.Path

namespace LogTemplate.Console

inductive Flag where
  | config
  | verbose
  | version
  | help
  | line
  | json
  | dryRun
  | diff
  deriving DecidableEq, Repr

namespace Flag

def long : Flag → Text
  | .config => "config".toList
  | .verbose => "verbose".toList
  | .version => "version".toList
  | .help => "help".toList
  | .line => "line".toList
  | .json => "json".toList
  | .dryRun => "dry-run".toList
  | .diff => "diff".toList

def short? : Flag → Option Char
  | .config => some 'c'
  | .verbose => some 'v'
  | .version => some 'V'
  | .help => some 'h'
  | .line => some 'l'
  | .json => none
  | .dryRun => some 'n'
  | .diff => some 'd'

/-- The option is followed by a value. -/
def takesValue : Flag → Bool
  | .config | .line => true
  | _ => false

end Flag

inductive Token where
  | flag (flag : Flag)
  | value (flag : Flag) (value : Text)
  | plain (argument : Text)
  /-- Something that cannot be read. -/
  | bad
  deriving DecidableEq, Repr

/-- The options of letters after one dash, and the last one of them if its value is still to
come. -/
def cluster (flags : List Flag) : Text → List Token × Option Flag
  | [] => ([], none)
  | c :: cs =>
      match flags.find? (·.short? = some c) with
      | none => ([.bad], none)
      | some flag =>
          if flag.takesValue then
            match cs with
            | [] => ([], some flag)
            | '=' :: value => ([.value flag value], none)
            | value => ([.value flag value], none)
          else
            let (tokens, pending) := cluster flags cs
            (.flag flag :: tokens, pending)

/-- An argument that starts an option, so that it is no value. -/
def startsOption (argument : Text) : Bool :=
  argument.head? = some '-' && argument ≠ ['-']

/-- An option after two dashes, or the option whose value is still to come. -/
def longOption (flags : List Flag) (argument : Text) : List Token × Option Flag :=
  let (name, value) := argument.span (· ≠ '=')
  match flags.find? (·.long = name) with
  | none => ([.bad], none)
  | some flag =>
      match flag.takesValue, value with
      | true, [] => ([], some flag)
      | true, _ :: value => ([.value flag value], none)
      | false, [] => ([.flag flag], none)
      | false, _ => ([.bad], none)

/-- The tokens of one argument, and the option whose value is the next one. -/
def tokensOf (flags : List Flag) : Text → List Token × Option Flag
  | '-' :: '-' :: cs => longOption flags cs
  | '-' :: c :: cs => cluster flags (c :: cs)
  | argument => ([.plain argument], none)

/-- The tokens of arguments that may all be plain, and the arguments from the first plain one on
where `stops` is set. -/
def tokenize (flags : List Flag) (stops : Bool) : List Text → List Token × List Text
  | [] => ([], [])
  | argument :: rest =>
      if argument = ['-', '-'] then
        (if stops then [.bad] else rest.map .plain, [])
      else if stops && !startsOption argument then ([], argument :: rest)
      else
        match tokensOf flags argument, rest with
        | (tokens, none), rest =>
            let (more, left) := tokenize flags stops rest
            (tokens ++ more, left)
        | (tokens, some flag), value :: rest =>
            if startsOption value then (tokens ++ [.bad], [])
            else
              let (more, left) := tokenize flags stops rest
              (tokens ++ .value flag value :: more, left)
        | (tokens, some _), [] => (tokens ++ [.bad], [])

/-- What the tokens have said so far. -/
structure Options where
  config : Option Path := none
  line : Option Nat := none
  json : Bool := false
  dryRun : Bool := false
  diff : Bool := false
  paths : List Path := []
  deriving DecidableEq, Repr

inductive Stop where
  | version
  | help
  | usage
  deriving DecidableEq, Repr

/-- A number of 64 bits, with or without a plus sign. -/
def number? (text : Text) : Option Nat := do
  let digits := if text.head? = some '+' then text.tail else text
  guard (!digits.isEmpty && digits.all Char.isDigit)
  let value := digits.foldl (fun value digit => value * 10 + (digit.toNat - '0'.toNat)) 0
  guard (value < UInt64.size)
  return value

def setOnce (before : Bool) : Except Stop Bool :=
  if before then .error .usage else .ok true

/-- The options after one more token, where at most `limit` plain arguments are allowed. Options
other than the verbosity may be given once, and a path is not empty. -/
def Options.add (limit : Option Nat) (options : Options) : Token → Except Stop Options
  | .bad => .error .usage
  | .flag .version => .error .version
  | .flag .help => .error .help
  | .flag .json => do return { options with json := ← setOnce options.json }
  | .flag .dryRun => do return { options with dryRun := ← setOnce options.dryRun }
  | .flag .diff => do return { options with diff := ← setOnce options.diff }
  | .flag _ => .ok options
  | .value .config path =>
      if options.config.isSome || path.isEmpty then .error .usage
      else .ok { options with config := some ⟨path⟩ }
  | .value .line number =>
      match options.line, number? number with
      | none, some line => .ok { options with line := some line }
      | _, _ => .error .usage
  | .value _ _ => .error .usage
  | .plain path =>
      if path.isEmpty || limit.any (· ≤ options.paths.length) then .error .usage
      else .ok { options with paths := options.paths ++ [⟨path⟩] }

inductive Command where
  /-- Show what is offered for the statement at a line, which counts from one. -/
  | suggest (file : Path) (line : Nat) (json : Bool)
  /-- Report all that is offered. -/
  | check (paths : List Path)
  /-- Put all that is offered in its place, or show what that would do. -/
  | fix (paths : List Path) (dryRun diff : Bool)
  deriving DecidableEq, Repr

/-- A command and the settings file to use. -/
structure Invocation where
  config : Option Path
  command : Command
  deriving DecidableEq, Repr

/-- The paths that a command works on. -/
def Command.paths : Command → List Path
  | .suggest file _ _ => [file]
  | .check paths => paths
  | .fix paths _ _ => paths

inductive Verb where
  | suggest
  | check
  | fix
  deriving DecidableEq, Repr

namespace Verb

def ofName? (name : Text) : Option Verb :=
  if name = "suggest".toList then some .suggest
  else if name = "check".toList then some .check
  else if name = "fix".toList then some .fix
  else none

def flags : Verb → List Flag
  | .suggest => [.config, .verbose, .help, .line, .json]
  | .check => [.config, .verbose, .help]
  | .fix => [.config, .verbose, .help, .dryRun, .diff]

/-- The most plain arguments of a command. -/
def limit? : Verb → Option Nat
  | .suggest => some 1
  | .check | .fix => none

/-- The command with its options, when none is missing. -/
def command? (verb : Verb) (options : Options) : Option Command :=
  match verb, options.paths, options.line with
  | _, [], _ => none
  | .suggest, file :: _, some line => some (.suggest file line options.json)
  | .suggest, _, none => none
  | .check, paths, _ => some (.check paths)
  | .fix, paths, _ => some (.fix paths options.dryRun options.diff)

end Verb

/-- Help is asked for in general, or about a command or itself. -/
def isHelpTopic : List Text → Bool
  | [] => true
  | [name] => name = "help".toList || (Verb.ofName? name).isSome
  | _ => false

/-- What the arguments ask for. A settings file named after the command takes the place of one named
before it. -/
def Invocation.parse (arguments : List Text) : Except Stop Invocation := do
  let (tokens, rest) := tokenize [.config, .verbose, .version, .help] true arguments
  let before ← tokens.foldlM (Options.add none) {}
  match rest with
  | [] => .error .usage
  | name :: rest =>
      if name = "help".toList then .error (if isHelpTopic rest then .help else .usage)
      else
        match Verb.ofName? name with
        | none => .error .usage
        | some verb =>
            let (tokens, _) := tokenize verb.flags false rest
            let options ← tokens.foldlM (Options.add verb.limit?) {}
            match verb.command? options with
            | none => .error .usage
            | some command => return { config := options.config <|> before.config, command }

end LogTemplate.Console
