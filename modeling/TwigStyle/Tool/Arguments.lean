import TwigStyle.Output.Basic

/-!
# Arguments of the command line

Options come before or after the name of the command.  A long option takes its value from the next
argument or after `=`; short options can be written together, and the last of them can have its
value attached.  An option is given once, except for patterns.  After `--` everything is a path.

Whatever does not fit is a usage error.
-/

namespace TwigStyle

/-- What the command `lint` is asked to do. -/
structure LintRequest where
  /-- What to check; the root of the project if there is none. -/
  paths : List Path := []
  fix : Bool := false
  format : OutputFormat := .text
  /-- The least severity that is printed. -/
  level : Option Severity := none
  noCache : Bool := false
  /-- Further patterns of files to leave out. -/
  excluded : List String := []

/-- A command. -/
inductive Request where
  | lint (request : LintRequest)
  | listRules
  /-- Write a configuration file to start from. -/
  | init (force : Bool)
  | version

/-- A command line. -/
structure Invocation where
  /-- The configuration file that was named. -/
  config : Option Path := none
  request : Request

namespace Arguments

/-- An option of the command line. -/
inductive Flag where
  | verbose
  | config
  | version
  | fix
  | format
  | level
  | noCache
  | exclude
  | force
deriving DecidableEq, Repr

/-- Does the option take a value? -/
def Flag.takesValue : Flag → Bool
  | config | format | level | exclude => true
  | _ => false

/-- May the option be given more than once? -/
def Flag.repeats : Flag → Bool
  | exclude => true
  | _ => false

/-- Which options are known: those of every command, before a command, or of a command. -/
inductive Scope where
  | top
  | lint
  | listRules
  | init
deriving DecidableEq, Repr

/-- The scope that a command opens. -/
def Scope.ofCommand? : String → Option Scope
  | "lint" => some lint
  | "list-rules" => some listRules
  | "init" => some init
  | _ => none

/-- A long option by its name. -/
def Scope.long? (s : Scope) (name : String) : Option Flag :=
  match name, s with
  | "verbose", _ => some .verbose
  | "config", _ => some .config
  | "version", .top => some .version
  | "fix", .lint => some .fix
  | "format", .lint => some .format
  | "level", .lint => some .level
  | "no-cache", .lint => some .noCache
  | "exclude", .lint => some .exclude
  | "force", .init => some .force
  | _, _ => none

/-- A short option by its letter. -/
def Scope.short? (s : Scope) (letter : Char) : Option Flag :=
  match letter, s with
  | 'v', _ => some .verbose
  | 'c', _ => some .config
  | 'V', .top => some .version
  | 'f', .lint => some .format
  | 'l', .lint => some .level
  | 'e', .lint => some .exclude
  | _, _ => none

/-- Options with their values, in order. -/
abbrev Given : Type := List (Flag × String)

/-- An option with the value that is attached to it, or still without one. -/
structure Piece where
  flag : Flag
  value : Option String := none

/-- The options of a long argument, after its two dashes. -/
def longPieces? (s : Scope) (text : List Char) : Option (List Piece) :=
  let name := String.ofList (text.takeWhile (· != '='))
  let value := match text.dropWhile (· != '=') with
    | [] => none
    | _ :: v => some (String.ofList v)
  match s.long? name with
  | none => none
  | some flag => if value.isSome && !flag.takesValue then none else some [⟨flag, value⟩]

/-- The options of a short argument, after its dash.  The version is answered at once, so nothing
    after its letter is looked at. -/
def shortPieces? (s : Scope) : List Char → Option (List Piece)
  | [] => some []
  | letter :: rest =>
    match s.short? letter with
    | none => none
    | some flag =>
      if flag = .version then some [⟨flag, none⟩]
      else if flag.takesValue then
        match rest with
        | [] => some [⟨flag, none⟩]
        | '=' :: v => some [⟨flag, some (String.ofList v)⟩]
        | v => some [⟨flag, some (String.ofList v)⟩]
      else (shortPieces? s rest).map (⟨flag, none⟩ :: ·)

/-- What an argument is. -/
inductive Kind where
  /-- `--`: only paths follow. -/
  | terminator
  | long (text : List Char)
  | short (text : List Char)
  | plain

/-- Tell what an argument is; a single dash is no option. -/
def kindOf (arg : String) : Kind :=
  match arg.toList with
  | ['-', '-'] => .terminator
  | '-' :: '-' :: text => .long text
  | ['-'] => .plain
  | '-' :: text => .short text
  | _ => .plain

/-- Can the argument be the value of an option before it? -/
def isValue (arg : String) : Bool :=
  match kindOf arg with
  | .plain => true
  | _ => false

/-- Is the value acceptable for the option?  A path is not empty. -/
def isAcceptable : Flag → String → Bool
  | .config, v => v != ""
  | .format, v => (OutputFormat.ofLabel? v).isSome
  | .level, v => (Severity.ofLabel? v).isSome
  | _, _ => true

/-- What was read of the command line. -/
structure Reading where
  scope : Scope := .top
  /-- Options that were given before the command. -/
  outer : Given := []
  /-- Options that were given in the present scope. -/
  given : Given := []
  paths : List String := []
  /-- Only paths follow. -/
  onlyPaths : Bool := false
  /-- The version was asked for, which ends the reading. -/
  wantsVersion : Bool := false

/-- Take up an option. -/
def Reading.give? (r : Reading) (flag : Flag) (value : String) : Option Reading :=
  if (!flag.repeats && r.given.any (·.1 == flag)) || !isAcceptable flag value then none
  else some { r with given := r.given ++ [(flag, value)], wantsVersion := flag == .version }

/-- Take up a plain argument: the name of a command, or a path. -/
def Reading.plain? (r : Reading) (arg : String) : Option Reading :=
  match r.scope with
  | .top =>
    if r.onlyPaths then none
    else (Scope.ofCommand? arg).map fun scope => { r with scope, outer := r.given, given := [] }
  | .lint => if arg = "" then none else some { r with paths := r.paths ++ [arg] }
  | _ => none

/-- Take up options of one argument; the last one may take its value from the arguments that
    follow. -/
def Reading.pieces? (r : Reading) : List Piece → List String → Option (Reading × List String)
  | [], args => some (r, args)
  | ⟨flag, some v⟩ :: rest, args => (r.give? flag v).bind fun r => r.pieces? rest args
  | ⟨flag, none⟩ :: rest, args =>
    if flag.takesValue then
      match args with
      | v :: args => if isValue v then (r.give? flag v).map fun r => (r, args) else none
      | [] => none
    else (r.give? flag "").bind fun r => if r.wantsVersion then some (r, args) else r.pieces? rest args

/-- Read the arguments; `fuel` bounds their number. -/
def readAll? : (fuel : Nat) → Reading → List String → Option Reading
  | 0, r, _ => some r
  | _, r, [] => some r
  | fuel + 1, r, arg :: args =>
    if r.wantsVersion then some r
    else if r.onlyPaths then (r.plain? arg).bind fun r => readAll? fuel r args
    else match kindOf arg with
      | .terminator => readAll? fuel { r with onlyPaths := true } args
      | .plain => (r.plain? arg).bind fun r => readAll? fuel r args
      | .long text =>
        (longPieces? r.scope text).bind fun ps =>
          (r.pieces? ps args).bind fun (r, args) => readAll? fuel r args
      | .short text =>
        (shortPieces? r.scope text).bind fun ps =>
          (r.pieces? ps args).bind fun (r, args) => readAll? fuel r args

/-- The value of an option. -/
def valueOf? (given : Given) (flag : Flag) : Option String := given.lookup flag

/-- Was the option given? -/
def has (given : Given) (flag : Flag) : Bool := (valueOf? given flag).isSome

/-- What `lint` is asked to do. -/
def lintRequest (r : Reading) : LintRequest :=
  { paths := r.paths.map Path.mk
    fix := has r.given .fix
    format := ((valueOf? r.given .format).bind OutputFormat.ofLabel?).getD .text
    level := (valueOf? r.given .level).bind Severity.ofLabel?
    noCache := has r.given .noCache
    excluded := (r.given.filter (·.1 == .exclude)).map (·.2) }

/-- The command that was read; none if there is none. -/
def request? (r : Reading) : Option Request :=
  if r.wantsVersion then some .version
  else match r.scope with
    | .top => none
    | .lint => some (.lint (lintRequest r))
    | .listRules => some .listRules
    | .init => some (.init (has r.given .force))

/-- Read a command line; none for a usage error. -/
def parse? (args : List String) : Option Invocation := do
  let r ← readAll? args.length {} args
  let request ← request? r
  let config := (valueOf? r.given .config).or (valueOf? r.outer .config)
  some { config := config.map Path.mk, request }

end Arguments

end TwigStyle
