/-!
# The command line

What a command line asks for, how its arguments are read, and what the options that ask for help
print.

An argument that begins with a dash names options, unless it is a lone dash or stands after `--`. An
option that takes a value has it in the same argument or in the next one; there it is only looked
at once the next option, a further value or the end comes up, which is why some complaints come late.

* `Options`, `Stop`: what comes of reading the arguments;
* `Setting`, `Key`: the options by their names;
* `Intake`, `readArguments`;
* `helpText`, `versionText`: what the options `--help` and `--version` print.
-/

namespace MapFilter

/-! ## Options -/

namespace CommandLine

/-- What a command line asks for. -/
structure Options where
  /-- The text of the chain. -/
  chain : Option String := none
  /-- The file that holds the chain. -/
  input : Option String := none
  /-- The file that the result goes to. -/
  output : Option String := none
  /-- The configuration file. -/
  config : Option String := none
  /-- Whether the chain is printed as it was read. -/
  noRefactor : Bool := false
  /-- Whether a fault of the chain is reported in full. -/
  diagnostics : Bool := false
  logLevel : String := "warn"
deriving DecidableEq

/-- Why reading the arguments ends before a run can begin. -/
inductive Stop where
  | help
  | version
  | unknownArgument
  /-- Two arguments that exclude each other, or an option given twice. -/
  | argumentConflict
  /-- An option without its value. -/
  | invalidValue
  /-- A value for an option that takes none. -/
  | tooManyValues
deriving DecidableEq

/-- An option that takes a value. -/
inductive Setting where
  | input
  | output
  | config
  | logLevel
deriving DecidableEq

/-- Puts the value of an option into the options. -/
def Setting.set (v : String) (o : Options) : Setting → Options
  | input => { o with input := some v }
  | output => { o with output := some v }
  | config => { o with config := some v }
  | logLevel => { o with logLevel := v }

/-- An option. -/
inductive Key where
  | setting (s : Setting)
  | noRefactor
  | diagnostics
  | help
  | version
deriving DecidableEq

/-- The option with a long name. -/
def Key.ofName? (name : String) : Option Key :=
  match name with
  | "input" => some (.setting .input)
  | "output" => some (.setting .output)
  | "config" => some (.setting .config)
  | "log-level" => some (.setting .logLevel)
  | "no-refactor" => some .noRefactor
  | "diagnostics" => some .diagnostics
  | "help" => some .help
  | "version" => some .version
  | _ => none

/-- The option with a name of one letter. -/
def Key.ofLetter? : Char → Option Key
  | 'i' => some (.setting .input)
  | 'o' => some (.setting .output)
  | 'c' => some (.setting .config)
  | 'h' => some .help
  | 'V' => some .version
  | _ => none

/-! ## Reading -/

/-- What has been read of a command line. -/
structure Intake where
  options : Options := {}
  /-- The options that are settled. -/
  given : List Key := []
  /-- The option that was named last and waits to be settled, with its value once it is there. -/
  pending : Option (Setting × Option String) := none

namespace Intake

/-- Settles an option, which may be done once. -/
def settle (p : Intake) (k : Key) (options : Options) : Except Stop Intake :=
  if k ∈ p.given then .error .argumentConflict
  else .ok { p with options, given := k :: p.given }

/-- Settles the option that waits. -/
def resolve (p : Intake) : Except Stop Intake :=
  match p.pending with
  | none => .ok p
  | some (_, none) => .error .invalidValue
  | some (s, some v) => { p with pending := none }.settle (.setting s) (s.set v p.options)

/-- Takes an option with a value in the same argument. -/
def attach (p : Intake) (s : Setting) (v : String) : Except Stop Intake := do
  let p ← p.resolve
  p.settle (.setting s) (s.set v p.options)

/-- Takes an option without a value in the same argument. -/
def name (p : Intake) (k : Key) : Except Stop Intake := do
  let p ← p.resolve
  match k with
  | .setting s => return { p with pending := some (s, none) }
  | .noRefactor => p.settle k { p.options with noRefactor := true }
  | .diagnostics => p.settle k { p.options with diagnostics := true }
  | .help => throw .help
  | .version => throw .version

/-- Takes an argument that begins with two dashes, without these. -/
def long (p : Intake) (arg : List Char) : Except Stop Intake :=
  let name := String.ofList (arg.takeWhile (· != '='))
  match Key.ofName? name, arg.dropWhile (· != '=') with
  | none, _ => .error .unknownArgument
  | some k, [] => p.name k
  | some (.setting s), _ :: v => p.attach s (String.ofList v)
  | some _, _ :: _ => .error .tooManyValues

/-- Takes an argument that begins with one dash, without it. -/
def letters (p : Intake) : List Char → Except Stop Intake
  | [] => .ok p
  | c :: r =>
    match Key.ofLetter? c, r with
    | none, _ => .error .unknownArgument
    | some (.setting s), '=' :: v => p.attach s (String.ofList v)
    | some (.setting s), d :: v => p.attach s (String.ofList (d :: v))
    | some k, r => do
      let p ← p.name k
      p.letters r

/-- Takes the text of the chain, which may be given once. -/
def positional (p : Intake) (arg : String) : Except Stop Intake :=
  if p.options.chain.isSome then .error .unknownArgument
  else do
    let p ← p.resolve
    return { p with options.chain := some arg }

/-- Takes an argument that is no option. -/
def plain (p : Intake) (arg : String) : Except Stop Intake :=
  match p.pending with
  | some (s, none) => .ok { p with pending := some (s, some arg) }
  | _ => p.positional arg

/-- Takes the arguments, which are all positional after `--`. -/
def take (p : Intake) : List String → Except Stop Intake
  | [] => p.resolve
  | "--" :: args => do
    let p ← args.foldlM positional p
    p.resolve
  | arg :: args => do
    let p ← match arg.toList with
      | '-' :: '-' :: r => p.long r
      | '-' :: c :: r => p.letters (c :: r)
      | _ => p.plain arg
    p.take args

end Intake

/-- Reads the arguments of a command line. -/
def readArguments (args : List String) : Except Stop Options := do
  let p ← Intake.take {} args
  if p.options.chain.isSome ∧ p.options.input.isSome then throw .argumentConflict
  return p.options

/-! ## Help -/

/-- The lines that `--help` prints. -/
def helpLines : List String :=
  ["Command-line interface for refactoring map/filter call chains",
    "",
    "Usage: callchain [OPTIONS] [CHAIN]",
    "",
    "Arguments:",
    "  [CHAIN]  Call chain text; read from `--input` or stdin when omitted",
    "",
    "Options:",
    "  -i, --input <INPUT>          " ++
      "Read the chain from the first whitespace-delimited token of this file",
    "  -o, --output <OUTPUT>        Write the result to this file instead of stdout",
    "  -c, --config <CONFIG>        Path to configuration file (TOML)",
    "      --no-refactor            Print the chain as parsed, without refactoring it",
    "      --diagnostics            " ++
      "Report parse failures as rich diagnostics on stderr and exit with status 1",
    "      --log-level <LOG_LEVEL>  " ++
      "Log level (off, error, warn, info, debug, trace) [default: warn]",
    "  -h, --help                   Print help",
    "  -V, --version                Print version"]

/-- What `--help` prints. -/
def helpText : String := String.join (helpLines.map (· ++ "\n"))

/-- What `--version` prints. -/
def versionText : String := "callchain-cli 0.1.0\n"

end CommandLine

end MapFilter
