import MapFilter.Files.Tree
import MapFilter.Process

/-!
# Runs

A run loads its settings, gets the text of the chain, processes it, and only then writes: one line to
one place, or nothing at all.

* `sourceText`, `resultLine`, `plan`: what is to be written and where, or the failure;
* `Request`, `World`, `World.deliver`: what a run finds, and what it asks for;
* `Outcome`, `run`: a run in a directory;
* `launch`: a run from its command line to its exit status.
-/

namespace MapFilter

open CommandLine

/-! ## What to write -/

/-- The text of the chain: given on the command line, or the first word of a file or of the standard
input. -/
def sourceText (o : Options) (env : Environment) : Except Failure (List Char) :=
  match o.chain with
  | some chain => .ok chain.toList
  | none =>
    match o.input.elim env.input env.read with
    | .error e => .error (.io e)
    | .ok content => .ok (firstWord (Utf8.decodeLossy content))

/-- The line that comes of a text. A fault of the chain is a failure only if its diagnostic is
wanted; otherwise the line names the kind of fault. -/
def resultLine (o : Options) (s : Settings) (text : List Char) : Except Failure (List Char) :=
  match process s text with
  | .ok line => .ok line
  | .error e =>
    match e.kind? with
    | some k => if o.diagnostics then .error e else .ok k.line.toList
    | none => .error e

/-- The line that a run writes. -/
def plan (o : Options) (env : Environment) : Except Failure (List Char) :=
  match loadSettings o env with
  | .error e => .error e
  | .ok s =>
    match sourceText o env with
    | .error e => .error e
    | .ok text => resultLine o s text

/-! ## Writing -/

/-- What a run asks the system for. -/
inductive Request where
  | read (path : String)
  | write (path : String)
  /-- The bytes of the standard input. -/
  | input
  /-- A line on the standard output. -/
  | print
deriving DecidableEq

/-- What a run starts from. -/
structure World where
  /-- The files, and the directory that it runs in. -/
  tree : FileTree := {}
  /-- The path and the content of the platform's configuration file, if there is one. -/
  platform : Option (String × List UInt8) := none
  /-- The standard input. -/
  input : List UInt8 := []
  /-- The settings in the text of a configuration file, or what is wrong with that text. -/
  decode : List Char → Except String Settings
  /-- Why the system turns a request away that the files give it no cause to. -/
  refusal : Request → Option FileFault := fun _ => none

namespace World

/-- What comes of a request that would be granted with `a`. -/
def ask {α : Type} (w : World) (r : Request) (a : Except FileFault α) : Except FileFault α :=
  match w.refusal r with
  | some e => .error e
  | none => a

/-- What a run can see of its world. -/
def environment (w : World) : Environment where
  read path := w.ask (.read path) (w.tree.read path)
  isFile := w.tree.isFile
  platform := w.platform.map fun p => (p.1, w.ask (.read p.1) (.ok p.2))
  input := w.ask .input (.ok w.input)
  decode := w.decode

/-- Writes a line: what is then on the standard output, and the files. -/
def deliver (w : World) (o : Options) (line : List Char) :
    Except FileFault (List Char × FileTree) :=
  match o.output with
  | none => w.ask .print (.ok (line ++ ['\n'], w.tree))
  | some path =>
    match w.ask (.write path) (w.tree.write path (Utf8.encode (line ++ ['\n']))) with
    | .error e => .error e
    | .ok tree => .ok ([], tree)

end World

/-- What a run leaves behind. -/
structure Outcome where
  result : Except Failure Unit
  /-- The standard output. -/
  stdout : List Char
  tree : FileTree

/-- Runs with the given options. -/
def run (o : Options) (w : World) : Outcome :=
  match plan o w.environment with
  | .error e => ⟨.error e, [], w.tree⟩
  | .ok line =>
    match w.deliver o line with
    | .error e => ⟨.error (.io e), [], w.tree⟩
    | .ok (text, tree) => ⟨.ok (), text, tree⟩

/-! ## From the command line -/

/-- The complaint about a log level that there is not. -/
def levelNotice? (o : Options) : Option String :=
  match Threshold.ofName? o.logLevel with
  | some _ => none
  | none => some ("Invalid log level: " ++ o.logLevel ++ ". Using 'warn' instead.")

/-- How a program ends. -/
structure Exit where
  status : Nat
  stdout : List Char
  /-- The complaint about the log level, if there is one. -/
  notice : Option String
  tree : FileTree

/-- The exit status after reading the arguments has stopped. -/
def CommandLine.Stop.status : Stop → Nat
  | help | version => 0
  | _ => 2

/-- What is printed when reading the arguments stops on request. -/
def CommandLine.Stop.text? : Stop → Option String
  | help => some helpText
  | version => some versionText
  | _ => none

/-- Runs the program with the given arguments. -/
def launch (args : List String) (w : World) : Exit :=
  match readArguments args with
  | .error stop => ⟨stop.status, (stop.text?.getD "").toList, none, w.tree⟩
  | .ok o =>
    let r := run o w
    let status := match r.result with
      | .ok () => 0
      | .error _ => 1
    ⟨status, r.stdout, levelNotice? o, r.tree⟩

end MapFilter
