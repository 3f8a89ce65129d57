import MapFilter.CommandLine
import MapFilter.Diagnostic
import MapFilter.Text

/-!
# Configuration

Settings come from the first configuration file that there is: the one named on the command line,
the one of the project, or the one of the user's platform. The command line has the last word. How
the text of such a file is decoded is not fixed here.

* `Settings`: what a user may set about processing;
* `Environment`: what a run can see of the world around it;
* `ConfigFault`, `ConfigSource`, `locate`, `loadSettings`.
-/

namespace MapFilter

/-- What a user may set about the processing of a chain. -/
structure Settings where
  /-- Whether a chain is brought into its canonical form before it is printed. -/
  refactor : Bool := true
deriving DecidableEq

/-! ## Configuration files -/

/-- What a run can see of the world around it. -/
structure Environment where
  /-- The content of the file at a path. -/
  read : String → Except FileFault (List UInt8)
  /-- Whether there is a file at a path. -/
  isFile : String → Bool
  /-- The path and the content of the platform's configuration file, if there is one. -/
  platform : Option (String × Except FileFault (List UInt8))
  /-- The standard input. -/
  input : Except FileFault (List UInt8)
  /-- The settings in the text of a configuration file, or what is wrong with that text. -/
  decode : List Char → Except String Settings

/-- Why a configuration file is of no use. -/
inductive ConfigFault where
  | missing (path : String)
  | unreadable (path : String) (fault : FileFault)
  /-- The text cannot be decoded, for the reason given. -/
  | invalid (reason : String)
deriving DecidableEq

/-- The fault in words. -/
def ConfigFault.message : ConfigFault → String
  | missing path => "Missing configuration file: " ++ path
  | unreadable path f => "Failed to read configuration file " ++ path ++ ": " ++ f.message
  | invalid reason => "Failed to parse TOML configuration: " ++ reason

/-- The text of a file. -/
def textOf (content : Except FileFault (List UInt8)) : Except FileFault (List Char) :=
  match content with
  | .error e => .error e
  | .ok bytes =>
    match Utf8.decode? bytes with
    | some s => .ok s
    | none => .error .notText

/-- The settings in a configuration file. -/
def Environment.settingsIn (env : Environment) (path : String)
    (content : Except FileFault (List UInt8)) : Except ConfigFault Settings :=
  match textOf content with
  | .error .notFound => .error (.missing path)
  | .error e => .error (.unreadable path e)
  | .ok s =>
    match env.decode s with
    | .ok settings => .ok settings
    | .error reason => .error (.invalid reason)

/-- Where the settings come from. -/
inductive ConfigSource where
  /-- The file named on the command line. -/
  | named (path : String)
  /-- The file of the project. -/
  | project
  /-- The file of the platform. -/
  | platform (path : String) (content : Except FileFault (List UInt8))
  | default

/-- The path of the project's configuration file. -/
def projectConfig : String := "callchain/config.toml"

/-- Where the settings of a run come from. -/
def locate (config : Option String) (env : Environment) : ConfigSource :=
  match config with
  | some path => .named path
  | none =>
    if env.isFile projectConfig then .project
    else
      match env.platform with
      | some (path, content) => .platform path content
      | none => .default

/-- The settings in the place that they come from. -/
def ConfigSource.settings (env : Environment) : ConfigSource → Except ConfigFault Settings
  | named path => env.settingsIn path (env.read path)
  | project => env.settingsIn projectConfig (env.read projectConfig)
  | platform path content => env.settingsIn path content
  | default => .ok {}

/-- The settings of a run. -/
def loadSettings (o : CommandLine.Options) (env : Environment) : Except Failure Settings :=
  match (locate o.config env).settings env with
  | .error e => .error (.config e.message)
  | .ok s => .ok (if o.noRefactor then { s with refactor := false } else s)

end MapFilter
