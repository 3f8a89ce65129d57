import MapFilter.Report
import MapFilter.Run
import MapFilter.Toml.Document

/-!
# The program

Reads the arguments, looks at the files that they name, and does what `plan` says.
-/

namespace MapFilter

/-- The fault of a file that an error number, positive or negated, stands for. -/
def faultOfCode (number : UInt32) (details : String) : FileFault :=
  let code := if number < 0x80000000 then number else 0 - number
  if code = 2 then .notFound
  else if code = 20 then .notADirectory
  else if code = 21 then .isADirectory
  else if code = 36 then .nameTooLong
  else .other (details ++ " (os error " ++ toString code ++ ")")

/-- The fault of a file that an error of the system stands for. -/
def faultOf (e : IO.Error) : FileFault :=
  match e with
  | .noFileOrDirectory _ code d | .interrupted _ code d => faultOfCode code d
  | .alreadyExists _ code d | .invalidArgument _ code d | .permissionDenied _ code d
  | .resourceExhausted _ code d | .inappropriateType _ code d | .noSuchThing _ code d =>
    faultOfCode code d
  | .otherError code d | .resourceBusy code d | .resourceVanished code d
  | .unsupportedOperation code d | .hardwareFault code d | .unsatisfiedConstraints code d
  | .illegalOperation code d | .protocolError code d | .timeExpired code d => faultOfCode code d
  | .unexpectedEof | .userError _ => .other (toString e)

/-- The bytes that are left in a stream. -/
partial def bytesOf (stream : IO.FS.Stream) (done : List ByteArray) : IO (List UInt8) := do
  let block ← stream.read 65536
  if block.isEmpty then return done.reverse.flatMap ByteArray.toList
  else bytesOf stream (block :: done)

/-- The content of a file. -/
def contentOf (path : String) : IO (Except FileFault (List UInt8)) := do
  if path.contains '\x00' then return .error .nulInName
  try return .ok (← IO.FS.readBinFile path).toList
  catch e => return .error (faultOf e)

/-- The bytes of the standard input. -/
def inputContent : IO (Except FileFault (List UInt8)) := do
  try return .ok (← bytesOf (← IO.getStdin) [])
  catch e => return .error (faultOf e)

/-- Whether what came of reading a file shows that there is one. -/
def isPresent (content : Except FileFault (List UInt8)) : Bool :=
  match content with
  | .error .notFound | .error .notADirectory | .error .isADirectory | .error .nulInName => false
  | _ => true

/-- The path of the platform's configuration file, if the platform has a place for it. -/
def platformConfig? : IO (Option String) := do
  let root ← match ← IO.getEnv "XDG_CONFIG_HOME" with
    | some dir => if dir.startsWith "/" then pure (some dir) else pure none
    | none => pure none
  match root, ← IO.getEnv "HOME" with
  | some dir, _ => return some (dir ++ "/callchain/config.toml")
  | none, some home => return some (home ++ "/.config/callchain/config.toml")
  | none, none => return none

/-- What a run with the given options can see. -/
def look (o : CommandLine.Options) : IO Environment := do
  let paths := o.config.toList ++ o.input.toList ++ [projectConfig]
  let files ← paths.mapM fun path => do return (path, ← contentOf path)
  let read (path : String) : Except FileFault (List UInt8) :=
    (files.lookup path).getD (.error .notFound)
  let platform ← match ← platformConfig? with
    | none => pure none
    | some path =>
      let content ← contentOf path
      pure (if isPresent content then some (path, content) else none)
  let input ← if o.chain.isSome ∨ o.input.isSome then pure (.ok []) else inputContent
  return {
    read
    isFile := fun path => isPresent (read path)
    platform
    input
    decode := Settings.ofText }

/-- Writes a line to the place that the options name. -/
def deliver (o : CommandLine.Options) (line : List Char) : IO (Except Failure Unit) := do
  let text := String.ofList line ++ "\n"
  try
    match o.output with
    | none =>
      let stdout ← IO.getStdout
      stdout.putStr text
      stdout.flush
    | some path =>
      if path.contains '\x00' then return .error (.io .nulInName)
      IO.FS.writeFile path text
    return .ok ()
  catch e => return .error (.io (faultOf e))

/-- Shows a report to the user. -/
def showReport (r : Report) : IO Unit := do
  IO.eprintln (r.code ++ ": " ++ r.headline)
  for l in r.labels.getD [] do
    IO.eprintln ("  " ++ toString l.span.start ++ ".." ++ toString l.span.stop ++ ": " ++ l.message)
  if let some help := r.help then IO.eprintln ("  help: " ++ help)

/-- Shows the records of processing a text that the threshold admits. -/
def showRecords (t : Threshold) (records : List Record) : IO Unit := do
  for r in records do
    if t.admits r.level then
      let values := String.join (r.values.map fun v => " " ++ v.1 ++ "=" ++ v.2)
      IO.eprintln ("[" ++ r.level.name ++ " " ++ r.target ++ "] " ++ r.message ++ values)

/-- Runs with the given options to the exit status. -/
def runWith (o : CommandLine.Options) : IO UInt32 := do
  if let some notice := levelNotice? o then IO.eprintln notice
  let env ← look o
  match loadSettings o env, sourceText o env with
  | .ok s, .ok text =>
    showRecords ((Threshold.ofName? o.logLevel).getD (some .warn)) (processRecords s text)
  | _, _ => pure ()
  let result ← match plan o env with
    | .error e => pure (.error e)
    | .ok line => deliver o line
  match result with
  | .ok () => return 0
  | .error e =>
    showReport e.report
    return 1

end MapFilter

/-- Runs the program. -/
def main (args : List String) : IO UInt32 :=
  match MapFilter.CommandLine.readArguments args with
  | .ok o => MapFilter.runWith o
  | .error stop => do
    match stop.text? with
    | some text => IO.print text
    | none => IO.eprintln "error: the arguments cannot be used; try '--help'"
    return UInt32.ofNat stop.status
