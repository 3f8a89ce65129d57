import MapFilter.Diagnostic

/-!
# Reports

A report is what is shown of a failure to a person: a headline, a code, advice, and labels on the
source text when the failure is a fault of the chain. An outline shows the failure as a tree, with
its texts between double quotes; quotes, backslashes and control characters in them are escaped, so
that a text stays on one line and its end can be found.

* `Report`, `Failure.report`;
* `Quoted.escape`, `Quoted.quote`;
* `Failure.outline`: the failure as a tree, every part by its name.
-/

namespace MapFilter

/-! ## Quoted text -/

namespace Quoted

/-- How a character is written between quotes: the five common escapes, a NUL as `\0`, any other
ASCII control character by its number in hexadecimal, and the rest as it is. -/
def escape (c : Char) : List Char :=
  match c with
  | '"' => ['\\', '"']
  | '\\' => ['\\', '\\']
  | '\n' => ['\\', 'n']
  | '\t' => ['\\', 't']
  | '\r' => ['\\', 'r']
  | '\x00' => ['\\', '0']
  | c =>
    if c.toNat < 0x20 ∨ c.toNat = 0x7f then
      '\\' :: 'u' :: '\x7b' :: (Nat.toDigits 16 c.toNat ++ ['\x7d'])
    else [c]

/-- The text between quotes. -/
def quote (s : String) : String :=
  "\"" ++ String.ofList (s.toList.flatMap escape) ++ "\""

end Quoted

/-! ## Reports -/

/-- What is shown of a failure. -/
structure Report where
  headline : String
  code : String
  help : Option String
  /-- The text that the labels are about. -/
  source : Option (List Char)
  /-- The labels, when there is one. -/
  labels : Option (List Label)
  /-- What is behind the failure, in words. -/
  cause : Option String

/-- The report of a failure. -/
def Failure.report : Failure → Report
  | parse d src =>
    { headline := d.kind.text ++ ": " ++ d.message
      code := d.code.id
      help := d.help
      source := some src
      labels := if d.labels.isEmpty then none else some d.labels
      cause := none }
  | e@(io f) => ⟨e.message, "callchain::io", none, none, none, some f.message⟩
  | e@(config _) => ⟨e.message, "callchain::config", none, none, none, none⟩

/-! ## Outlines -/

/-- The outline of a span. -/
def Span.outline (s : Span) : String :=
  "Span \x7b start: " ++ toString s.start ++ ", end: " ++ toString s.stop ++ " \x7d"

/-- The outline of a label. -/
def Label.outline (l : Label) : String :=
  "Label \x7b span: " ++ l.span.outline ++ ", message: " ++ Quoted.quote l.message ++
    ", is_primary: " ++ toString l.isPrimary ++ " \x7d"

/-- The outline of a diagnostic. -/
def Diagnostic.outline (d : Diagnostic) : String :=
  "Diagnostic \x7b code: " ++ d.code.id ++ ", message: " ++ Quoted.quote d.message ++
    ", labels: [" ++ ", ".intercalate (d.labels.map Label.outline) ++ "], help: " ++
    (match d.help with
      | none => "None"
      | some h => "Some(" ++ Quoted.quote h ++ ")") ++ " \x7d"

/-- The outline of a fault of a file that carries an error number. -/
def osFaultOutline (code : Nat) (kind message : String) : String :=
  "Os \x7b code: " ++ toString code ++ ", kind: " ++ kind ++ ", message: " ++
    Quoted.quote message ++ " \x7d"

/-- The outline of a fault of a file. -/
def FileFault.outline : FileFault → String
  | notFound => osFaultOutline 2 "NotFound" "No such file or directory"
  | notADirectory => osFaultOutline 20 "NotADirectory" "Not a directory"
  | isADirectory => osFaultOutline 21 "IsADirectory" "Is a directory"
  | nameTooLong => osFaultOutline 36 "InvalidFilename" "File name too long"
  | f@nulInName =>
    "Error \x7b kind: InvalidInput, message: " ++ Quoted.quote f.message ++ " \x7d"
  | f@notText => "Error \x7b kind: InvalidData, message: " ++ Quoted.quote f.message ++ " \x7d"
  | other t => "Custom \x7b kind: Other, error: " ++ Quoted.quote t ++ " \x7d"

/-- The outline of a failure as a report holds it. -/
def Failure.outline : Failure → String
  | parse d _ => "Diagnostic(DiagnosticAdapter \x7b diag: " ++ d.outline ++ " \x7d)"
  | io f => "Error(Io(" ++ f.outline ++ "))"
  | config t => "Error(Config(" ++ Quoted.quote t ++ "))"

end MapFilter
