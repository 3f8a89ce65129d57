import MapFilter.Chain.Canonical
import MapFilter.Configuration
import MapFilter.Reading.Chain

/-!
# Processing

A text is read as a chain, brought into its canonical form unless the settings forbid it, and
printed. This leaves a trail of records, each with a level, the part of the program that it comes
from, a message and some named values.

* `readText`: a text as a chain;
* `process`: a text as the text of the resulting chain;
* `Level`, `Threshold`, `Threshold.admits`: which records are kept;
* `Record`;
* `Reading.records`, `Refactoring.records`, `processRecords`: the records of each step, in order.
-/

namespace MapFilter

/-- Reads a text as a chain. -/
def readText (text : List Char) : Except Failure Chain :=
  match (readChain (.whole text)).result with
  | .ok c => .ok c
  | .error e => .error (.parse e.diagnostic text)

/-- The text of the chain that a text stands for, in canonical form if the settings ask for it. -/
def process (s : Settings) (text : List Char) : Except Failure (List Char) :=
  match readText text with
  | .error e => .error e
  | .ok c => .ok (if s.refactor then c.refactor.chain.render else c.render)

/-! ## Records -/

/-- How much a record matters. -/
inductive Level where
  | error
  | warn
  | info
  | debug
  | trace
deriving DecidableEq

namespace Level

/-- The name of the level. -/
def name : Level → String
  | error => "ERROR"
  | warn => "WARN"
  | info => "INFO"
  | debug => "DEBUG"
  | trace => "TRACE"

/-- The place of the level, counted from the most severe one. -/
def rank : Level → Nat
  | error => 1
  | warn => 2
  | info => 3
  | debug => 4
  | trace => 5

end Level

/-- The least severe level of which records are kept, or `none` to keep no record. -/
abbrev Threshold := Option Level

namespace Threshold

/-- The threshold of the given name, in upper or lower case. -/
def ofName? (s : String) : Option Threshold :=
  if s.toUpper = "OFF" then some none
  else ([.error, .warn, .info, .debug, .trace].find? (·.name == s.toUpper)).map some

/-- Whether a record of the level is kept. -/
def admits (t : Threshold) (l : Level) : Bool :=
  match t with
  | none => false
  | some m => l.rank ≤ m.rank

end Threshold

/-- A note on one step of processing. -/
structure Record where
  level : Level
  /-- The part of the program that the note comes from. -/
  target : String
  message : String
  /-- Values of interest, by name. -/
  values : List (String × String)

/-- The records of reading a chain. -/
def Reading.records (r : Reading) : List Record :=
  (r.calls.map fun c =>
    ⟨.trace, "callchain_parser::parser", "Parsed call", [("call", c.outline)]⟩) ++
  match r.fault? with
  | none =>
    [⟨.debug, "callchain_parser::parser", "Parsed call chain",
      [("calls", toString r.calls.length)]⟩]
  | some e =>
    [⟨.debug, "callchain_parser", "Rejected call chain",
      [("code", e.diagnostic.code.id), ("kind", e.diagnostic.kind.name)]⟩]

/-- The records of refactoring a chain that had `calls` calls. -/
def Refactoring.records (calls : Nat) (r : Refactoring) : List Record :=
  (r.lengths.map fun n =>
    ⟨.trace, "callchain::refactor", "Commuted map past filter", [("len", toString n)]⟩) ++
  [⟨.debug, "callchain::refactor", "Refactored call chain",
    [("calls", toString calls), ("fusions", toString r.fusions),
      ("commutations", toString r.commutations)]⟩,
   ⟨.info, "callchain", "Call chain refactored",
    [("fusions", toString r.fusions), ("commutations", toString r.commutations)]⟩]

/-- The records of processing a text. -/
def processRecords (s : Settings) (text : List Char) : List Record :=
  let r := readChain (.whole text)
  ⟨.info, "callchain", "Parsing call chain", [("len", toString (byteLength text))]⟩ ::
    (r.records ++
      match r.result with
      | .error _ => []
      | .ok c =>
        [⟨.debug, "callchain", "Call chain parsed successfully",
            [("calls", toString c.length)]⟩,
          ⟨.trace, "callchain", "Parsed call chain", [("chain", c.outline)]⟩] ++
        if s.refactor then c.refactor.records c.length
        else [⟨.info, "callchain", "Refactoring disabled, printing chain as parsed", []⟩])

end MapFilter
