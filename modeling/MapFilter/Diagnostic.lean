/-!
# Diagnostics and failures

A diagnostic says what is wrong with a text, in words and by labels on spans of the text. A span is
a half-open range of byte offsets. Codes below `E100` say that the text does not follow the grammar,
the others that numbers and truth values are mixed up. A failure is why a run ends without an
answer: the chain has a fault, a file cannot be read or written, or the configuration is of no use.

* `Span`, `Span.ofBounds`, `Span.size`, `Span.union`, `Span.unions`, `Span.shift`;
* `Diagnostic.Kind`, `Diagnostic.Code`: `id`, `ofId?`, `description`, `kind`;
* `Label`, `Diagnostic`;
* `Diagnostic.label`, `Diagnostic.secondary`, `Diagnostic.advise`: a diagnostic with one thing more;
* `Diagnostic.primarySpan?`, `Diagnostic.render`;
* `FileFault`, `FileFault.message`: what the operating system says about a file;
* `Failure`, `Failure.message`, `Failure.kind?`;
* `Diagnostic.Kind.line`: the line that stands for a chain of which no diagnostic is wanted.
-/

namespace MapFilter

/-! ## Spans -/

/-- A half-open range of byte offsets. -/
@[ext] structure Span where
  /-- The offset of the first byte. -/
  start : Nat
  /-- The offset just past the last byte. -/
  stop : Nat
  /-- The range is not reversed. -/
  start_le_stop : start ≤ stop
deriving DecidableEq

namespace Span

/-- The span from `a` to `b`, empty at `a` when `b` lies before it. -/
def ofBounds (a b : Nat) : Span := ⟨a, max a b, Nat.le_max_left a b⟩

/-- The number of bytes in the span. -/
def size (s : Span) : Nat := s.stop - s.start

/-- Whether the span holds no byte. -/
def isEmpty (s : Span) : Bool := s.start == s.stop

/-- The least span that covers both. -/
def union (s t : Span) : Span where
  start := min s.start t.start
  stop := max s.stop t.stop
  start_le_stop := by have := s.start_le_stop; omega

/-- The union of each beginning of a list that is not empty, shortest first. -/
def unions : List Span → List Span
  | [] => []
  | s :: r => s :: go s r
where
  /-- The unions of `u` with each beginning of a list. -/
  go (u : Span) : List Span → List Span
    | [] => []
    | s :: r => u.union s :: go (u.union s) r

/-- The span `n` bytes further on. -/
def shift (n : Nat) (s : Span) : Span where
  start := s.start + n
  stop := s.stop + n
  start_le_stop := by have := s.start_le_stop; omega

end Span

/-! ## Codes -/

namespace Diagnostic

/-- The two kinds of fault. -/
inductive Kind where
  | syntactic
  | typing
deriving DecidableEq

/-- How a report names the kind. -/
def Kind.text : Kind → String
  | .syntactic => "syntax error"
  | .typing => "type error"

/-- How a log record names the kind. -/
def Kind.name : Kind → String
  | .syntactic => "Syntax"
  | .typing => "Type"

/-- What is wrong with a text. -/
inductive Code where
  | emptyInput
  | unterminatedCall
  | expectedSeparator
  | danglingSeparator
  | missingBody
  | unknownCall
  | expectedExpression
  | expectedOperator
  | unrecognizedOperator
  | unbalancedParentheses
  | valueOutOfRange
  | booleanOperator
  | arithmeticOperator
  | numberAsPredicate
deriving DecidableEq

namespace Code

/-- Every code, in the order of their identifiers. -/
def all : List Code :=
  [emptyInput, unterminatedCall, expectedSeparator, danglingSeparator, missingBody, unknownCall,
    expectedExpression, expectedOperator, unrecognizedOperator, unbalancedParentheses,
    valueOutOfRange, booleanOperator, arithmeticOperator, numberAsPredicate]

/-- The identifier of the code. -/
def id : Code → String
  | emptyInput => "E001"
  | unterminatedCall => "E002"
  | expectedSeparator => "E003"
  | danglingSeparator => "E004"
  | missingBody => "E005"
  | unknownCall => "E006"
  | expectedExpression => "E007"
  | expectedOperator => "E008"
  | unrecognizedOperator => "E009"
  | unbalancedParentheses => "E010"
  | valueOutOfRange => "E011"
  | booleanOperator => "E100"
  | arithmeticOperator => "E101"
  | numberAsPredicate => "E102"

/-- The code with the identifier `s`. -/
def ofId? (s : String) : Option Code := all.find? (·.id == s)

/-- What the code stands for, in a few words. -/
def description : Code → String
  | emptyInput => "empty input"
  | unterminatedCall => "unterminated call"
  | expectedSeparator => "expected call separator"
  | danglingSeparator => "dangling call separator"
  | missingBody => "missing call body"
  | unknownCall => "unknown call"
  | expectedExpression => "expected expression"
  | expectedOperator => "expected binary operator"
  | unrecognizedOperator => "unrecognized operator"
  | unbalancedParentheses => "unbalanced parentheses"
  | valueOutOfRange => "value out of range"
  | booleanOperator => "boolean operator in arithmetic expression"
  | arithmeticOperator => "arithmetic operator in boolean expression"
  | numberAsPredicate => "number used as a predicate"

/-- The kind of fault that the code belongs to. -/
def kind : Code → Kind
  | booleanOperator | arithmeticOperator | numberAsPredicate => .typing
  | _ => .syntactic

end Code

end Diagnostic

/-! ## Diagnostics -/

/-- Whether a label marks the fault itself or something that helps to understand it. -/
inductive Label.Role where
  | primary
  | secondary
deriving DecidableEq

/-- A remark on a span of the text. -/
structure Label where
  role : Label.Role
  span : Span
  message : String
deriving DecidableEq

/-- Whether the label marks the fault itself. -/
def Label.isPrimary (l : Label) : Bool := l.role == .primary

/-- What is wrong with a text, and where. -/
structure Diagnostic where
  code : Diagnostic.Code
  message : String
  /-- The labels, in the order in which they were added. -/
  labels : List Label := []
  help : Option String := none
deriving DecidableEq

namespace Diagnostic

/-- The kind of fault. -/
def kind (d : Diagnostic) : Kind := d.code.kind

/-- The diagnostic with a primary label more. -/
def label (d : Diagnostic) (span : Span) (message : String) : Diagnostic :=
  { d with labels := d.labels ++ [⟨.primary, span, message⟩] }

/-- The diagnostic with a secondary label more. -/
def secondary (d : Diagnostic) (span : Span) (message : String) : Diagnostic :=
  { d with labels := d.labels ++ [⟨.secondary, span, message⟩] }

/-- The diagnostic with `text` as its help, in the place of any that it had. -/
def advise (d : Diagnostic) (text : String) : Diagnostic := { d with help := some text }

/-- The span of the first primary label. -/
def primarySpan? (d : Diagnostic) : Option Span := (d.labels.find? Label.isPrimary).map Label.span

/-- The diagnostic on one line: kind, code and message. -/
def render (d : Diagnostic) : String :=
  d.kind.text ++ "[" ++ d.code.id ++ "]: " ++ d.message

end Diagnostic

/-! ## Failures -/

/-- Why a file cannot be read or written. -/
inductive FileFault where
  | notFound
  | notADirectory
  | isADirectory
  | nameTooLong
  /-- The name holds a NUL character. -/
  | nulInName
  /-- The content is not well-formed UTF-8. -/
  | notText
  /-- Any other fault, in words. -/
  | other (text : String)
deriving DecidableEq

/-- The fault in words. -/
def FileFault.message : FileFault → String
  | notFound => "No such file or directory (os error 2)"
  | notADirectory => "Not a directory (os error 20)"
  | isADirectory => "Is a directory (os error 21)"
  | nameTooLong => "File name too long (os error 36)"
  | nulInName => "file name contained an unexpected NUL byte"
  | notText => "stream did not contain valid UTF-8"
  | other text => text

/-- Why a run ends without an answer. -/
inductive Failure where
  /-- The chain has a fault; `source` is its text. -/
  | parse (diagnostic : Diagnostic) (source : List Char)
  | io (fault : FileFault)
  | config (text : String)
deriving DecidableEq

namespace Failure

/-- The failure in words. -/
def message : Failure → String
  | parse d _ => d.render
  | io f => "I/O error: " ++ f.message
  | config t => "Configuration error: " ++ t

/-- The kind of fault, when it is a fault of the chain. -/
def kind? : Failure → Option Diagnostic.Kind
  | parse d _ => some d.kind
  | _ => none

end Failure

/-- The line that stands for a chain with a fault of the kind. -/
def Diagnostic.Kind.line : Diagnostic.Kind → String
  | .syntactic => "SYNTAX ERROR"
  | .typing => "TYPE ERROR"

end MapFilter
