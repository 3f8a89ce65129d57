import MapFilter.Chain.Basic
import MapFilter.Diagnostic

/-!
# Fragments and faults

A fragment is a stretch of the text that is being read, together with the offset at which it
stands. Offsets count the bytes of the UTF-8 encoding, since that is what spans report.

A fault is why a text is not read, by cause. It keeps the fragments that it is about; the wording
and the labels follow from them in one place.

* `byteLength`: the length of a text in UTF-8;
* `Fragment`, `Fragment.span`, `Fragment.after`: what is left of a fragment behind a cut;
* `Fragment.quoted`: how a message names a fragment;
* `ExprFault`: a fault within an expression, and its diagnostic, which has one label;
* `Fault`: a fault of a call or a chain, among them a fault within the body of a call, whose
  diagnostic has the whole call as a second label;
* `ExprFault.shift`, `Fault.shift`: the same fault further on in a text.
-/

namespace MapFilter

/-! ## Fragments -/

/-- The number of bytes of a text in UTF-8. -/
def byteLength : List Char → Nat
  | [] => 0
  | c :: s => c.utf8Size + byteLength s

@[simp] theorem byteLength_nil : byteLength [] = 0 := rfl

@[simp] theorem byteLength_cons (c : Char) (s : List Char) :
    byteLength (c :: s) = c.utf8Size + byteLength s := rfl

@[simp] theorem byteLength_append (s t : List Char) :
    byteLength (s ++ t) = byteLength s + byteLength t := by
  induction s with
  | nil => simp
  | cons c s ih => simp [ih, Nat.add_assoc]

/-- A stretch of a text and the byte offset at which it stands. -/
structure Fragment where
  text : List Char
  offset : Nat
deriving DecidableEq

namespace Fragment

/-- A whole text as a fragment of itself. -/
def whole (text : List Char) : Fragment := ⟨text, 0⟩

/-- The bytes that the fragment covers. -/
def span (f : Fragment) : Span := ⟨f.offset, f.offset + byteLength f.text, Nat.le_add_right _ _⟩

theorem span_eq_ofBounds (f : Fragment) :
    f.span = .ofBounds f.offset (f.offset + byteLength f.text) := by
  have h : f.offset + byteLength f.text = max f.offset (f.offset + byteLength f.text) := by omega
  ext
  · rfl
  · exact h

theorem size_span (f : Fragment) : f.span.size = byteLength f.text := Nat.add_sub_cancel_left _ _

/-- The part of a fragment that comes after its first characters `done`. -/
def after (f : Fragment) (done rest : List Char) : Fragment := ⟨rest, f.offset + byteLength done⟩

/-- The fragment `n` bytes further on. -/
def shift (n : Nat) (f : Fragment) : Fragment := ⟨f.text, f.offset + n⟩

/-- How a message names the fragment: its text between backquotes, or `nothing`. -/
def quoted (f : Fragment) : String :=
  if f.text = [] then "nothing" else "`" ++ String.ofList f.text ++ "`"

end Fragment

/-! ## Faults -/

/-- Why the text of an expression is not read. -/
inductive ExprFault where
  /-- Not an operand, where a number is due. -/
  | notNumber (text : Fragment)
  /-- Not an operand, where a truth value is due. -/
  | notBoolean (text : Fragment)
  /-- No content between two parentheses. -/
  | emptyParentheses (content : Fragment)
  /-- Content that does not begin with an operand. -/
  | noOperand (content : Fragment)
  /-- Content that begins with a minus sign and no digit after it. -/
  | loneMinus (content : Fragment)
  /-- Content that is a single operand. -/
  | noOperator (content : Fragment)
  /-- A character between two operands that is no operator. -/
  | unknownOperator (op : Char) (offset : Nat)
  /-- Content that begins with a parenthesis without its partner. -/
  | unclosedGroup (content : Fragment)
  /-- A literal beyond the range of 32-bit numbers. -/
  | outOfRange (literal : Fragment)
  /-- An operator that gives a truth value, where a number is due. -/
  | truthOperator (op : Char) (offset : Nat) (text : Fragment)
  /-- An operator that gives a number, where a truth value is due. -/
  | numberOperator (op : Char) (offset : Nat) (text : Fragment)
  /-- A number, where a truth value is due. -/
  | numberAsPredicate (text : Fragment)
deriving DecidableEq

namespace ExprFault

/-- The code of the fault. -/
def code : ExprFault → Diagnostic.Code
  | notNumber _ | notBoolean _ | emptyParentheses _ | noOperand _ | loneMinus _ =>
    .expectedExpression
  | noOperator _ => .expectedOperator
  | unknownOperator _ _ => .unrecognizedOperator
  | unclosedGroup _ => .unbalancedParentheses
  | outOfRange _ => .valueOutOfRange
  | truthOperator _ _ _ => .booleanOperator
  | numberOperator _ _ _ => .arithmeticOperator
  | numberAsPredicate _ => .numberAsPredicate

/-- The fragment that the fault marks. -/
def marked : ExprFault → Fragment
  | notNumber f | notBoolean f | emptyParentheses f | noOperand f | loneMinus f | noOperator f
  | unclosedGroup f | outOfRange f | numberAsPredicate f => f
  | unknownOperator c k | truthOperator c k _ | numberOperator c k _ => ⟨[c], k⟩

/-- The remark on the marked fragment. -/
def remark : ExprFault → String
  | notNumber _ | noOperand _ => "expected `element`, an integer, or a parenthesized expression"
  | notBoolean _ => "expected a parenthesized comparison"
  | emptyParentheses _ => "empty parentheses"
  | loneMinus _ => "`-` must be followed by digits"
  | noOperator _ => "no operator after the first operand"
  | unknownOperator _ _ => "not one of `+ - * = > < & |`"
  | unclosedGroup _ => "this `(` is never closed"
  | outOfRange _ => "does not fit a 32-bit signed integer"
  | truthOperator _ _ _ => "this operator produces a truth value"
  | numberOperator _ _ _ => "this operator produces a number"
  | numberAsPredicate _ => "this produces a number, not a truth value"

/-- The fault in words. -/
def message (e : ExprFault) : String :=
  match e with
  | notNumber f => "expected number expression, found " ++ f.quoted
  | notBoolean f => "expected boolean expression, found " ++ f.quoted
  | emptyParentheses f | noOperand f | loneMinus f => "expected expression, found " ++ f.quoted
  | noOperator f => "expected binary expression, found " ++ f.quoted
  | unknownOperator _ _ => "expected operator, found " ++ e.marked.quoted
  | unclosedGroup f => "unbalanced parentheses in " ++ f.quoted
  | outOfRange f => "value out of range: " ++ f.quoted
  | truthOperator _ _ f =>
    "expected arithmetic operator, found " ++ e.marked.quoted ++ " in " ++ f.quoted
  | numberOperator _ _ f =>
    "expected boolean expression, found arithmetic " ++ e.marked.quoted ++ " in " ++ f.quoted
  | numberAsPredicate f => "expected boolean expression, found number expression " ++ f.quoted

/-- Advice on mending the fault. -/
def help? : ExprFault → Option String
  | outOfRange _ => some "integer literals must lie between -2147483648 and 2147483647"
  | truthOperator _ _ _ => some "number expressions combine operands with `+`, `-` or `*`"
  | numberOperator _ _ _ =>
    some "predicates compare numbers with `=`, `>` or `<` and combine with `&` or `|`"
  | numberAsPredicate _ => some "compare it with `=`, `>` or `<`, for example `(element>0)`"
  | _ => none

/-- The diagnostic of the fault. -/
def diagnostic (e : ExprFault) : Diagnostic :=
  ⟨e.code, e.message, [⟨.primary, e.marked.span, e.remark⟩], e.help?⟩

/-- The same fault `n` bytes further on. -/
def shift (n : Nat) : ExprFault → ExprFault
  | notNumber f => notNumber (f.shift n)
  | notBoolean f => notBoolean (f.shift n)
  | emptyParentheses f => emptyParentheses (f.shift n)
  | noOperand f => noOperand (f.shift n)
  | loneMinus f => loneMinus (f.shift n)
  | noOperator f => noOperator (f.shift n)
  | unknownOperator c k => unknownOperator c (k + n)
  | unclosedGroup f => unclosedGroup (f.shift n)
  | outOfRange f => outOfRange (f.shift n)
  | truthOperator c k f => truthOperator c (k + n) (f.shift n)
  | numberOperator c k f => numberOperator c (k + n) (f.shift n)
  | numberAsPredicate f => numberAsPredicate (f.shift n)

end ExprFault

/-- Why the text of a call or a chain is not read. -/
inductive Fault where
  /-- No text at all. -/
  | empty (text : Fragment)
  /-- Text in the place of a call with no closing brace in it. -/
  | unclosedCall (rest : Fragment)
  /-- The text of a single call that does not end with its closing brace. -/
  | unendedCall (text : Fragment)
  /-- Text other than a separator after a call. -/
  | strayText (rest call : Fragment)
  /-- A separator at the end of the chain. -/
  | danglingSeparator (separator : Fragment)
  /-- A call without an opening brace. -/
  | missingBody (call : Fragment)
  /-- A call that is neither a map nor a filter. -/
  | unknownKeyword (keyword : Fragment)
  /-- A fault in the body of a call. -/
  | inBody (call : Fragment) (kind : Call.Kind) (fault : ExprFault)
deriving DecidableEq

namespace Fault

/-- The diagnostic of the fault. -/
def diagnostic : Fault → Diagnostic
  | empty f =>
    ⟨.emptyInput, "expected call chain, found nothing", [⟨.primary, f.span, "empty input"⟩],
      some "a chain has at least one call, such as `map\x7belement\x7d`"⟩
  | unclosedCall f =>
    ⟨.unterminatedCall, "expected call, found " ++ f.quoted,
      [⟨.primary, f.span, "no closing `\x7d` after this point"⟩], none⟩
  | unendedCall f =>
    ⟨.unterminatedCall, "expected call, found " ++ f.quoted,
      [⟨.primary, f.span, "a call ends with `\x7d`"⟩], none⟩
  | strayText f call =>
    ⟨.expectedSeparator, "expected `%>%` or end of input, found " ++ f.quoted,
      [⟨.primary, f.span, "unexpected text after call"⟩,
        ⟨.secondary, call.span, "this call is complete"⟩], none⟩
  | danglingSeparator f =>
    ⟨.danglingSeparator, "expected call after `%>%`, found nothing",
      [⟨.primary, f.span, "separator is not followed by a call"⟩],
      some "remove the trailing `%>%`"⟩
  | missingBody f =>
    ⟨.missingBody, "expected call, found " ++ f.quoted,
      [⟨.primary, f.span, "missing `\x7b` before the call body"⟩], none⟩
  | unknownKeyword f =>
    ⟨.unknownCall, "expected `map` or `filter`, found " ++ f.quoted,
      [⟨.primary, f.span, "unknown call"⟩],
      some "calls are written `map\x7b<number>\x7d` or `filter\x7b<predicate>\x7d`"⟩
  | inBody call kind e =>
    e.diagnostic.secondary call.span ("in this `" ++ String.ofList kind.word ++ "` call")

/-- The same fault `n` bytes further on. -/
def shift (n : Nat) : Fault → Fault
  | empty f => empty (f.shift n)
  | unclosedCall f => unclosedCall (f.shift n)
  | unendedCall f => unendedCall (f.shift n)
  | strayText f call => strayText (f.shift n) (call.shift n)
  | danglingSeparator f => danglingSeparator (f.shift n)
  | missingBody f => missingBody (f.shift n)
  | unknownKeyword f => unknownKeyword (f.shift n)
  | inBody call kind e => inBody (call.shift n) kind (e.shift n)

end Fault

end MapFilter
