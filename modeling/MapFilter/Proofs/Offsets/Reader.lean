import MapFilter.Proofs.Offsets.Group

/-!
# A reader that cuts at byte offsets

The same language as before, read by a reader that computes offsets and cuts fragments there. All
its cuts and differences are guarded, it goes on with shorter fragments only, and the cases that
cannot arise are mishaps. It keeps nothing from one step to the next but fragments.

* `Fragment.lex`: a lexeme at the start of a fragment and the fragment that remains;
* `behindOperand`, `firstOperandEnd`: what remains behind the first operand, and where it ends;
* `nodeAt`: the operands and the operator of a parenthesized fragment;
* `numberAt`, `conditionAt`, `callAt`, `callsAt`: expressions, calls and what remains of a chain;
* `chainAt`, `singleCallAt`: whole texts.
-/

namespace MapFilter

open Guarded

/-! ## Lexemes -/

namespace Fragment

/-- Whether the fragment has a parenthesis at each of its two ends. -/
def isParenthesized (f : Fragment) : Bool :=
  2 ≤ f.size && f.text.head? == some '(' && f.text.getLast? == some ')'

/-- The lexeme that `p` finds at the start of the fragment, and the fragment that remains, cut off
after as many bytes as are missing in the text that remains. -/
def lex (f : Fragment) (p : List Char → Except Mishap (Option (List Char × List Char))) :
    Except Mishap (Option (List Char × Fragment)) := do
  match ← p f.text with
  | none => return none
  | some (lexeme, rest) =>
    let consumed ← minus f.size (byteLength rest)
    return some (lexeme, ← f.cut consumed f.size)

end Fragment

/-- The group at the start of a text, cut off at the offset where the count says that it ends. -/
def groupAt (s : List Char) : Except Mishap (Option (List Char × List Char)) := do
  if s.head? ≠ some '(' then return none
  match ← groupEnd 0 0 s with
  | none => return none
  | some k =>
    let (group, rest) ← Fragment.divide (.whole s) k
    return some (group.text, rest.text)

/-- The value of the fragment if it has the form of a literal. -/
def literalAt (f : Fragment) : Guarded ExprFault (Option Int32) := do
  match ← f.lex fun s => .ok (signedDigits? s) with
  | none => return none
  | some (digits, rest) =>
    if rest.text ≠ [] then return none
    match ofInt32? (literalValue digits) with
    | some v => return some v
    | none => fault (.outOfRange f)

/-! ## Nodes -/

/-- The fragment behind the lexeme that `p` finds, or the fault `e` if it finds none. -/
def Fragment.behind (f : Fragment) (e : ExprFault)
    (p : List Char → Except Mishap (Option (List Char × List Char))) :
    Guarded ExprFault Fragment := do
  match ← f.lex p with
  | some (_, rest) => return rest
  | none => fault e

/-- The fragment behind the first operand of a content. -/
def behindOperand (content : Fragment) : Guarded ExprFault Fragment :=
  match content.text with
  | [] => fault (.emptyParentheses content)
  | c :: _ =>
    if c = '(' then content.behind (.unclosedGroup content) groupAt
    else if c = '-' ∨ c.isDigit then
      content.behind (.loneMinus content) fun s => .ok (signedDigits? s)
    else content.behind (.noOperand content) fun s => .ok (word? elementWord s)

/-- The offset at which the first operand of a content ends. -/
def firstOperandEnd (content : Fragment) : Guarded ExprFault Nat := do
  let rest ← behindOperand content
  if rest.text = [] then fault (.noOperator content)
  else minus content.size rest.size

/-- A parenthesized fragment, taken apart. -/
structure Node where
  left : Fragment
  op : Char
  /-- The fragment of the operator alone. -/
  symbol : Fragment
  right : Fragment

/-- Takes a parenthesized fragment apart at the end of its first operand. -/
def nodeAt (f : Fragment) : Guarded ExprFault Node := do
  let close ← minus f.size 1
  let content ← f.cut 1 close
  let k ← firstOperandEnd content
  let (left, tail) ← content.divide k
  match tail.text with
  -- a text behind the first operand has been found above
  | [] => throw (.inl .ruledOut)
  | op :: _ =>
    let (symbol, right) ← tail.divide op.utf8Size
    return ⟨left, op, symbol, right⟩

/-! ## Expressions -/

/-- Reads a fragment as a number. -/
def numberAt (f : Fragment) : Guarded ExprFault NumExpr := do
  if f.text = elementWord then return .element
  match ← literalAt f with
  | some v => return .const v
  | none =>
    if f.isParenthesized then
      let n ← nodeAt f
      match ArithOp.ofSymbol? n.op with
      | some o =>
        let left ← f.shorter n.left
        let a ← numberAt left.1
        let right ← f.shorter n.right
        let b ← numberAt right.1
        return .arith a o b
      | none =>
        if (RelOp.ofSymbol? n.op).isSome ∨ (BoolOp.ofSymbol? n.op).isSome then
          fault (.truthOperator n.op n.symbol.offset f)
        else fault (.unknownOperator n.op n.symbol.offset)
    else fault (.notNumber f)
termination_by f.size
decreasing_by
  · exact left.2
  · exact right.2

/-- Reads a fragment as a condition. -/
def conditionAt (f : Fragment) : Guarded ExprFault BoolExpr := do
  if f.isParenthesized then
    let n ← nodeAt f
    match RelOp.ofSymbol? n.op, BoolOp.ofSymbol? n.op with
    | some o, _ =>
      let left ← f.shorter n.left
      let a ← numberAt left.1
      let right ← f.shorter n.right
      let b ← numberAt right.1
      return .rel a o b
    | none, some o =>
      let left ← f.shorter n.left
      let p ← conditionAt left.1
      let right ← f.shorter n.right
      let q ← conditionAt right.1
      return .binary p o q
    | none, none =>
      if (ArithOp.ofSymbol? n.op).isSome then fault (.numberOperator n.op n.symbol.offset f)
      else fault (.unknownOperator n.op n.symbol.offset)
  else
    match numberAt f with
    | .ok _ => fault (.numberAsPredicate f)
    | .error (.inr e) =>
      -- without parentheses no operand can be of the wrong sort
      if e.code.kind = .syntactic then fault (.notBoolean f) else throw (.inl .ruledOut)
    | .error (.inl m) => throw (.inl m)
termination_by f.size
decreasing_by
  · exact left.2
  · exact right.2

/-! ## Calls and chains -/

/-- Reads the body of a call. -/
def bodyAt (kind : Call.Kind) (body : Fragment) : Guarded ExprFault Call :=
  match kind with
  | .map => (numberAt body).map .map
  | .filter => (conditionAt body).map .filter

/-- Reads a fragment that ends with a closing brace as a call. -/
def callAt (f : Fragment) : Guarded Fault Call :=
  match offsetOf? '{' f.text with
  | none => fault (.missingBody f)
  | some k => do
    let keyword ← f.cut 0 k
    let close ← minus f.size 1
    let body ← f.cut (k + 1) close
    match Call.Kind.ofWord? keyword.text with
    | none => fault (.unknownKeyword keyword)
    | some kind => (bodyAt kind body).mapError (Sum.map id (.inBody f kind))

/-- Reads calls up to the end of a fragment. -/
def callsAt (f : Fragment) : Guarded Fault Chain :=
  match offsetOf? '}' f.text with
  | none => fault (.unclosedCall f)
  | some close => do
    let (text, remainder) ← f.divide (close + 1)
    let c ← callAt text
    if remainder.text = [] then return [c]
    match ← remainder.lex fun s => .ok (word? Chain.separator s) with
    | none => fault (.strayText remainder text)
    | some (_, next) =>
      if next.text = [] then fault (.danglingSeparator remainder)
      else
        let next ← f.shorter next
        let r ← callsAt next.1
        return c :: r
termination_by f.size
decreasing_by exact next.2

/-- Reads a whole text as a chain. -/
def chainAt (t : List Char) : Guarded Fault Chain :=
  if t = [] then fault (.empty (.whole t)) else callsAt (.whole t)

/-- Reads a whole text as a single call. -/
def singleCallAt (t : List Char) : Guarded Fault Call :=
  if t.getLast? = some '}' then callAt (.whole t) else fault (.unendedCall (.whole t))

end MapFilter
