import MapFilter.Expr

/-!
# Calls and chains

A call is one stage of a chain: a map replaces the element by the value of its body, a filter
lets the element pass when its predicate holds. A chain hands each element through its calls in
order; the first filter that rejects it ends its way.

The outline of a value spells out its tree: every node by the name of its form, with its parts
named. Log records and reports show values in this shape.

* `Call.Kind`, `Call`, `Call.apply`, `Call.subst`, `Call.render`;
* `Call.noOpMap`, `Call.noOpFilter`: the calls that change nothing;
* `Chain`, `Chain.apply`, `Chain.trace`;
* `Chain.render`: the calls with `%>%` between them;
* `NumExpr.outline`, `BoolExpr.outline`, `Call.outline`, `Chain.outline`.
-/

namespace MapFilter

/-! ## Calls -/

/-- The two kinds of call. -/
inductive Call.Kind where
  | map
  | filter
deriving DecidableEq

/-- The word that opens a call of the kind. -/
def Call.Kind.word : Call.Kind → List Char
  | .map => "map".toList
  | .filter => "filter".toList

theorem Call.Kind.not_mem_word (kind : Kind) {c : Char} (hc : c.isAlpha = false) :
    c ∉ kind.word := not_mem_of_isAlpha (by cases kind <;> rfl) hc

/-- One stage of a chain. -/
inductive Call where
  | map (body : NumExpr)
  | filter (predicate : BoolExpr)
deriving DecidableEq

namespace Call

/-- The map that gives every element back. -/
def noOpMap : Call := map .element

/-- The filter that lets every element pass. -/
def noOpFilter : Call := filter .alwaysTrue

/-- The kind of the call. -/
def kind : Call → Kind
  | map _ => .map
  | filter _ => .filter

/-- Whether the call is a map. -/
def isMap : Call → Bool
  | map _ => true
  | filter _ => false

/-- Whether the call is a filter. -/
def isFilter : Call → Bool
  | map _ => false
  | filter _ => true

/-- What becomes of an element: its new value, or nothing when a filter rejects it. -/
def apply : Call → Int32 → Option Int32
  | map e, x => some (e.eval x)
  | filter p, x => if p.eval x then some x else none

/-- The call with `r` in the place of every `element`. -/
def subst : Call → NumExpr → Call
  | map e, r => map (e.subst r)
  | filter p, r => filter (p.subst r)

/-! ## Text -/

/-- The text between the braces of the call. -/
def bodyText : Call → List Char
  | map e => e.render
  | filter p => p.render

/-- The text of the call, `map{…}` or `filter{…}`. -/
def render (c : Call) : List Char := c.kind.word ++ '{' :: (c.bodyText ++ ['}'])

end Call

/-! ## Chains -/

/-- A sequence of calls. -/
abbrev Chain := List Call

namespace Chain

/-- What becomes of an element that goes through the whole chain. -/
def apply : Chain → Int32 → Option Int32
  | [], x => some x
  | c :: r, x => (c.apply x).bind (apply r)

/-- What is left of an element after each call. -/
def trace : Chain → Option Int32 → List (Option Int32)
  | [], _ => []
  | c :: r, x => x.bind c.apply :: trace r (x.bind c.apply)

/-- The text between two calls. -/
def separator : List Char := "%>%".toList

/-- The text of a chain. The empty chain has the empty text. -/
def render (c : Chain) : List Char := List.intercalate separator (c.map Call.render)

end Chain

/-! ## Outlines -/

/-- The outline of a node with two operands. -/
def nodeOutline (form left op right : String) : String :=
  form ++ " \x7b left: " ++ left ++ ", operator: " ++ op ++ ", right: " ++ right ++ " \x7d"

/-- The outline of a number expression. -/
def NumExpr.outline : NumExpr → String
  | const n => "Const(" ++ String.ofList (numeral n) ++ ")"
  | element => "Element"
  | arith l o r => nodeOutline "Arithmetic" l.outline o.name r.outline

/-- The outline of a boolean expression. -/
def BoolExpr.outline : BoolExpr → String
  | rel l o r => nodeOutline "Relation" l.outline o.name r.outline
  | binary l o r => nodeOutline "Binary" l.outline o.name r.outline

/-- The outline of a call. -/
def Call.outline : Call → String
  | map e => "Map(" ++ e.outline ++ ")"
  | filter p => "Filter(" ++ p.outline ++ ")"

/-- The outline of a chain. -/
def Chain.outline (c : Chain) : String :=
  "CallChain \x7b calls: [" ++ ", ".intercalate (c.map Call.outline) ++ "] \x7d"

end MapFilter
