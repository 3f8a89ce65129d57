import MapFilter.Proofs.Grammar.Boundary

/-!
# Expressions without regard to sorts

A raw expression joins operands by any operator: numbers and truth values may be mixed up, and a
literal may have any value. Sorts are laid over it. Each node is due to be a number or a condition,
by the operator above it, and has a sort of its own, by its own operator.

* `ExprSort`, `Operator`, `RawExpr`, `RawExpr.text`;
* `RawExpr.HasSort`, `RawExpr.InRange`: what a raw expression lacks to be one of the grammar;
* `Place`, `RawExpr.places`: the nodes in pre-order, each with the sort that is due and its offset;
* `RawExpr.hasSort_iff`: an expression has a sort when no node is out of place;
* **`RawExpr.ofFragment_text`**: how a raw node is cut.
-/

namespace MapFilter

/-- What an expression stands for. -/
inductive ExprSort where
  | number
  | condition
deriving DecidableEq

inductive Operator where
  | arith (o : ArithOp)
  | rel (o : RelOp)
  | bool (o : BoolOp)
deriving DecidableEq

namespace Operator

def symbol : Operator → Char
  | arith o => o.symbol
  | rel o => o.symbol
  | bool o => o.symbol

/-- The sort that both operands are due to have. -/
def operand : Operator → ExprSort
  | arith _ | rel _ => .number
  | bool _ => .condition

def result : Operator → ExprSort
  | arith _ => .number
  | rel _ | bool _ => .condition

theorem utf8Size_symbol (o : Operator) : o.symbol.utf8Size = 1 := by
  rcases o with o | o | o <;> cases o <;> rfl

theorem passed (o : Operator) : Passed [o.symbol] := by
  cases o with
  | arith o => exact o.passed
  | rel o => exact o.passed
  | bool o => exact o.passed

theorem not_digit (o : Operator) (t : List Char) :
    ∀ c ∈ (o.symbol :: t).head?, c.isDigit = false := by
  rintro c ⟨⟩
  rcases o with o | o | o <;> cases o <;> rfl

theorem symbol_ne_brace (o : Operator) : o.symbol ≠ '}' := by
  rcases o with o | o | o <;> cases o <;> decide

end Operator

/-- An expression without regard to sorts. A literal keeps its text, so that each raw expression has
one text. -/
inductive RawExpr where
  | element
  | literal (text : List Char) (value : Int) (h : IntText text value)
  | node (left : RawExpr) (op : Operator) (right : RawExpr)

namespace RawExpr

/-- The text of the expression. -/
def text : RawExpr → List Char
  | element => elementWord
  | literal t _ _ => t
  | node l o r => '(' :: (l.text ++ o.symbol :: (r.text ++ [')']))

/-- The sort that the expression has by its own operator. -/
def sort : RawExpr → ExprSort
  | element | literal _ _ _ => .number
  | node _ o _ => o.result

/-- The expression has the sort, and so has each operand the sort that its operator asks for. -/
inductive HasSort : RawExpr → ExprSort → Prop
  | element : HasSort element .number
  | literal {t : List Char} {n : Int} (h : IntText t n) : HasSort (literal t n h) .number
  | node {l r : RawExpr} (o : Operator) (hl : HasSort l o.operand) (hr : HasSort r o.operand) :
    HasSort (node l o r) o.result

/-- All literals have the values of 32-bit numbers. -/
def InRange : RawExpr → Prop
  | element => True
  | literal _ n _ => -2147483648 ≤ n ∧ n ≤ 2147483647
  | node l _ r => l.InRange ∧ r.InRange

end RawExpr

/-! ## Places -/

/-- An expression at its place in a text. -/
structure Place where
  expr : RawExpr
  /-- The sort that the place asks for. -/
  due : ExprSort
  /-- The offset at which the text of the expression stands. -/
  offset : Nat

namespace Place

def fragment (p : Place) : Fragment := ⟨p.expr.text, p.offset⟩

/-- Whether the expression has another sort than the place asks for. -/
def mismatched (p : Place) : Bool := p.expr.sort != p.due

end Place

namespace RawExpr

/-- All nodes in pre-order, in an expression that is due to have a sort and stands at an offset. -/
def places : RawExpr → ExprSort → Nat → List Place
  | element, due, k => [⟨element, due, k⟩]
  | literal t n h, due, k => [⟨literal t n h, due, k⟩]
  | node l o r, due, k => ⟨node l o r, due, k⟩ ::
    (l.places o.operand (k + 1) ++ r.places o.operand (k + 1 + byteLength l.text + 1))

theorem hasSort_node_iff {l r : RawExpr} {o : Operator} {s : ExprSort} :
    (node l o r).HasSort s ↔ o.result = s ∧ l.HasSort o.operand ∧ r.HasSort o.operand := by
  constructor
  · intro h
    cases h with
    | node o hl hr => exact ⟨rfl, hl, hr⟩
  · rintro ⟨rfl, hl, hr⟩
    exact .node o hl hr

theorem hasSort_iff {e : RawExpr} {s : ExprSort} (k : Nat) :
    e.HasSort s ↔ ∀ p ∈ e.places s k, p.mismatched = false := by
  induction e generalizing s k with
  | element =>
    constructor
    · rintro ⟨⟩
      simp [places, Place.mismatched, sort]
    · intro h
      have hs : .number = s := by simpa [places, Place.mismatched, sort] using h
      exact hs ▸ .element
  | literal t n ht =>
    constructor
    · rintro ⟨⟩
      simp [places, Place.mismatched, sort]
    · intro h
      have hs : .number = s := by simpa [places, Place.mismatched, sort] using h
      exact hs ▸ .literal ht
  | node l o r ihl ihr =>
    have hn : (Place.mk (node l o r) s k).mismatched = false ↔ o.result = s := by
      simp [Place.mismatched, sort]
    rw [hasSort_node_iff, places, List.forall_mem_cons, List.forall_mem_append, hn,
      ihl (k + 1), ihr (k + 1 + byteLength l.text + 1)]

theorem inRange_of_mem_places {e : RawExpr} {s : ExprSort} {k : Nat} (h : e.InRange) {p : Place}
    (hp : p ∈ e.places s k) : p.expr.InRange := by
  induction e generalizing s k with
  | element =>
    rw [List.mem_singleton.1 hp]
    exact h
  | literal t n ht =>
    rw [List.mem_singleton.1 hp]
    exact h
  | node l o r ihl ihr =>
    rw [places, List.mem_cons, List.mem_append] at hp
    rcases hp with rfl | hp | hp
    · exact h
    · exact ihl h.1 hp
    · exact ihr h.2 hp

/-! ## Texts -/

theorem passed_text (e : RawExpr) : Passed e.text := by
  induction e with
  | element => exact .of_not_mem (not_mem_elementWord rfl) (not_mem_elementWord rfl)
  | literal t n h => exact .of_not_mem (h.not_mem rfl (by decide)) (h.not_mem rfl (by decide))
  | node l o r ihl ihr => exact ihl.node o.passed ihr

theorem not_mem_brace_text (e : RawExpr) : '}' ∉ e.text := by
  induction e with
  | element => exact not_mem_elementWord rfl
  | literal t n h => exact h.not_mem (by decide) (by decide)
  | node l o r ihl ihr => simp [text, ihl, ihr, o.symbol_ne_brace.symm]

theorem firstOperand_append (e : RawExpr) {r : List Char}
    (hr : ∀ c ∈ r.head?, c.isDigit = false) (k : Nat) :
    firstOperand ⟨e.text ++ r, k⟩ = .ok (e.text, r) := by
  cases e with
  | element => exact firstOperand_element r k
  | literal t n h => exact firstOperand_literal h hr k
  | node a o b => exact firstOperand_node a.passed_text o.passed b.passed_text r k

/-- **A raw node is cut at its own operator.** -/
theorem ofFragment_text (l r : RawExpr) (o : Operator) (k : Nat) :
    Term.ofFragment ⟨(node l o r).text, k⟩ =
      .node ⟨(node l o r).text, k⟩ (Term.ofFragment ⟨l.text, k + 1⟩) o.symbol
        (k + 1 + byteLength l.text)
        (Term.ofFragment ⟨r.text, k + 1 + byteLength l.text + 1⟩) := by
  rw [text, Term.ofFragment_node (l.firstOperand_append (o.not_digit r.text) _), o.utf8Size_symbol]

end RawExpr

end MapFilter
