/-!
# Expressions

Number expressions over one unknown, `element`, and the boolean expressions that compare them.
Their operators come in three sorts, told apart by what they join and what they give. Arithmetic is
that of 32-bit words: sums, differences and products wrap around. The text of an expression is fully
parenthesized and holds no blanks.

`e.subst r` is `e` with `r` in the place of every `element`. Evaluating it is evaluating `e` at the
value of `r`, which is why a map may be moved into whatever follows it. The expressions form a
monoid under substitution, with `element` as its unit, and the monoid acts on the conditions.

* `ArithOp`, `RelOp`, `BoolOp`: `symbol`, `ofSymbol?` and `ofSymbol?_eq_some_iff`: a character is
  read as an operator exactly when it is its symbol;
* `NumExpr`, `BoolExpr`, `BoolExpr.alwaysTrue`;
* `NumExpr.render`, `BoolExpr.render`, `numeral`: the text of an expression and of a number;
* `NumExpr.eval`, `BoolExpr.eval`: the value at an element;
* `NumExpr.subst`, `BoolExpr.subst`; `NumExpr.eval_subst`, `BoolExpr.eval_subst`: substitution is
  composition;
* `NumExpr.subst_element`, `NumExpr.element_subst`, `NumExpr.subst_subst`: the laws of a monoid;
* `BoolExpr.subst_element`, `BoolExpr.subst_subst`: the laws of an action.
-/

namespace MapFilter

/-! ## Operators -/

/-- An operator that joins two numbers into a number. -/
inductive ArithOp where
  | plus
  | minus
  | multiply
deriving DecidableEq

/-- An operator that compares two numbers. -/
inductive RelOp where
  | equals
  | greaterThan
  | lessThan
deriving DecidableEq

/-- An operator that joins two truth values. -/
inductive BoolOp where
  | and
  | or
deriving DecidableEq

/-! ## Arithmetic -/

namespace ArithOp

/-- The character that stands for the operator. -/
def symbol : ArithOp → Char
  | plus => '+'
  | minus => '-'
  | multiply => '*'

/-- The operator that a character stands for. -/
def ofSymbol? : Char → Option ArithOp
  | '+' => some plus
  | '-' => some minus
  | '*' => some multiply
  | _ => none

theorem ofSymbol?_eq_some_iff {c : Char} {o : ArithOp} : ofSymbol? c = some o ↔ c = o.symbol := by
  constructor
  · intro h
    unfold ofSymbol? at h
    split at h <;> simp_all [symbol]
    all_goals subst h; rfl
  · rintro rfl
    cases o <;> rfl

/-- The name of the operator in the outline of an expression. -/
def name : ArithOp → String
  | plus => "Plus"
  | minus => "Minus"
  | multiply => "Multiply"

/-- The value at two 32-bit numbers, wrapped around. -/
def apply : ArithOp → Int32 → Int32 → Int32
  | plus, x, y => x + y
  | minus, x, y => x - y
  | multiply, x, y => x * y

end ArithOp

/-! ## Comparison -/

namespace RelOp

/-- The character that stands for the operator. -/
def symbol : RelOp → Char
  | equals => '='
  | greaterThan => '>'
  | lessThan => '<'

/-- The operator that a character stands for. -/
def ofSymbol? : Char → Option RelOp
  | '=' => some equals
  | '>' => some greaterThan
  | '<' => some lessThan
  | _ => none

theorem ofSymbol?_eq_some_iff {c : Char} {o : RelOp} : ofSymbol? c = some o ↔ c = o.symbol := by
  constructor
  · intro h
    unfold ofSymbol? at h
    split at h <;> simp_all [symbol]
    all_goals subst h; rfl
  · rintro rfl
    cases o <;> rfl

/-- The name of the operator in the outline of an expression. -/
def name : RelOp → String
  | equals => "Equals"
  | greaterThan => "GreaterThan"
  | lessThan => "LessThan"

/-- Whether the comparison holds, in the order of signed numbers. -/
def apply : RelOp → Int32 → Int32 → Bool
  | equals, x, y => x == y
  | greaterThan, x, y => decide (y < x)
  | lessThan, x, y => decide (x < y)

end RelOp

/-! ## Connectives -/

namespace BoolOp

/-- The character that stands for the operator. -/
def symbol : BoolOp → Char
  | and => '&'
  | or => '|'

/-- The operator that a character stands for. -/
def ofSymbol? : Char → Option BoolOp
  | '&' => some and
  | '|' => some or
  | _ => none

theorem ofSymbol?_eq_some_iff {c : Char} {o : BoolOp} : ofSymbol? c = some o ↔ c = o.symbol := by
  constructor
  · intro h
    unfold ofSymbol? at h
    split at h <;> simp_all [symbol]
    all_goals subst h; rfl
  · rintro rfl
    cases o <;> rfl

/-- The name of the operator in the outline of an expression. -/
def name : BoolOp → String
  | and => "And"
  | or => "Or"

/-- The truth value at two truth values. -/
def apply : BoolOp → Bool → Bool → Bool
  | and, p, q => p && q
  | or, p, q => p || q

end BoolOp

/-! ## Expressions -/

/-- A number built from the element at hand and constants. -/
inductive NumExpr where
  | const (value : Int32)
  | element
  | arith (left : NumExpr) (op : ArithOp) (right : NumExpr)
deriving DecidableEq

/-- A condition on the element at hand. -/
inductive BoolExpr where
  | rel (left : NumExpr) (op : RelOp) (right : NumExpr)
  | binary (left : BoolExpr) (op : BoolOp) (right : BoolExpr)
deriving DecidableEq

/-- The condition that every element meets, `(0=0)`. -/
def BoolExpr.alwaysTrue : BoolExpr := .rel (.const 0) .equals (.const 0)

/-! ## Text -/

/-- The word for the element at hand. -/
def elementWord : List Char := "element".toList

/-- A word of letters holds no other character. -/
theorem not_mem_of_isAlpha {w : List Char} (hw : w.all Char.isAlpha) {c : Char}
    (hc : c.isAlpha = false) : c ∉ w := by
  intro h
  rw [List.all_eq_true.1 hw c h] at hc
  cases hc

theorem not_mem_elementWord {c : Char} (hc : c.isAlpha = false) : c ∉ elementWord :=
  not_mem_of_isAlpha rfl hc

/-- The decimal text of a number: no leading zeros, and a minus sign below zero. -/
def numeral (n : Int32) : List Char :=
  if n.toInt < 0 then '-' :: Nat.toDigits 10 n.toInt.natAbs else Nat.toDigits 10 n.toInt.natAbs

/-- The text of a number expression. -/
def NumExpr.render : NumExpr → List Char
  | const n => numeral n
  | element => elementWord
  | arith l o r => '(' :: (l.render ++ o.symbol :: (r.render ++ [')']))

/-- The text of a boolean expression. -/
def BoolExpr.render : BoolExpr → List Char
  | rel l o r => '(' :: (l.render ++ o.symbol :: (r.render ++ [')']))
  | binary l o r => '(' :: (l.render ++ o.symbol :: (r.render ++ [')']))

/-! ## Evaluation -/

/-- The value of the expression at `x`. -/
def NumExpr.eval : NumExpr → Int32 → Int32
  | const n, _ => n
  | element, x => x
  | arith l o r, x => o.apply (l.eval x) (r.eval x)

/-- Whether `x` meets the condition. -/
def BoolExpr.eval : BoolExpr → Int32 → Bool
  | rel l o r, x => o.apply (l.eval x) (r.eval x)
  | binary l o r, x => o.apply (l.eval x) (r.eval x)

/-! ## Substitution -/

/-- The expression with `r` in the place of every `element`. -/
def NumExpr.subst : NumExpr → NumExpr → NumExpr
  | const n, _ => const n
  | element, r => r
  | arith a o b, r => arith (a.subst r) o (b.subst r)

/-- The condition with `r` in the place of every `element`. -/
def BoolExpr.subst : BoolExpr → NumExpr → BoolExpr
  | rel a o b, r => rel (a.subst r) o (b.subst r)
  | binary p o q, r => binary (p.subst r) o (q.subst r)

theorem NumExpr.eval_subst (e r : NumExpr) (x : Int32) :
    (e.subst r).eval x = e.eval (r.eval x) := by
  induction e with
  | const n => rfl
  | element => rfl
  | arith a o b iha ihb => simp only [subst, eval, iha, ihb]

theorem BoolExpr.eval_subst (p : BoolExpr) (r : NumExpr) (x : Int32) :
    (p.subst r).eval x = p.eval (r.eval x) := by
  induction p with
  | rel a o b => simp only [subst, eval, NumExpr.eval_subst]
  | binary p o q ihp ihq => simp only [subst, eval, ihp, ihq]

/-! ## The monoid and its action -/

@[simp] theorem NumExpr.element_subst (r : NumExpr) : element.subst r = r := rfl

@[simp] theorem NumExpr.subst_element (e : NumExpr) : e.subst element = e := by
  induction e with
  | const n => rfl
  | element => rfl
  | arith a o b iha ihb => rw [subst, iha, ihb]

theorem NumExpr.subst_subst (e r s : NumExpr) : (e.subst r).subst s = e.subst (r.subst s) := by
  induction e with
  | const n => rfl
  | element => rfl
  | arith a o b iha ihb => simp only [subst, iha, ihb]

@[simp] theorem BoolExpr.subst_element (p : BoolExpr) : p.subst .element = p := by
  induction p with
  | rel a o b => rw [subst, NumExpr.subst_element, NumExpr.subst_element]
  | binary p o q ihp ihq => rw [subst, ihp, ihq]

theorem BoolExpr.subst_subst (p : BoolExpr) (r s : NumExpr) :
    (p.subst r).subst s = p.subst (r.subst s) := by
  induction p with
  | rel a o b => simp only [subst, NumExpr.subst_subst]
  | binary p o q ihp ihq => simp only [subst, ihp, ihq]

end MapFilter
