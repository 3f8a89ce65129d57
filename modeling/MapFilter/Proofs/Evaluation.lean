import MapFilter.Chain.Basic
import Mathlib.Data.Int.ModEq

/-!
# Substitution and wrapping

Maps are fused by substituting one body into the next, and filters are moved past maps by
substituting the body into the condition. Both may be done in any order since substitution composes:
as trees, and not only in what they evaluate to.

The arithmetic of the model wraps around at every node of an expression and at every call of a
chain. It gives the same numbers as arithmetic without bounds that wraps around once, at the end,
since `Int32.ofInt` keeps sums, differences and products.

* **`subst_composes`**: the laws of substitution, on number expressions and on conditions;
* `NumExpr.value`, `composite`: values in the integers, of an expression and of maps one after the
  other;
* `NumExpr.eval_ofInt`, `Chain.apply_maps_ofInt`: wrapping before is wrapping after;
* `eq_ofInt_iff`: a wrapped number is the only one with its remainder;
* **`eval_eq_iff_modEq`**: the two together, for expressions and for maps.
-/

namespace MapFilter

/-! ## Substitution -/

/-- **Substitution composes.** The number expressions are a monoid under substitution, with
`element` as its unit, and act on the conditions; evaluation takes substitution to composition. -/
theorem subst_composes :
    (∀ a : NumExpr, a.subst .element = a ∧ NumExpr.element.subst a = a) ∧
      (∀ a b c : NumExpr, (c.subst b).subst a = c.subst (b.subst a)) ∧
      (∀ p : BoolExpr, p.subst .element = p) ∧
      (∀ (a b : NumExpr) (p : BoolExpr), (p.subst b).subst a = p.subst (b.subst a)) ∧
      (∀ (a c : NumExpr) (x : Int32), (c.subst a).eval x = c.eval (a.eval x)) ∧
      ∀ (a : NumExpr) (p : BoolExpr) (x : Int32), (p.subst a).eval x = p.eval (a.eval x) := by
  refine ⟨fun a => ⟨?_, ?_⟩, fun a b c => ?_, fun p => ?_, fun a b p => ?_, fun a c x => ?_,
    fun a p x => ?_⟩
  · exact NumExpr.subst_element a
  · exact NumExpr.element_subst a
  · exact NumExpr.subst_subst c b a
  · exact BoolExpr.subst_element p
  · exact BoolExpr.subst_subst p b a
  · exact NumExpr.eval_subst c a x
  · exact BoolExpr.eval_subst p a x

-- Substitution into a difference is not the difference substituted.
example : (NumExpr.arith (.const 1) .minus .element).subst (.arith .element .multiply (.const 2)) ≠
    (NumExpr.arith .element .multiply (.const 2)).subst (.arith (.const 1) .minus .element) := by
  decide

/-! ## Values in the integers -/

def ArithOp.exact : ArithOp → Int → Int → Int
  | plus, m, n => m + n
  | minus, m, n => m - n
  | multiply, m, n => m * n

/-- The value of the expression at `n`, in integers without bounds. -/
def NumExpr.value : NumExpr → Int → Int
  | const v, _ => v.toInt
  | element, n => n
  | arith l o r, n => o.exact (l.value n) (r.value n)

/-- What becomes of `n` by the bodies of maps in order, in integers without bounds. -/
def composite : List NumExpr → Int → Int
  | [], n => n
  | e :: es, n => composite es (e.value n)

/-! ## Wrapping before and after -/

theorem ArithOp.apply_ofInt (o : ArithOp) (m n : Int) :
    o.apply (.ofInt m) (.ofInt n) = .ofInt (o.exact m n) := by
  cases o with
  | plus => exact (Int32.ofInt_add m n).symm
  | minus => exact (Int32.ofInt_sub m n).symm
  | multiply => exact (Int32.ofInt_mul m n).symm

theorem NumExpr.eval_ofInt (e : NumExpr) (n : Int) : e.eval (.ofInt n) = .ofInt (e.value n) := by
  induction e with
  | const v => exact (Int32.ofInt_toInt v).symm
  | element => rfl
  | arith l o r ihl ihr => rw [eval, value, ihl, ihr, o.apply_ofInt]

/-- The wrapped number is handed on from map to map in the place of the unbounded one. -/
theorem Chain.apply_maps_ofInt (es : List NumExpr) (n : Int) :
    Chain.apply (es.map .map) (.ofInt n) = some (.ofInt (composite es n)) := by
  induction es generalizing n with
  | nil => rfl
  | cons e es ih =>
    rw [List.map_cons, apply, Call.apply, e.eval_ofInt, Option.bind_some, ih, composite]

/-! ## Remainders -/

theorem eq_ofInt_iff {y : Int32} {n : Int} : y = .ofInt n ↔ y.toInt ≡ n [ZMOD 2 ^ 32] := by
  have hs : ((2 ^ 32 : Nat) : Int) = 2 ^ 32 := rfl
  rw [eq_comm, Int32.ofInt_eq_iff_bmod_eq_toInt, Int.ModEq]
  constructor
  · intro h
    rw [← h, ← hs, Int.bmod_emod]
  · intro h
    -- the balanced remainder is a function of the remainder, and a 32-bit number is its own
    have hy := (Int32.ofInt_eq_iff_bmod_eq_toInt _ _).1 (Int32.ofInt_toInt y)
    rw [← Int.emod_bmod, hs, ← h, ← hs, Int.emod_bmod, hy]

/-- **Wrapping at every step is wrapping once.** The value of an expression is the only 32-bit
number that is congruent to its unbounded value, and the result of maps, however many, is the only
one that is congruent to the unbounded composite of their bodies. -/
theorem eval_eq_iff_modEq :
    (∀ (e : NumExpr) (x y : Int32), y = e.eval x ↔ y.toInt ≡ e.value x.toInt [ZMOD 2 ^ 32]) ∧
      ∀ (es : List NumExpr) (x : Int32), ∃ z, Chain.apply (es.map .map) x = some z ∧
        ∀ y : Int32, y = z ↔ y.toInt ≡ composite es x.toInt [ZMOD 2 ^ 32] := by
  refine ⟨fun e x y => ?_, fun es x => ⟨_, ?_, fun y => eq_ofInt_iff⟩⟩
  · have h := e.eval_ofInt x.toInt
    rw [Int32.ofInt_toInt] at h
    rw [h, eq_ofInt_iff]
  · have h := Chain.apply_maps_ofInt es x.toInt
    rwa [Int32.ofInt_toInt] at h

end MapFilter
