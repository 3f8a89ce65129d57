import MapFilter.Proofs.Rewriting.Confluence
import Mathlib.Algebra.BigOperators.Fin
import Mathlib.Tactic.Ring

/-!
# How large the canonical form grows

A substitution copies an expression to every place where the element is used, so uses multiply: each
map multiplies the uses in all that comes after it. The canonical form has just the uses that follow
from this, and a chain of maps that use the element at most once makes no predicate grow.

* `NumExpr.uses`, `BoolExpr.uses`: how often the element occurs;
* `NumExpr.uses_subst`, `BoolExpr.uses_subst`: substitution multiplies;
* `Chain.factor`, `Chain.weightedUses`: what the maps multiply by, and what the filters come to;
* `Chain.uses_bodyAfter`, `Chain.sum_uses_contributions`: the uses that a walk meets;
* **`Chain.uses_refactor`**: the uses in the canonical form.
-/

namespace MapFilter

/-! ## Uses of the element -/

/-- How often the element occurs in the expression. -/
def NumExpr.uses : NumExpr → Nat
  | const _ => 0
  | element => 1
  | arith a _ b => a.uses + b.uses

/-- How often the element occurs in the condition. -/
def BoolExpr.uses : BoolExpr → Nat
  | rel a _ b => a.uses + b.uses
  | binary p _ q => p.uses + q.uses

theorem NumExpr.uses_subst (e r : NumExpr) : (e.subst r).uses = e.uses * r.uses := by
  induction e with
  | const n => exact (Nat.zero_mul _).symm
  | element => exact (Nat.one_mul _).symm
  | arith a o b iha ihb => simp only [subst, uses, iha, ihb, Nat.add_mul]

theorem BoolExpr.uses_subst (p : BoolExpr) (r : NumExpr) :
    (p.subst r).uses = p.uses * r.uses := by
  induction p with
  | rel a o b => simp only [subst, uses, NumExpr.uses_subst, Nat.add_mul]
  | binary p o q ihp ihq => simp only [subst, uses, ihp, ihq, Nat.add_mul]

/-- Taking a condition apart loses no use. -/
theorem BoolExpr.sum_uses_conjuncts (p : BoolExpr) : (p.conjuncts.map uses).sum = p.uses := by
  induction p with
  | rel a o b => rfl
  | binary p o q ihp ihq =>
    cases o with
    | and => rw [conjuncts, List.map_append, List.sum_append, ihp, ihq, uses]
    | or => rfl

theorem BoolExpr.sum_uses_flatMap_conjuncts (l : List BoolExpr) :
    ((l.flatMap conjuncts).map uses).sum = (l.map uses).sum := by
  induction l with
  | nil => rfl
  | cons p l ih =>
    rw [List.flatMap_cons, List.map_append, List.sum_append, sum_uses_conjuncts, ih, List.map_cons,
      List.sum_cons]

namespace Call

/-- The body of a map. -/
def body? : Call → Option NumExpr
  | map e => some e
  | filter _ => none

/-- How often the element occurs in the predicate. A map has none. -/
def predicateUses : Call → Nat
  | map _ => 0
  | filter p => p.uses

end Call

namespace Chain

/-! ## What the calls of a chain come to -/

/-- The product of the uses in the bodies of the maps. -/
def factor (c : Chain) : Nat := ((c.filterMap Call.body?).map NumExpr.uses).prod

/-- The sum of the uses in the predicates, each as many times as the maps before it multiply. -/
def weightedUses (c : Chain) : Nat :=
  ∑ i : Fin c.length, (c.get i).predicateUses * factor (c.take i)

theorem factor_map_cons (e : NumExpr) (r : Chain) : factor (.map e :: r) = e.uses * factor r :=
  List.prod_cons

theorem weightedUses_cons (a : Call) (r : Chain) : weightedUses (a :: r) =
    a.predicateUses + ∑ i : Fin r.length, (r.get i).predicateUses * factor (a :: r.take i) := by
  have hs : weightedUses (a :: r) = a.predicateUses * factor [] +
      ∑ i : Fin r.length, (r.get i).predicateUses * factor (a :: r.take i) := Fin.sum_univ_succ _
  have h0 : factor [] = 1 := rfl
  rw [hs, h0, Nat.mul_one]

theorem weightedUses_map_cons (e : NumExpr) (r : Chain) :
    weightedUses (.map e :: r) = e.uses * weightedUses r := by
  rw [weightedUses_cons, Call.predicateUses, Nat.zero_add, weightedUses, Finset.mul_sum]
  refine Finset.sum_congr rfl fun i _ => ?_
  rw [factor_map_cons, Nat.mul_left_comm]

theorem weightedUses_filter_cons (p : BoolExpr) (r : Chain) :
    weightedUses (.filter p :: r) = p.uses + weightedUses r := weightedUses_cons _ r

/-- Maps that use the element at most once make nothing larger. -/
theorem weightedUses_le {c : Chain} (h : ∀ e, .map e ∈ c → e.uses ≤ 1) :
    c.weightedUses ≤ (c.map Call.predicateUses).sum := by
  induction c with
  | nil => exact Nat.le_refl 0
  | cons a r ih =>
    have hr := ih fun e he => h e (List.mem_cons_of_mem _ he)
    rw [List.map_cons, List.sum_cons]
    cases a with
    | map e =>
      have he : e.uses ≤ 1 := h e List.mem_cons_self
      calc weightedUses (.map e :: r) = e.uses * weightedUses r := weightedUses_map_cons e r
        _ ≤ 1 * weightedUses r := Nat.mul_le_mul_right _ he
        _ ≤ 0 + (r.map Call.predicateUses).sum := by rwa [Nat.one_mul, Nat.zero_add]
    | filter p =>
      rw [weightedUses_filter_cons]
      exact Nat.add_le_add_left hr p.uses

/-! ## What a walk meets -/

theorem uses_bodyAfter (b : NumExpr) (c : Chain) : (bodyAfter b c).uses = c.factor * b.uses := by
  induction c generalizing b with
  | nil => exact (Nat.one_mul _).symm
  | cons a r ih =>
    cases a with
    | map e =>
      rw [bodyAfter, ih, NumExpr.uses_subst, factor_map_cons]
      ring
    | filter p => exact ih b

theorem sum_uses_contributions (b : NumExpr) (c : Chain) :
    ((contributions b c).map BoolExpr.uses).sum = c.weightedUses * b.uses := by
  induction c generalizing b with
  | nil => exact (Nat.zero_mul _).symm
  | cons a r ih =>
    cases a with
    | map e =>
      rw [contributions, ih, NumExpr.uses_subst, weightedUses_map_cons]
      ring
    | filter p =>
      rw [contributions, List.map_cons, List.sum_cons, ih, BoolExpr.uses_subst,
        weightedUses_filter_cons, Nat.add_mul]

theorem uses_body (c : Chain) : c.body.uses = c.factor :=
  (uses_bodyAfter .element c).trans (Nat.mul_one _)

/-- The filter that a walk ends with has the uses that the walk meets, since `(0=0)` has none. -/
theorem uses_predicate (c : Chain) : c.predicate.uses = c.weightedUses := by
  have hw : ((conjuncts .element c).map BoolExpr.uses).sum = c.weightedUses := by
    rw [conjuncts, BoolExpr.sum_uses_flatMap_conjuncts, sum_uses_contributions]
    exact Nat.mul_one _
  rw [← BoolExpr.sum_uses_conjuncts, conjuncts_predicate, ← hw]
  split_ifs with h
  · rw [h]
    rfl
  · rfl

/-- **The growth of the canonical form.** The uses in the map are the product of those in the maps
of the chain, and one when there is no map. The uses in the filter are the sum of those in the
filters of the chain, each multiplied by the uses in the maps before it, and none when there is no
filter. So the filter does not grow when no map uses the element more than once. -/
theorem uses_refactor (c : Chain) : ∃ p e, c.refactor.chain = [.filter p, .map e] ∧
    e.uses = c.factor ∧
      p.uses = ∑ i : Fin c.length, (c.get i).predicateUses * factor (c.take i) ∧
        ((∀ a, .map a ∈ c → a.uses ≤ 1) → p.uses ≤ (c.map Call.predicateUses).sum) := by
  refine ⟨c.predicate, c.body, refactor_chain c, uses_body c, uses_predicate c, fun h => ?_⟩
  rw [uses_predicate]
  exact weightedUses_le h

/-- Two shifts leave the two uses in a predicate as they are. -/
theorem uses_refactor_two_shifts :
    let m : NumExpr := .arith .element .plus (.const 5)
    let c : Chain := [.map m, .map m, .filter (.rel .element .lessThan .element)]
    (∀ a, .map a ∈ c → a.uses ≤ 1) ∧
      ∃ p e, c.refactor.chain = [.filter p, .map e] ∧ p.uses ≤ 2 := by
  intro m c
  have h : ∀ a, .map a ∈ c → a.uses ≤ 1 := by simp [c, m, NumExpr.uses]
  obtain ⟨p, e, hc, -, -, hp⟩ := uses_refactor c
  exact ⟨h, p, e, hc, hp h⟩

/-- Two squares before a predicate with one use make four of it. -/
example :
    let m : NumExpr := .arith .element .multiply .element
    let c : Chain := [.map m, .map m, .filter (.rel .element .lessThan (.const 9))]
    c.predicate.uses = 4 := by decide

end Chain

end MapFilter
