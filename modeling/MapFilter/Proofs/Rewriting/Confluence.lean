import MapFilter.Editing
import MapFilter.Proofs.Rewriting.Walk

/-!
# Confluence of the rewriting engine

Among the steps in the life of a chain are those of the rewriting engine: a chain is fused, has a
map moved past the filter after it at some index, or is brought into canonical form. They may be
taken as often as one likes and in any order. The map of the canonical form stays the same, and so
do the conjuncts of its filter, in their order; only the parentheses between them may change. What
all the steps keep is the outcome of a walk through the chain, taken up to parentheses.

* `Step`, `Chain.step`, `Chain.steps`;
* `Chain.apply_step`, **`Chain.apply_steps`**: no run changes what becomes of an element;
* `BoolExpr.conjuncts`: the parts of a condition that `&` joins;
* `Chain.conjuncts`: the conjuncts of all the predicates that a walk meets;
* `Chain.conjuncts_predicate`: they are those of the filter that the walk ends with, unless there is
  no filter on the way;
* `Chain.body_step`, `Chain.conjuncts_predicate_step`: what a step keeps;
* **`Chain.refactor_steps`**: the canonical form after any run.
-/

namespace MapFilter

/-! ## Steps -/

/-- A step of the rewriting engine. -/
inductive Step where
  /-- Fuses every run of calls of one kind. -/
  | fuse
  /-- Moves the map at an index past the filter after it, if there is such a pair. -/
  | commute (index : Nat)
  /-- Brings the chain into canonical form. -/
  | refactor
deriving DecidableEq

/-- The step among all those in the life of a chain. -/
def Step.edit : Step → Edit
  | fuse => .fuse
  | commute i => .commute i
  | refactor => .refactor

namespace Chain

/-- The chain after a step. -/
def step (c : Chain) (s : Step) : Chain := (c.edit s.edit).2

/-- The chain after a sequence of steps. -/
def steps : Chain → List Step → Chain
  | c, [] => c
  | c, s :: l => steps (c.step s) l

theorem step_fuse (c : Chain) : c.step .fuse = c.fuse.1 := rfl

/-- Where there is no map with a filter after it, the chain stays as it is. -/
theorem step_commute (c : Chain) (i : Nat) : c.step (.commute i) = (c.commute i).getD c := by
  rw [step, Step.edit, edit]
  cases c.commute i with
  | none => rfl
  | some d => rfl

theorem step_refactor (c : Chain) : c.step .refactor = c.refactor.chain := rfl

theorem apply_step (c : Chain) (s : Step) (x : Int32) : (c.step s).apply x = c.apply x := by
  cases s with
  | fuse => rw [step_fuse, apply_fuse]
  | commute i =>
    rw [step_commute]
    cases h : c.commute i with
    | none => rfl
    | some d => rw [Option.getD_some, apply_commute h]
  | refactor => rw [step_refactor, apply_refactor]

/-- **No run changes what becomes of an element**: what was rejected is rejected, and what was kept
has the same value. -/
theorem apply_steps (c : Chain) (l : List Step) (x : Int32) : (c.steps l).apply x = c.apply x := by
  induction l generalizing c with
  | nil => rfl
  | cons s l ih => rw [steps, ih, apply_step]

end Chain

/-! ## Conjuncts -/

/-- The conjuncts of a condition, in order: its parts when every `&` that is reached from the root
through `&` alone is taken apart. -/
def BoolExpr.conjuncts : BoolExpr → List BoolExpr
  | binary p .and q => p.conjuncts ++ q.conjuncts
  | p => [p]

theorem BoolExpr.conjuncts_ne_nil (p : BoolExpr) : p.conjuncts ≠ [] := by
  induction p with
  | rel a o b => exact List.cons_ne_nil _ _
  | binary p o q ihp ihq =>
    cases o with
    | and =>
      intro h
      exact ihp (List.append_eq_nil_iff.1 h).1
    | or => exact List.cons_ne_nil _ _

theorem BoolExpr.conjuncts_foldl_conj (p : BoolExpr) (l : List BoolExpr) :
    (l.foldl conj p).conjuncts = p.conjuncts ++ l.flatMap conjuncts := by
  induction l generalizing p with
  | nil => rw [List.foldl_nil, List.flatMap_nil, List.append_nil]
  | cons q l ih =>
    have hc : (p.conj q).conjuncts = p.conjuncts ++ q.conjuncts := rfl
    rw [List.foldl_cons, ih, hc, List.flatMap_cons, List.append_assoc]

theorem BoolExpr.conjuncts_conjoin? (l : List BoolExpr) :
    (conjoin? l).toList.flatMap conjuncts = l.flatMap conjuncts := by
  cases l with
  | nil => rfl
  | cons p l =>
    rw [conjoin?, Option.toList_some, List.flatMap_singleton, conjuncts_foldl_conj,
      List.flatMap_cons]

namespace Chain

/-! ## What a walk meets, up to parentheses -/

/-- The conjuncts of all the predicates that a walk meets, in order. -/
def conjuncts (b : NumExpr) (c : Chain) : List BoolExpr :=
  (contributions b c).flatMap BoolExpr.conjuncts

theorem contributions_append (b : NumExpr) (s t : Chain) :
    contributions b (s ++ t) = contributions b s ++ contributions (bodyAfter b s) t := by
  induction s generalizing b with
  | nil => rfl
  | cons a s ih =>
    cases a with
    | map e => exact ih (e.subst b)
    | filter p =>
      have h := ih b
      rw [List.cons_append, contributions, h]
      rfl

theorem flatten_contributionsOf (b : NumExpr) (l : List Chain) :
    (contributionsOf b l).flatten = contributions b l.flatten := by
  induction l generalizing b with
  | nil => rfl
  | cons s l ih =>
    rw [contributionsOf, List.flatten_cons, ih, List.flatten_cons, contributions_append]

/-- Parting a chain into runs and joining the predicates of each changes no conjunct. -/
theorem flatMap_conditions (b : NumExpr) (c : Chain) :
    (conditions b c).flatMap BoolExpr.conjuncts = conjuncts b c := by
  have hl : ∀ l : List (List BoolExpr), (l.filterMap BoolExpr.conjoin?).flatMap BoolExpr.conjuncts =
      l.flatten.flatMap BoolExpr.conjuncts := by
    intro l
    induction l with
    | nil => rfl
    | cons s l ih =>
      have hs := BoolExpr.conjuncts_conjoin? s
      rw [List.flatten_cons, List.flatMap_append, ← hs, ← ih]
      cases h : BoolExpr.conjoin? s with
      | none => rw [List.filterMap_cons_none h]; rfl
      | some p =>
        rw [List.filterMap_cons_some h, List.flatMap_cons, Option.toList_some,
          List.flatMap_singleton]
  have hr : c.runs.flatten = c := List.flatten_splitBy _ c
  rw [conditions, hl, flatten_contributionsOf, hr, conjuncts]

/-- The filter that a walk ends with has the conjuncts that the walk meets, and `(0=0)` when it meets
none. -/
theorem conjuncts_predicate (c : Chain) : c.predicate.conjuncts =
    if conjuncts .element c = [] then [.alwaysTrue] else conjuncts .element c := by
  have h := flatMap_conditions .element c
  unfold predicate
  cases hc : conditions .element c with
  | nil =>
    rw [hc, List.flatMap_nil] at h
    rw [← h, if_pos rfl]
    rfl
  | cons p l =>
    have hp : (BoolExpr.conjoin? (p :: l)).getD .alwaysTrue = l.foldl BoolExpr.conj p := rfl
    rw [hc, List.flatMap_cons, ← BoolExpr.conjuncts_foldl_conj] at h
    rw [hp, ← h, if_neg (BoolExpr.conjuncts_ne_nil _)]

/-! ## What a step keeps -/

theorem conjuncts_commute {i : Nat} {c d : Chain} (h : c.commute i = some d) (b : NumExpr) :
    conjuncts b d = conjuncts b c := by
  unfold conjuncts
  congr 1
  -- a map in front changes the body that the rest starts with
  fun_induction commute i c generalizing d b with
  | case1 e p r =>
    cases h
    simp only [contributions, BoolExpr.subst_subst]
  | case2 i a r ih =>
    obtain ⟨s, hs, rfl⟩ := Option.map_eq_some_iff.1 h
    cases a with
    | map e => exact ih hs (e.subst b)
    | filter p => exact congrArg (p.subst b :: ·) (ih hs b)
  | case3 => cases h

theorem bodyAfter_commute {i : Nat} {c d : Chain} (h : c.commute i = some d) (b : NumExpr) :
    bodyAfter b d = bodyAfter b c := by
  fun_induction commute i c generalizing d b with
  | case1 e p r => cases h; rfl
  | case2 i a r ih =>
    obtain ⟨s, hs, rfl⟩ := Option.map_eq_some_iff.1 h
    cases a with
    | map e => exact ih hs (e.subst b)
    | filter p => exact ih hs b
  | case3 => cases h

theorem body_step (c : Chain) (s : Step) : (c.step s).body = c.body := by
  cases s with
  | fuse => rw [step_fuse, body_fuse]
  | commute i =>
    rw [step_commute]
    cases h : c.commute i with
    | none => rfl
    | some d => exact bodyAfter_commute h .element
  | refactor => rw [step_refactor, refactor_chain, body_filter_map]

theorem conjuncts_predicate_step (c : Chain) (s : Step) :
    (c.step s).predicate.conjuncts = c.predicate.conjuncts := by
  cases s with
  | fuse => rw [step_fuse, predicate_fuse]
  | commute i =>
    rw [step_commute]
    cases h : c.commute i with
    | none => rfl
    | some d => rw [Option.getD_some, conjuncts_predicate, conjuncts_commute h, conjuncts_predicate]
  | refactor => rw [step_refactor, refactor_chain, predicate_filter_map]

theorem body_steps (c : Chain) (l : List Step) : (c.steps l).body = c.body := by
  induction l generalizing c with
  | nil => rfl
  | cons s l ih => rw [steps, ih, body_step]

theorem conjuncts_predicate_steps (c : Chain) (l : List Step) :
    (c.steps l).predicate.conjuncts = c.predicate.conjuncts := by
  induction l generalizing c with
  | nil => rfl
  | cons s l ih => rw [steps, ih, conjuncts_predicate_step]

/-- **Confluence.** Whatever steps are taken first, the canonical form has the same map, and a filter
with the same conjuncts in the same order. -/
theorem refactor_steps (c : Chain) (l : List Step) : ∃ p q e,
    c.refactor.chain = [.filter p, .map e] ∧
      (c.steps l).refactor.chain = [.filter q, .map e] ∧ q.conjuncts = p.conjuncts := by
  refine ⟨c.predicate, (c.steps l).predicate, c.body, refactor_chain c, ?_,
    conjuncts_predicate_steps c l⟩
  rw [refactor_chain, body_steps]

/-- The parentheses do depend on the order: with the exchange first, the first two of three filters
are joined, and otherwise the last two. -/
example :
    let p : BoolExpr := .rel .element .lessThan (.const 0)
    let c : Chain := [.filter p, Call.noOpMap, .filter p, .filter p]
    c.predicate = p.conj (p.conj p) ∧ (c.steps [.commute 1]).predicate = (p.conj p).conj p := by
  decide

end Chain

end MapFilter
