import MapFilter.Proofs.Rewriting.Confluence
import Mathlib.Algebra.BigOperators.Group.Finset.Piecewise
import Mathlib.Algebra.BigOperators.Group.Finset.Sigma

/-!
# Exchanges in any order

An exchange takes away one inverted pair, a map and a filter somewhere after it, and keeps what the
chain looks like once all its filters stand in front. So exchanges come to an end after as many as
there are inverted pairs, and always in the same chain.

* `Chain.inverted`, `Chain.card_inverted`: the inverted pairs, as many as `Chain.inversions` counts;
* `Chain.Exhausted`, `Chain.exhausted_iff`: there is nothing left to exchange, and no inverted pair;
* `Chain.gathered`, `Chain.gathered_commute`: all filters in front, which an exchange keeps;
* `Chain.commutes`, `Chain.exchanged`: a run of exchanges, and how many of them found a pair;
* **`Chain.commutes_confluent`**: every run that ends ends in one way.
-/

namespace MapFilter.Chain

variable {c d : Chain} {i : Nat}

/-! ## One exchange -/

theorem edit_commute_eq_true_iff :
    c.edit (.commute i) = (.verdict true, d) ↔ c.commute i = some d := by
  rw [edit]
  cases c.commute i with
  | none => simp
  | some e => simp

theorem edit_commute_eq_false_iff :
    c.edit (.commute i) = (.verdict false, d) ↔ c.commute i = none ∧ c = d := by
  rw [edit]
  cases c.commute i with
  | none => simp
  | some e => simp

theorem getElem?_commute {xs ys : Chain} (h : xs.commute i = some ys) {j : Nat} (hi : j ≠ i)
    (hj : j ≠ i + 1) : ys[j]? = xs[j]? := by
  obtain ⟨l, e, p, r, rfl, rfl, rfl⟩ := exists_of_commute h
  by_cases hl : j < l.length
  · rw [List.getElem?_append_left hl, List.getElem?_append_left hl]
  · obtain ⟨k, rfl⟩ : ∃ k, j = l.length + (k + 2) := ⟨j - (l.length + 2), by omega⟩
    rw [List.getElem?_append_right (by omega), List.getElem?_append_right (by omega),
      Nat.add_sub_cancel_left]
    rfl

/-! ## Inverted pairs -/

/-- The pairs of places of a map and a filter somewhere after it. -/
def inverted (xs : Chain) : Finset (Nat × Nat) :=
  (Finset.range xs.length ×ˢ Finset.range xs.length).filter fun q =>
    q.1 < q.2 ∧ xs[q.1]?.any Call.isMap ∧ xs[q.2]?.any Call.isFilter

theorem sum_isFilter (xs : Chain) :
    ∑ j ∈ Finset.range xs.length, (if xs[j]?.any Call.isFilter then 1 else 0) =
      xs.countP Call.isFilter := by
  induction xs with
  | nil => rfl
  | cons a r ih => rw [List.length_cons, Finset.sum_range_succ', List.countP_cons, ← ih]; rfl

theorem card_inverted (c : Chain) : c.inverted.card = c.inversions := by
  unfold inverted
  rw [Finset.card_filter, Finset.sum_product]
  induction c with
  | nil => rfl
  | cons a r ih =>
    -- a pair has its map in front, or it is a pair of the rest
    rw [List.length_cons, Finset.sum_range_succ', inversions, ← ih, ← sum_isFilter, Nat.add_comm]
    simp only [Finset.sum_range_succ', List.getElem?_cons_succ, List.getElem?_cons_zero,
      Nat.add_lt_add_iff_right, Nat.not_lt_zero, Nat.succ_pos, false_and, true_and, if_false,
      Nat.add_zero, Option.any_some]
    congr 1
    by_cases ha : a.isMap
    · simp only [ha, true_and, if_true]
    · simp only [ha, Bool.false_eq_true, false_and, if_false, Finset.sum_const_zero]

/-- Where there is an inverted pair, some map has a filter right after it. -/
theorem exists_commute_of_inversions_pos (h : 0 < c.inversions) : ∃ i d, c.commute i = some d := by
  induction c with
  | nil => cases h
  | cons a r ih =>
    by_cases hr : 0 < inversions r
    · obtain ⟨i, d, hd⟩ := ih hr
      exact ⟨i + 1, a :: d, by rw [commute, hd]; rfl⟩
    · match a, r with
      | .filter p, r => exact absurd (inversions_filter_cons p r ▸ h) hr
      | .map e, [] => cases h
      | .map e, .filter p :: r => exact ⟨0, _, rfl⟩
      | .map e, .map f :: r =>
        -- a filter after the first map comes after the second one too
        have hc : List.countP Call.isFilter (.map f :: r) = List.countP Call.isFilter r := rfl
        rw [inversions_map_cons, inversions_map_cons, hc] at h
        rw [inversions_map_cons] at hr
        omega

/-- There is no index with a pair to exchange. -/
def Exhausted (c : Chain) : Prop := ∀ i, c.commute i = none

theorem exhausted_iff : c.Exhausted ↔ c.inversions = 0 := by
  constructor
  · intro h
    by_contra hc
    obtain ⟨i, d, hd⟩ := exists_commute_of_inversions_pos (Nat.pos_of_ne_zero hc)
    rw [h i] at hd
    cases hd
  · intro h i
    cases hd : c.commute i with
    | none => rfl
    | some d =>
      have hi := inversions_commute hd
      omega

/-! ## The chain that is left -/

/-- The predicates of the filters, in order, where the bodies of the maps before a filter are put in
the place of its element one after the other, from the nearest map to the farthest. The list `b`
holds the bodies of maps that stand before the chain, the nearest one first. -/
def substituted (b : List NumExpr) : Chain → List BoolExpr
  | [] => []
  | .map e :: r => substituted (e :: b) r
  | .filter p :: r => b.foldl BoolExpr.subst p :: substituted b r

/-- All the filters, with the maps before them substituted, and then all the maps as they are. -/
def gathered (c : Chain) : Chain := (substituted [] c).map .filter ++ c.filter Call.isMap

theorem substituted_commute (h : c.commute i = some d) (b : List NumExpr) :
    substituted b d = substituted b c := by
  -- a map in front is one more to substitute into what follows
  fun_induction commute i c generalizing d b with
  | case1 e p r => cases h; rfl
  | case2 i a r ih =>
    obtain ⟨s, hs, rfl⟩ := Option.map_eq_some_iff.1 h
    cases a with
    | map e => exact ih hs (e :: b)
    | filter p => exact congrArg (b.foldl BoolExpr.subst p :: ·) (ih hs b)
  | case3 => cases h

theorem filter_isMap_commute (h : c.commute i = some d) :
    d.filter Call.isMap = c.filter Call.isMap := by
  obtain ⟨l, e, p, r, -, rfl, rfl⟩ := exists_of_commute h
  rw [List.filter_append, List.filter_append]
  rfl

theorem gathered_commute (h : c.commute i = some d) : d.gathered = c.gathered := by
  rw [gathered, substituted_commute h, filter_isMap_commute h, gathered]

theorem substituted_of_countP_eq_zero (h : c.countP Call.isFilter = 0) (b : List NumExpr) :
    substituted b c = [] ∧ c.filter Call.isMap = c := by
  induction c generalizing b with
  | nil => exact ⟨rfl, rfl⟩
  | cons a r ih =>
    cases a with
    | map e =>
      obtain ⟨hs, hf⟩ := ih h (e :: b)
      exact ⟨hs, by rw [List.filter_cons_of_pos rfl, hf]⟩
    | filter p =>
      rw [List.countP_cons_of_pos rfl] at h
      cases h

/-- A chain with all its filters in front is its own gathered form. -/
theorem gathered_of_inversions_eq_zero (h : c.inversions = 0) : c.gathered = c := by
  induction c with
  | nil => rfl
  | cons a r ih =>
    cases a with
    | map e =>
      rw [inversions_map_cons] at h
      obtain ⟨hs, hf⟩ := substituted_of_countP_eq_zero (Nat.eq_zero_of_add_eq_zero_right h) [e]
      rw [gathered, substituted, hs, List.filter_cons_of_pos rfl, hf]
      rfl
    | filter p =>
      rw [inversions_filter_cons] at h
      exact congrArg (.filter p :: ·) (ih h)

/-! ## Runs of exchanges -/

/-- The chain after exchanges at the given indexes, one after the other. -/
def commutes (c : Chain) (l : List Nat) : Chain := c.steps (l.map .commute)

/-- How many of the exchanges at the given indexes, one after the other, find a pair. -/
def exchanged : Chain → List Nat → Nat
  | _, [] => 0
  | c, i :: l => (c.commute i).isSome.toNat + exchanged (c.step (.commute i)) l

theorem commutes_cons (c : Chain) (i : Nat) (l : List Nat) :
    c.commutes (i :: l) = (c.step (.commute i)).commutes l := rfl

theorem inversions_step_commute (c : Chain) (i : Nat) :
    (c.commute i).isSome.toNat + (c.step (.commute i)).inversions = c.inversions := by
  rw [step_commute]
  cases hd : c.commute i with
  | none => exact Nat.zero_add _
  | some d => exact (Nat.add_comm _ _).trans (inversions_commute hd)

theorem gathered_step_commute (c : Chain) (i : Nat) :
    (c.step (.commute i)).gathered = c.gathered := by
  rw [step_commute]
  cases hd : c.commute i with
  | none => rfl
  | some d => exact gathered_commute hd

/-- What a run leaves of the inversions is what it has not removed one by one. -/
theorem exchanged_add_inversions (c : Chain) (l : List Nat) :
    c.exchanged l + (c.commutes l).inversions = c.inversions := by
  induction l generalizing c with
  | nil => exact Nat.zero_add _
  | cons i l ih =>
    have hl := ih (c.step (.commute i))
    have hi := inversions_step_commute c i
    rw [commutes_cons, exchanged]
    omega

theorem gathered_commutes (c : Chain) (l : List Nat) : (c.commutes l).gathered = c.gathered := by
  induction l generalizing c with
  | nil => rfl
  | cons i l ih => exact (ih _).trans (gathered_step_commute c i)

/-- Some run ends. The inversions that are left get fewer as long as there are any. -/
theorem exists_exhausted (c : Chain) : ∃ l, (c.commutes l).Exhausted := by
  induction hn : c.inversions using Nat.strong_induction_on generalizing c with
  | _ n ih =>
    by_cases h : c.inversions = 0
    · exact ⟨[], exhausted_iff.2 h⟩
    · obtain ⟨i, d, hd⟩ := exists_commute_of_inversions_pos (Nat.pos_of_ne_zero h)
      have hi := inversions_commute hd
      obtain ⟨l, hl⟩ := ih d.inversions (by omega) d rfl
      refine ⟨i :: l, ?_⟩
      rw [commutes_cons, step_commute, hd]
      exact hl

/-- **Exchanges end, and in one way.** One that succeeds takes away one inverted pair and touches
two calls, and one that fails changes nothing. So no run has more successes than there are inverted
pairs, and a run after which nothing can be exchanged has exactly as many and ends in the gathered
chain. -/
theorem commutes_confluent (xs : Chain) :
    (∀ i ys, xs.edit (.commute i) = (.verdict true, ys) →
        ys.inverted.card + 1 = xs.inverted.card ∧ ys.length = xs.length ∧
          ∀ j, j ≠ i → j ≠ i + 1 → ys[j]? = xs[j]?) ∧
      (∀ i ys, xs.edit (.commute i) = (.verdict false, ys) → ys = xs) ∧
      (∀ l, xs.exchanged l ≤ xs.inverted.card) ∧
      (∀ l, (xs.commutes l).Exhausted →
        xs.exchanged l = xs.inverted.card ∧ xs.commutes l = xs.gathered) ∧
      ∃ l, (xs.commutes l).Exhausted := by
  simp only [card_inverted]
  refine ⟨fun i ys h => ?_, fun i ys h => ?_, fun l => ?_, fun l h => ?_, exists_exhausted xs⟩
  · have hd := edit_commute_eq_true_iff.1 h
    exact ⟨inversions_commute hd, length_commute hd, fun j => getElem?_commute hd⟩
  · exact (edit_commute_eq_false_iff.1 h).2.symm
  · have hl := exchanged_add_inversions xs l
    omega
  · have hl := exchanged_add_inversions xs l
    have h0 := exhausted_iff.1 h
    refine ⟨by omega, ?_⟩
    rw [← gathered_commutes xs l, gathered_of_inversions_eq_zero h0]

/-- Past two maps a filter moves with the nearer one put into it first. -/
theorem commutes_confluent_two_maps :
    let e : NumExpr := .arith .element .plus (.const 1)
    let f : NumExpr := .arith .element .multiply (.const 2)
    let p : BoolExpr := .rel .element .greaterThan (.const 0)
    let c : Chain := [.map e, .map f, .filter p]
    (c.edit (.commute 1)).2.inverted.card + 1 = c.inverted.card ∧ (c.edit (.commute 0)).2 = c ∧
      c.commutes [0, 1, 0] = [.filter ((p.subst f).subst e), .map e, .map f] := by
  intro e f p c
  obtain ⟨ht, hf, -, he, -⟩ := commutes_confluent c
  exact ⟨(ht 1 _ rfl).1, hf 0 _ rfl, (he [0, 1, 0] (exhausted_iff.2 (by decide))).2⟩

end MapFilter.Chain
