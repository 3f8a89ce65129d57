import MapFilter.Chain.Basic

/-!
# The canonical form

Every chain acts as one filter followed by one map. `Chain.refactor` finds them by two rules.

Two neighbours of one kind act as a single call: two maps as the map of the composed body, two
filters as the filter of the conjunction. `Chain.fuse` does this from left to right until maps and
filters alternate, and counts how often it did.

A map followed by a filter may change places with it when the filter looks at the mapped element:
the body of the map is substituted into the predicate. Each such exchange removes one inversion, a
pair of a map and a later filter, and fusion adds none, so exchanging and fusing come to an end.

`Chain.refactor` fuses, then moves the first map past the filter after it and fuses again for as
long as there is such a pair, and at the end adds the no-op call of a kind that is missing.

* `NumExpr.andThen`, `BoolExpr.conj`, `Call.fuse?`, `Chain.fuse`;
* `Call.exists_of_fuse?`, `Call.exists_of_fuse?_eq_none`: which neighbours are fused, and which not;
* `Chain.commute`: the exchange at an index, or `none` where there is no map with a filter after it;
* `Chain.exists_of_commute`: which two calls an exchange touches;
* `Chain.length_fuse`: each fusion takes one call away;
* `Chain.inversions`, `Chain.inversions_commute`, `Chain.inversions_fuse_le`;
* `Refactoring`: the new chain, how many steps led to it, and the lengths on the way;
* `Chain.settle`, `Chain.pad`, `Chain.refactor`;
* **`Chain.apply_fuse`**, **`Chain.apply_commute`**, **`Chain.apply_refactor`**: nothing of this
  changes what becomes of an element.
-/

namespace MapFilter

/-! ## Fusion -/

/-- The body of the map that acts as the map of `first` and then the map of `second`. -/
def NumExpr.andThen (first second : NumExpr) : NumExpr := second.subst first

/-- The predicate of the filter that acts as the filter of `first` and then that of `second`. -/
def BoolExpr.conj (first second : BoolExpr) : BoolExpr := .binary first .and second

/-- The one call that acts as `c` and then `d`, when both are of the same kind. -/
def Call.fuse? : Call → Call → Option Call
  | .map a, .map b => some (.map (a.andThen b))
  | .filter p, .filter q => some (.filter (p.conj q))
  | _, _ => none

theorem Call.exists_of_fuse? {c d e : Call} (h : c.fuse? d = some e) :
    (∃ a b, c = .map a ∧ d = .map b ∧ e = .map (a.andThen b)) ∨
      ∃ p q, c = .filter p ∧ d = .filter q ∧ e = .filter (p.conj q) := by
  cases c with
  | map a =>
    cases d with
    | map b => cases h; exact .inl ⟨a, b, rfl, rfl, rfl⟩
    | filter q => cases h
  | filter p =>
    cases d with
    | map b => cases h
    | filter q => cases h; exact .inr ⟨p, q, rfl, rfl, rfl⟩

theorem Call.exists_of_fuse?_eq_none {c d : Call} (h : c.fuse? d = none) :
    (∃ a q, c = .map a ∧ d = .filter q) ∨ ∃ p b, c = .filter p ∧ d = .map b := by
  cases c with
  | map a =>
    cases d with
    | map b => cases h
    | filter q => exact .inl ⟨a, q, rfl, rfl⟩
  | filter p =>
    cases d with
    | map b => exact .inr ⟨p, b, rfl, rfl⟩
    | filter q => cases h

theorem Call.apply_fuse? {c d e : Call} (h : c.fuse? d = some e) (x : Int32) :
    e.apply x = (c.apply x).bind d.apply := by
  obtain ⟨a, b, rfl, rfl, rfl⟩ | ⟨p, q, rfl, rfl, rfl⟩ := exists_of_fuse? h
  · simp [apply, NumExpr.andThen, NumExpr.eval_subst]
  · cases hp : p.eval x <;> simp [apply, BoolExpr.conj, BoolExpr.eval, BoolOp.apply, hp]

namespace Chain

/-- Fuses the chain `c :: r`, comparing each fused call with its new neighbour; gives the result
and the number of fusions. -/
def fuseFrom (c : Call) : Chain → Chain × Nat
  | [] => ([c], 0)
  | d :: r =>
    match c.fuse? d with
    | some e =>
      let s := fuseFrom e r
      (s.1, s.2 + 1)
    | none =>
      let s := fuseFrom d r
      (c :: s.1, s.2)

/-- Fuses every run of calls of one kind; gives the result and the number of fusions. -/
def fuse : Chain → Chain × Nat
  | [] => ([], 0)
  | c :: r => fuseFrom c r

theorem apply_fuseFrom (c : Call) (r : Chain) (x : Int32) :
    Chain.apply (fuseFrom c r).1 x = Chain.apply (c :: r) x := by
  fun_induction fuseFrom c r generalizing x with
  | case1 c => rfl
  | case2 c d r e h s ih =>
    simp only [s, ih, apply, Call.apply_fuse? h, Option.bind_assoc]
  | case3 c d r h s ih =>
    simp only [apply]
    congr 1
    funext y
    simpa [apply] using ih y

/-- **Fusion keeps the behaviour.** -/
theorem apply_fuse (c : Chain) (x : Int32) : Chain.apply c.fuse.1 x = c.apply x := by
  cases c with
  | nil => rfl
  | cons c r => exact apply_fuseFrom c r x

theorem length_fuseFrom (c : Call) (r : Chain) :
    (fuseFrom c r).1.length + (fuseFrom c r).2 = r.length + 1 := by
  fun_induction fuseFrom c r with
  | case1 c => rfl
  | case2 c d r e h s ih => simp only [s, List.length_cons]; omega
  | case3 c d r h s ih => simp only [s, List.length_cons]; omega

theorem length_fuse (c : Chain) : c.fuse.1.length + c.fuse.2 = c.length := by
  cases c with
  | nil => rfl
  | cons c r => simpa [fuse] using length_fuseFrom c r

/-! ## Exchanges -/

/-- The chain in which the map at index `i` and the filter after it have changed places. -/
def commute : Nat → Chain → Option Chain
  | 0, .map e :: .filter p :: r => some (.filter (p.subst e) :: .map e :: r)
  | i + 1, c :: r => (commute i r).map (c :: ·)
  | _, _ => none

theorem exists_of_commute {i : Nat} {c d : Chain} (h : c.commute i = some d) :
    ∃ l e p r, l.length = i ∧ c = l ++ .map e :: .filter p :: r ∧
      d = l ++ .filter (p.subst e) :: .map e :: r := by
  fun_induction commute i c generalizing d with
  | case1 e p r => cases h; exact ⟨[], e, p, r, rfl, rfl, rfl⟩
  | case2 i a r ih =>
    obtain ⟨s, hs, rfl⟩ := Option.map_eq_some_iff.1 h
    obtain ⟨l, e, p, r, rfl, rfl, rfl⟩ := ih hs
    exact ⟨a :: l, e, p, r, rfl, rfl, rfl⟩
  | case3 => cases h

/-- **An exchange keeps the behaviour.** -/
theorem apply_commute {i : Nat} {c d : Chain} (h : c.commute i = some d) (x : Int32) :
    d.apply x = c.apply x := by
  fun_induction commute i c generalizing d x with
  | case1 e p r =>
    cases h
    simp only [apply, Call.apply, BoolExpr.eval_subst, Option.bind_some]
    split <;> rfl
  | case2 i c r ih =>
    obtain ⟨s, hs, rfl⟩ := Option.map_eq_some_iff.1 h
    simp only [apply]
    congr 1
    funext y
    exact ih hs y
  | case3 => cases h

theorem length_commute {i : Nat} {c d : Chain} (h : c.commute i = some d) :
    d.length = c.length := by
  obtain ⟨l, e, p, r, -, rfl, rfl⟩ := exists_of_commute h
  simp

/-! ## Inversions -/

/-- The number of pairs of a map and a filter somewhere after it. -/
def inversions : Chain → Nat
  | [] => 0
  | c :: r => (if c.isMap then r.countP Call.isFilter else 0) + inversions r

theorem inversions_map_cons (e : NumExpr) (r : Chain) :
    inversions (.map e :: r) = r.countP Call.isFilter + inversions r := rfl

theorem inversions_filter_cons (p : BoolExpr) (r : Chain) :
    inversions (.filter p :: r) = inversions r := Nat.zero_add _

theorem countP_filter_commute {i : Nat} {c d : Chain} (h : c.commute i = some d) :
    d.countP Call.isFilter = c.countP Call.isFilter := by
  obtain ⟨l, e, p, r, -, rfl, rfl⟩ := exists_of_commute h
  simp [List.countP_append, List.countP_cons, Call.isFilter]

/-- An exchange removes exactly one inversion. -/
theorem inversions_commute {i : Nat} {c d : Chain} (h : c.commute i = some d) :
    d.inversions + 1 = c.inversions := by
  fun_induction commute i c generalizing d with
  | case1 e p r =>
    cases h
    simp [inversions, List.countP_cons, Call.isFilter, Call.isMap]
    omega
  | case2 i c r ih =>
    obtain ⟨s, hs, rfl⟩ := Option.map_eq_some_iff.1 h
    simp only [inversions, countP_filter_commute hs]
    have := ih hs
    omega
  | case3 => cases h

theorem countP_filter_fuseFrom_le (c : Call) (r : Chain) :
    (fuseFrom c r).1.countP Call.isFilter ≤ (c :: r).countP Call.isFilter := by
  fun_induction fuseFrom c r with
  | case1 c => exact Nat.le_refl _
  | case2 c d r e h s ih =>
    refine Nat.le_trans ih ?_
    obtain ⟨a, b, rfl, rfl, rfl⟩ | ⟨p, q, rfl, rfl, rfl⟩ := Call.exists_of_fuse? h
    · simp [Call.isFilter]
    · simp [List.countP_cons, Call.isFilter]
  | case3 c d r h s ih => simp only [s, List.countP_cons] at ih ⊢; omega

theorem inversions_fuseFrom_le (c : Call) (r : Chain) :
    inversions (fuseFrom c r).1 ≤ inversions (c :: r) := by
  fun_induction fuseFrom c r with
  | case1 c => exact Nat.le_refl _
  | case2 c d r e h s ih =>
    refine Nat.le_trans ih ?_
    obtain ⟨a, b, rfl, rfl, rfl⟩ | ⟨p, q, rfl, rfl, rfl⟩ := Call.exists_of_fuse? h
    · simp [inversions, Call.isFilter, Call.isMap]
    · simp [inversions, Call.isMap]
  | case3 c d r h s ih =>
    have hc := countP_filter_fuseFrom_le d r
    simp only [s, inversions] at ih ⊢
    split <;> omega

/-- Fusion adds no inversion. -/
theorem inversions_fuse_le (c : Chain) : inversions c.fuse.1 ≤ c.inversions := by
  cases c with
  | nil => exact Nat.le_refl _
  | cons c r => exact inversions_fuseFrom_le c r

end Chain

/-! ## Refactoring -/

/-- What refactoring a chain gives. -/
structure Refactoring where
  /-- The chain in canonical form. -/
  chain : Chain
  /-- How many pairs of neighbours were fused. -/
  fusions : Nat
  /-- How many maps were moved past a filter. -/
  commutations : Nat
  /-- The length of the chain after each move and the fusions that it led to. -/
  lengths : List Nat

namespace Chain

/-- Moves the map at index `i` past the filter after it and fuses, then goes on from index 1, until
there is no call after the index or no such pair at it. -/
def settle (i : Nat) (c : Chain) : Refactoring :=
  if i + 1 < c.length then
    match h : c.commute i with
    | none => ⟨c, 0, 0, []⟩
    | some d =>
      let s := d.fuse
      let r := settle 1 s.1
      ⟨r.chain, s.2 + r.fusions, r.commutations + 1, s.1.length :: r.lengths⟩
  else ⟨c, 0, 0, []⟩
-- an exchange removes an inversion, and the fusions after it add none
termination_by c.inversions
decreasing_by
  have := inversions_commute h
  have := inversions_fuse_le d
  omega

/-- Adds the no-op call of a kind that a chain of at most one call lacks. -/
def pad : Chain → Chain
  | [] => [Call.noOpFilter, Call.noOpMap]
  | [.map e] => [Call.noOpFilter, .map e]
  | [.filter p] => [.filter p, Call.noOpMap]
  | c => c

/-- The index at which a fused chain has its first map: after the leading filter, if there is one. -/
def firstMap : Chain → Nat
  | .filter _ :: _ => 1
  | _ => 0

/-- The chain as one filter followed by one map. -/
def refactor (c : Chain) : Refactoring :=
  let s := c.fuse
  let r := settle s.1.firstMap s.1
  { r with chain := r.chain.pad, fusions := s.2 + r.fusions }

theorem apply_settle (i : Nat) (c : Chain) (x : Int32) :
    (settle i c).chain.apply x = c.apply x := by
  fun_induction settle i c with
  | case1 i c hi h => rfl
  | case2 i c hi d h s r ih => rw [ih, apply_fuse, apply_commute h]
  | case3 i c hi => rfl

theorem apply_pad (c : Chain) (x : Int32) : c.pad.apply x = c.apply x := by
  have h0 : BoolExpr.alwaysTrue.eval x = true := by
    simp [BoolExpr.alwaysTrue, BoolExpr.eval, NumExpr.eval, RelOp.apply]
  fun_cases pad c with
  | case1 => simp [apply, Call.noOpFilter, Call.noOpMap, Call.apply, NumExpr.eval, h0]
  | case2 e => simp [apply, Call.noOpFilter, Call.apply, h0]
  | case3 p => cases hp : p.eval x <;> simp [apply, Call.noOpMap, Call.apply, NumExpr.eval, hp]
  | case4 c => rfl

/-- **Refactoring keeps the behaviour.** -/
theorem apply_refactor (c : Chain) (x : Int32) : c.refactor.chain.apply x = c.apply x := by
  simp only [refactor, apply_pad, apply_settle, apply_fuse]

end Chain

end MapFilter
