import MapFilter.Proofs.Rewriting.Runs

/-!
# The canonical form in one walk

One walk through a chain finds what fusing and exchanging find in many turns. It keeps the body of
all the maps so far, as an expression of the element at the start, and puts it into each predicate.

* `Chain.bodyAfter`, `Chain.contributions`: the body after a walk, and the predicates on the way;
* `Chain.conditions`: the conjunction of the predicates of each run of filters;
* `Chain.predicate`, `Chain.body`: the filter and the map that the walk ends with;
* `Chain.conditions_fuse`, `Chain.bodyAfter_fuse`: fusion changes neither;
* **`Chain.refactor_eq_walk`**: the canonical form is that filter and that map.
-/

namespace MapFilter

/-- The conjunction of predicates, nested to the left, if there is one. -/
def BoolExpr.conjoin? : List BoolExpr → Option BoolExpr
  | [] => none
  | p :: l => some (l.foldl conj p)

namespace Chain

/-! ## The walk -/

/-- The body at the end of a walk that starts with the body `b`. -/
def bodyAfter (b : NumExpr) : Chain → NumExpr
  | [] => b
  | .map e :: r => bodyAfter (e.subst b) r
  | .filter _ :: r => bodyAfter b r

/-- The predicates that a walk meets, each with the body at that point in it. -/
def contributions (b : NumExpr) : Chain → List BoolExpr
  | [] => []
  | .map e :: r => contributions (e.subst b) r
  | .filter p :: r => p.subst b :: contributions b r

/-- The predicates that a walk meets in each part of a chain. -/
def contributionsOf (b : NumExpr) : List Chain → List (List BoolExpr)
  | [] => []
  | s :: l => contributions b s :: contributionsOf (bodyAfter b s) l

/-- The condition of each maximal run of filters, in order. -/
def conditions (b : NumExpr) (c : Chain) : List BoolExpr :=
  (contributionsOf b c.runs).filterMap BoolExpr.conjoin?

/-- The conjunction of all conditions, `(0=0)` when there is none. -/
def predicate (c : Chain) : BoolExpr :=
  (BoolExpr.conjoin? (c.conditions .element)).getD .alwaysTrue

/-- The body of all the maps. -/
def body (c : Chain) : NumExpr := c.bodyAfter .element

/-! ## The conditions by recursion on the chain -/

variable (b : NumExpr)

theorem conditions_nil : conditions b [] = [] := rfl

/-- A map changes what the conditions after it are about, and nothing else. -/
theorem conditions_map (e : NumExpr) (r : Chain) :
    conditions b (.map e :: r) = conditions (e.subst b) r := by
  cases r with
  | nil => rfl
  | cons d r =>
    cases d with
    | map a =>
      rw [conditions, conditions, runs_cons_cons_of_eq (a := .map e) (d := .map a) rfl, runs_cons]
      rfl
    | filter p =>
      rw [conditions, runs_cons_cons_of_ne (by simp [Call.kind])]
      rfl

theorem conditions_filter_nil (p : BoolExpr) : conditions b [.filter p] = [p.subst b] := rfl

theorem conditions_filter_map (p : BoolExpr) (e : NumExpr) (r : Chain) :
    conditions b (.filter p :: .map e :: r) = p.subst b :: conditions b (.map e :: r) := by
  rw [conditions, runs_cons_cons_of_ne (by simp [Call.kind])]
  rfl

/-- Two filters in a row count as the filter of the conjunction. -/
theorem conditions_filter_filter (p q : BoolExpr) (r : Chain) :
    conditions b (.filter p :: .filter q :: r) = conditions b (.filter (p.conj q) :: r) := by
  rw [conditions, conditions, runs_cons_cons_of_eq (a := .filter p) (d := .filter q) rfl, runs_cons]
  rfl

theorem conditions_fuseFrom (a : Call) (r : Chain) :
    conditions b (fuseFrom a r).1 = conditions b (a :: r) := by
  -- a map in front changes the body that the rest starts with
  fun_induction fuseFrom a r generalizing b with
  | case1 a => rfl
  | case2 a d r e h s ih =>
    have hs : s.1 = (fuseFrom e r).1 := rfl
    rw [hs, ih]
    obtain ⟨x, y, rfl, rfl, rfl⟩ | ⟨p, q, rfl, rfl, rfl⟩ := Call.exists_of_fuse? h
    · rw [conditions_map, conditions_map, conditions_map, NumExpr.andThen, NumExpr.subst_subst]
    · rw [conditions_filter_filter]
  | case3 a d r h s ih =>
    have hs : s.1 = (fuseFrom d r).1 := rfl
    rw [hs]
    obtain ⟨x, q, rfl, rfl⟩ | ⟨p, y, rfl, rfl⟩ := Call.exists_of_fuse?_eq_none h
    · rw [conditions_map, conditions_map, ih]
    · -- the fused rest still begins with a map, so the run of the filter ends before it
      obtain ⟨z, t, hz, hk⟩ := exists_cons_fuseFrom (.map y) r
      cases z with
      | map z => rw [hz, conditions_filter_map, ← hz, ih, conditions_filter_map]
      | filter q => cases hk

theorem bodyAfter_fuseFrom (a : Call) (r : Chain) :
    bodyAfter b (fuseFrom a r).1 = bodyAfter b (a :: r) := by
  fun_induction fuseFrom a r generalizing b with
  | case1 a => rfl
  | case2 a d r e h s ih =>
    have hs : s.1 = (fuseFrom e r).1 := rfl
    rw [hs, ih]
    obtain ⟨x, y, rfl, rfl, rfl⟩ | ⟨p, q, rfl, rfl, rfl⟩ := Call.exists_of_fuse? h
    · simp only [bodyAfter, NumExpr.andThen, NumExpr.subst_subst]
    · rfl
  | case3 a d r h s ih =>
    cases a with
    | map e => exact ih _
    | filter p => exact ih _

theorem conditions_fuse (c : Chain) : conditions b c.fuse.1 = conditions b c := by
  cases c with
  | nil => rfl
  | cons a r => exact conditions_fuseFrom b a r

theorem bodyAfter_fuse (c : Chain) : bodyAfter b c.fuse.1 = bodyAfter b c := by
  cases c with
  | nil => rfl
  | cons a r => exact bodyAfter_fuseFrom b a r

theorem predicate_fuse (c : Chain) : predicate c.fuse.1 = c.predicate := by
  rw [predicate, conditions_fuse, predicate]

theorem body_fuse (c : Chain) : body c.fuse.1 = c.body := bodyAfter_fuse .element c

/-! ## The turns of the engine -/

theorem conditions_commute_map (e : NumExpr) (p : BoolExpr) {r : Chain}
    (h : Alternates (.filter p :: r)) : conditions b (.filter (p.subst e) :: .map e :: r) =
      conditions b (.map e :: .filter p :: r) := by
  rw [conditions_filter_map, conditions_map, conditions_map, BoolExpr.subst_subst]
  cases r with
  | nil => rfl
  | cons d r =>
    cases d with
    | map a => rw [conditions_filter_map]
    | filter q => exact absurd rfl (List.isChain_cons_cons.1 h).1

/-- A turn of the engine changes neither the filter nor the map that the walk finds, and leaves a
chain that begins with a filter. -/
theorem walk_of_commute_firstMap {c d : Chain} (h : c.Alternates)
    (hl : c.firstMap + 1 < c.length) (hd : c.commute c.firstMap = some d) :
    d.predicate = c.predicate ∧ d.body = c.body ∧ firstMap d.fuse.1 = 1 := by
  obtain ⟨e, p, r, rfl⟩ | ⟨q, e, p, r, rfl⟩ := exists_of_firstMap_lt h hl
  · cases hd
    have hr := conditions_commute_map .element e p (List.isChain_cons_cons.1 h).2
    refine ⟨?_, rfl, firstMap_fuse_filter _ _⟩
    rw [predicate, hr, predicate]
  · cases hd
    have hr := conditions_commute_map .element e p
      (List.isChain_cons_cons.1 (List.isChain_cons_cons.1 h).2).2
    refine ⟨?_, rfl, firstMap_fuse_filter _ _⟩
    rw [predicate, predicate, conditions_filter_filter, conditions_filter_map,
      conditions_filter_map, ← hr, conditions_filter_map]
    rfl

/-- At the end of the turns at most a filter and a map are left, and each is what the walk finds. -/
theorem pad_eq_walk {c : Chain} (h : c.Alternates) (hl : ¬c.firstMap + 1 < c.length) :
    c.pad = [.filter c.predicate, .map c.body] := by
  cases c with
  | nil => rfl
  | cons a r =>
    cases a with
    | map e =>
      have hr : r = [] := by simpa [firstMap] using hl
      subst hr
      rw [predicate, conditions_map, body, bodyAfter, NumExpr.subst_element]
      rfl
    | filter p =>
      cases r with
      | nil =>
        rw [predicate, conditions_filter_nil, BoolExpr.subst_element]
        rfl
      | cons d r =>
        have hr : r = [] := by simpa [firstMap] using hl
        subst hr
        cases d with
        | map e =>
          rw [predicate, conditions_filter_map, conditions_map, BoolExpr.subst_element, body,
            bodyAfter, bodyAfter, NumExpr.subst_element]
          rfl
        | filter q => exact absurd rfl (List.isChain_cons_cons.1 h).1

/-- The turns lead from an alternating chain to what the walk finds in it: no turn changes that, and
the fusion after it makes the chain alternate again. -/
theorem pad_settle {c : Chain} (h : c.Alternates) :
    (settle c.firstMap c).chain.pad = [.filter c.predicate, .map c.body] := by
  generalize hi : c.firstMap = i
  fun_induction settle i c with
  | case1 i c hl hd =>
    -- an alternating chain with a call after its first map has a pair to exchange
    subst hi
    obtain ⟨e, p, r, rfl⟩ | ⟨q, e, p, r, rfl⟩ := exists_of_firstMap_lt h hl <;> cases hd
  | case2 i c hl d hd s r ih =>
    subst hi
    obtain ⟨hp, hb, hf⟩ := walk_of_commute_firstMap h hl hd
    rw [← hp, ← hb, ← predicate_fuse d, ← body_fuse d]
    exact ih (alternates_fuse d) hf
  | case3 i c hl =>
    subst hi
    exact pad_eq_walk h hl

theorem refactor_chain (c : Chain) : c.refactor.chain = [.filter c.predicate, .map c.body] := by
  rw [← predicate_fuse, ← body_fuse]
  exact pad_settle (alternates_fuse c)

/-- The walk through a filter and a map ends with them. -/
theorem predicate_filter_map (p : BoolExpr) (e : NumExpr) :
    predicate [.filter p, .map e] = p := by
  rw [predicate, conditions_filter_map, conditions_map, BoolExpr.subst_element]
  rfl

theorem body_filter_map (p : BoolExpr) (e : NumExpr) : body [.filter p, .map e] = e := by
  rw [body, bodyAfter, bodyAfter, NumExpr.subst_element]
  rfl

/-- A filter and a map are a canonical form already. -/
theorem refactor_filter_map (p : BoolExpr) (e : NumExpr) :
    (refactor [.filter p, .map e]).chain = [.filter p, .map e] := by
  rw [refactor_chain, predicate_filter_map, body_filter_map]

theorem predicate_of_forall_isMap {c : Chain} (h : ∀ d ∈ c, d.isMap) :
    c.predicate = .alwaysTrue := by
  have hc : ∀ b, conditions b c = [] := by
    induction c with
    | nil => exact conditions_nil
    | cons a r ih =>
      intro b
      cases a with
      | map e => rw [conditions_map, ih fun d hd => h d (List.mem_cons_of_mem _ hd)]
      | filter p => exact absurd (h (.filter p) List.mem_cons_self) (by simp [Call.isMap])
  rw [predicate, hc]
  rfl

theorem body_of_forall_isFilter {c : Chain} (h : ∀ d ∈ c, d.isFilter) : c.body = .element := by
  unfold body
  induction c with
  | nil => rfl
  | cons a r ih =>
    cases a with
    | map e => exact absurd (h (.map e) List.mem_cons_self) (by simp [Call.isFilter])
    | filter p => exact ih fun d hd => h d (List.mem_cons_of_mem _ hd)

/-- **The canonical form is the filter and the map that one walk finds.** The filter is `(0=0)` when
the chain has none, and the map is `element` when it has none. -/
theorem refactor_eq_walk (c : Chain) :
    c.refactor.chain = [.filter c.predicate, .map c.body] ∧
      ((∀ d ∈ c, d.isMap) → c.predicate = .alwaysTrue) ∧
      ((∀ d ∈ c, d.isFilter) → c.body = .element) :=
  ⟨refactor_chain c, predicate_of_forall_isMap, body_of_forall_isFilter⟩

/-- Two maps are padded with `(0=0)`, and two filters with `element`. -/
theorem refactor_eq_walk_one_kind :
    predicate [.map (.arith .element .plus (.const 1)), Call.noOpMap] = .alwaysTrue ∧
      body [.filter (.rel .element .lessThan (.const 0)), Call.noOpFilter] = .element :=
  ⟨(refactor_eq_walk _).2.1 (by decide), (refactor_eq_walk _).2.2 (by decide)⟩

end Chain

end MapFilter
