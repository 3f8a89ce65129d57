import MapFilter.Proofs.Rewriting.Walk

/-!
# How many steps refactoring takes

Each fusion takes one call away and leaves at least one call of its kind. Each exchange in the loop
of `Chain.refactor` takes away one place where a filter stands right after a map, and makes no new
one. At the end there is at most one call of each kind and no such place, which settles both counts.

After each exchange and the fusions that it leads to, the chain begins with a filter. From then on
an exchange brings two filters together, so each turn of the loop makes the chain shorter, until a
filter and a map are left. Only the first exchange may lead to no fusion.

* `Chain.junctions`: the number of those places;
* `Chain.Reached`: what the loop comes to between two of its turns;
* `Chain.LoopInvariant`, `Chain.Reached.invariant`: what every turn keeps;
* `Chain.LoopInvariant.exists_commute`: while the condition of the loop holds, there is a pair to
  exchange;
* **`Chain.refactor_counts`**: the two counts, the end of the loop, and the chains that stay as they
  are;
* `Chain.two_le_length_turn`, `Chain.length_turn_lt`: what a turn does to the length;
* `Chain.Descends`: lengths that become smaller down to two;
* **`Chain.descends_refactor`**: the lengths that refactoring notes.
-/

namespace MapFilter

namespace Chain

/-! ## Kinds and lengths -/

theorem mem_kinds_fuseFrom {k : Call.Kind} {a : Call} {r : Chain} :
    k ∈ (fuseFrom a r).1.map Call.kind ↔ k ∈ (a :: r).map Call.kind := by
  fun_induction fuseFrom a r with
  | case1 a => exact Iff.rfl
  | case2 a d r e h s ih =>
    obtain ⟨hd, he⟩ := kind_of_fuse? h
    simp only [s, ih, List.map_cons, List.mem_cons, hd, he, or_self_left]
  | case3 a d r h s ih =>
    simp only [s, List.map_cons, List.mem_cons] at ih ⊢
    rw [ih]

/-- Fusion keeps a call of each kind that there was. -/
theorem mem_kinds_fuse {k : Call.Kind} {c : Chain} :
    k ∈ c.fuse.1.map Call.kind ↔ k ∈ c.map Call.kind := by
  cases c with
  | nil => exact Iff.rfl
  | cons a r => exact mem_kinds_fuseFrom

theorem perm_kinds_commute {i : Nat} {c d : Chain} (h : c.commute i = some d) :
    (d.map Call.kind).Perm (c.map Call.kind) := by
  obtain ⟨l, e, p, r, -, rfl, rfl⟩ := exists_of_commute h
  rw [List.map_append, List.map_append]
  exact .append_left _ (.swap _ _ _)

theorem countP_isMap_pos (c : Chain) : 0 < c.countP Call.isMap ↔ .map ∈ c.map Call.kind := by
  rw [List.countP_pos_iff, List.mem_map]
  refine exists_congr fun a => and_congr_right fun _ => ?_
  cases a <;> simp [Call.isMap, Call.kind]

theorem countP_isFilter_pos (c : Chain) :
    0 < c.countP Call.isFilter ↔ .filter ∈ c.map Call.kind := by
  rw [List.countP_pos_iff, List.mem_map]
  refine exists_congr fun a => and_congr_right fun _ => ?_
  cases a <;> simp [Call.isFilter, Call.kind]

theorem length_eq_countP (c : Chain) :
    c.length = c.countP Call.isMap + c.countP Call.isFilter := by
  rw [List.length_eq_countP_add_countP Call.isMap]
  congr 1
  refine List.countP_congr fun a _ => ?_
  cases a <;> simp [Call.isMap, Call.isFilter]

/-! ## Filters right after a map -/

/-- The number of places where a filter stands right after a map. -/
def junctions (c : Chain) : Nat := (c.zip c.tail).countP fun q => q.1.isMap && q.2.isFilter

theorem junctions_cons_cons (a d : Call) (r : Chain) :
    junctions (a :: d :: r) =
      junctions (d :: r) + if a.kind = .map ∧ d.kind = .filter then 1 else 0 := by
  cases a <;> cases d <;> simp [junctions, Call.kind, Call.isMap, Call.isFilter]

theorem junctions_le_countP (c : Chain) : c.junctions ≤ c.countP Call.isMap := by
  induction c with
  | nil => exact Nat.le_refl _
  | cons a r ih =>
    cases r with
    | nil => exact Nat.zero_le _
    | cons d r =>
      rw [junctions_cons_cons, List.countP_cons]
      cases a with
      | map e => split <;> simp only [Call.isMap, if_pos] <;> omega
      | filter p => simpa [Call.kind] using Nat.le_add_right_of_le ih

theorem junctions_cons_congr {a b : Call} (h : a.kind = b.kind) (r : Chain) :
    junctions (a :: r) = junctions (b :: r) := by
  cases r with
  | nil => rfl
  | cons d r => rw [junctions_cons_cons, junctions_cons_cons, h]

theorem junctions_filter_cons (p : BoolExpr) (r : Chain) :
    junctions (.filter p :: r) = junctions r := by
  cases r with
  | nil => rfl
  | cons d r => rw [junctions_cons_cons, if_neg (by simp [Call.kind]), Nat.add_zero]

theorem junctions_fuseFrom (a : Call) (r : Chain) :
    junctions (fuseFrom a r).1 = junctions (a :: r) := by
  fun_induction fuseFrom a r with
  | case1 a => rfl
  | case2 a d r e h s ih =>
    obtain ⟨hd, he⟩ := kind_of_fuse? h
    have hn : ¬(a.kind = .map ∧ d.kind = .filter) := by
      rintro ⟨h1, h2⟩
      rw [hd, h1] at h2
      cases h2
    rw [junctions_cons_cons, if_neg hn, Nat.add_zero, junctions_cons_congr (hd.trans he.symm)]
    exact ih
  | case3 a d r h s ih =>
    obtain ⟨x, t, hx, hk⟩ := exists_cons_fuseFrom d r
    have hs : s.1 = x :: t := hx
    rw [hs] at ih ⊢
    rw [junctions_cons_cons, junctions_cons_cons, ih, hk]

theorem junctions_fuse (c : Chain) : junctions c.fuse.1 = c.junctions := by
  cases c with
  | nil => rfl
  | cons a r => exact junctions_fuseFrom a r

/-- A filter between a map and what is not a filter makes one junction. -/
theorem junctions_map_filter (e : NumExpr) (p : BoolExpr) {r : Chain}
    (h : Alternates (.filter p :: r)) :
    junctions (.map e :: r) + 1 = junctions (.map e :: .filter p :: r) := by
  rw [junctions_cons_cons, if_pos ⟨rfl, rfl⟩, junctions_filter_cons]
  cases r with
  | nil => rfl
  | cons x r =>
    cases x with
    | map y => rw [junctions_cons_cons, if_neg (by simp [Call.kind])]
    | filter q => exact absurd rfl (List.isChain_cons_cons.1 h).1

/-- An exchange at the first map removes the junction there and makes no new one. -/
theorem junctions_commute_firstMap {c d : Chain} (h : c.Alternates)
    (hl : c.firstMap + 1 < c.length) (hd : c.commute c.firstMap = some d) :
    d.junctions + 1 = c.junctions := by
  obtain ⟨e, p, r, rfl⟩ | ⟨q, e, p, r, rfl⟩ := exists_of_firstMap_lt h hl
  · cases hd
    rw [junctions_filter_cons, junctions_map_filter e p (List.isChain_cons_cons.1 h).2]
  · cases hd
    rw [junctions_filter_cons, junctions_filter_cons, junctions_filter_cons]
    exact junctions_map_filter e p (List.isChain_cons_cons.1 (List.isChain_cons_cons.1 h).2).2

/-! ## The loop -/

/-- How far the loop has come between two of its turns. -/
structure Progress where
  /-- Where the next turn looks for a map with a filter after it. -/
  index : Nat
  chain : Chain
  fusions : Nat
  commutations : Nat

/-- What the loop comes to on a chain: it starts after a first fusion, and each turn is an exchange
and the fusions that it leads to. -/
inductive Reached (c : Chain) : Progress → Prop
  | start : Reached c ⟨firstMap c.fuse.1, c.fuse.1, c.fuse.2, 0⟩
  | turn {s : Progress} {d : Chain} (h : Reached c s) (hl : s.index + 1 < s.chain.length)
    (hd : s.chain.commute s.index = some d) :
    Reached c ⟨1, d.fuse.1, s.fusions + d.fuse.2, s.commutations + 1⟩

/-- What every turn of the loop on `c` keeps. -/
structure LoopInvariant (c : Chain) (s : Progress) : Prop where
  alternates : s.chain.Alternates
  index_eq : s.index = s.chain.firstMap
  length_eq : s.fusions + s.chain.length = c.length
  junctions_eq : s.commutations + s.chain.junctions = c.junctions
  kinds (k : Call.Kind) : k ∈ s.chain.map Call.kind ↔ k ∈ c.map Call.kind

variable {c : Chain} {s : Progress}

theorem loopInvariant_start (c : Chain) :
    LoopInvariant c ⟨firstMap c.fuse.1, c.fuse.1, c.fuse.2, 0⟩ where
  alternates := alternates_fuse c
  index_eq := rfl
  length_eq := by rw [Nat.add_comm, length_fuse]
  junctions_eq := by rw [Nat.zero_add, junctions_fuse]
  kinds _ := mem_kinds_fuse

theorem LoopInvariant.turn (h : LoopInvariant c s) (hl : s.index + 1 < s.chain.length) {d : Chain}
    (hd : s.chain.commute s.index = some d) :
    LoopInvariant c ⟨1, d.fuse.1, s.fusions + d.fuse.2, s.commutations + 1⟩ := by
  have hj := h.junctions_eq
  have hn := h.length_eq
  rw [← length_commute hd, ← length_fuse d] at hn
  have hk := perm_kinds_commute hd
  rw [h.index_eq] at hl hd
  rw [← junctions_commute_firstMap h.alternates hl hd, ← junctions_fuse d] at hj
  refine ⟨alternates_fuse d, ?_, ?_, ?_, fun k => ?_⟩
  · exact (walk_of_commute_firstMap h.alternates hl hd).2.2.symm
  · simp only; omega
  · simp only; omega
  · rw [← h.kinds, ← hk.mem_iff, mem_kinds_fuse]

theorem Reached.invariant (h : Reached c s) : LoopInvariant c s := by
  induction h with
  | start => exact loopInvariant_start c
  | turn h hl hd ih => exact ih.turn hl hd

/-- While the condition of the loop holds, there is a pair to exchange. -/
theorem LoopInvariant.exists_commute (h : LoopInvariant c s) (hl : s.index + 1 < s.chain.length) :
    ∃ d, s.chain.commute s.index = some d := by
  rw [h.index_eq] at hl ⊢
  obtain ⟨e, p, r, hc⟩ | ⟨q, e, p, r, hc⟩ := exists_of_firstMap_lt h.alternates hl
  · rw [hc]
    exact ⟨_, rfl⟩
  · rw [hc]
    exact ⟨_, rfl⟩

/-- The loop leads from any progress on to an end. -/
theorem Reached.exists_end (h : Reached c s) : ∃ u, Reached c u ∧
    (u.index + 1 < u.chain.length → u.chain.commute u.index = none) ∧
      u.chain = (settle s.index s.chain).chain ∧
        u.fusions = s.fusions + (settle s.index s.chain).fusions ∧
          u.commutations = s.commutations + (settle s.index s.chain).commutations := by
  obtain ⟨i, d, m, n⟩ := s
  simp only
  fun_induction settle i d generalizing m n with
  | case1 i d hl hd => exact ⟨_, h, fun _ => hd, rfl, rfl, rfl⟩
  | case2 i d hl e he t r ih =>
    obtain ⟨u, hu, hx, hc, hf, hn⟩ := ih _ _ (h.turn hl he)
    refine ⟨u, hu, hx, hc, ?_, ?_⟩
    · rw [hf, Nat.add_assoc]
    · rw [hn, Nat.add_assoc, Nat.add_comm 1]
  | case3 i d hl => exact ⟨_, h, fun hl' => absurd hl' hl, rfl, rfl, rfl⟩

/-- The loop ends because its condition fails, with the counts and the chain of `refactor`. -/
theorem exists_reached_refactor (c : Chain) : ∃ s, Reached c s ∧
    ¬s.index + 1 < s.chain.length ∧ s.chain.pad = c.refactor.chain ∧
      s.fusions = c.refactor.fusions ∧ s.commutations = c.refactor.commutations := by
  obtain ⟨s, hs, hx, hc, hf, hn⟩ := Reached.start (c := c).exists_end
  refine ⟨s, hs, fun hl => ?_, congrArg pad hc, hf, hn.trans (Nat.zero_add _)⟩
  obtain ⟨d, hd⟩ := hs.invariant.exists_commute hl
  rw [hx hl] at hd
  cases hd

/-- An alternating chain that ends with its first map at the latest. -/
theorem counts_of_le_firstMap {c : Chain} (h : c.Alternates) (hl : ¬c.firstMap + 1 < c.length) :
    c.countP Call.isMap ≤ 1 ∧ c.countP Call.isFilter ≤ 1 ∧ c.junctions = 0 := by
  match c, h, hl with
  | [], _, _ => exact ⟨Nat.zero_le 1, Nat.zero_le 1, rfl⟩
  | [.map e], _, _ => exact ⟨Nat.le_refl 1, Nat.zero_le 1, rfl⟩
  | [.filter p], _, _ => exact ⟨Nat.zero_le 1, Nat.le_refl 1, rfl⟩
  | [.filter p, .map e], _, _ => exact ⟨Nat.le_refl 1, Nat.le_refl 1, rfl⟩
  | .map _ :: _ :: _, _, hl => exact absurd (by simp [firstMap]) hl
  | .filter _ :: _ :: _ :: _, _, hl => exact absurd (by simp [firstMap]) hl
  | [.filter _, .filter _], h, _ => exact absurd rfl (List.isChain_cons_cons.1 h).1

/-- At the end of the loop at most one call of each kind is left, and none of a kind that there was
not. -/
theorem LoopInvariant.counts (h : LoopInvariant c s) (hl : ¬s.index + 1 < s.chain.length) :
    s.fusions = (c.countP Call.isMap - 1) + (c.countP Call.isFilter - 1) ∧
      s.commutations = c.junctions := by
  have hn := h.length_eq
  have hj := h.junctions_eq
  have hm := (countP_isMap_pos s.chain).trans ((h.kinds .map).trans (countP_isMap_pos c).symm)
  have hf :=
    (countP_isFilter_pos s.chain).trans ((h.kinds .filter).trans (countP_isFilter_pos c).symm)
  rw [h.index_eq] at hl
  obtain ⟨hm1, hf1, hj0⟩ := counts_of_le_firstMap h.alternates hl
  rw [length_eq_countP, length_eq_countP] at hn
  omega

theorem refactor_chain_eq_self_iff {c : Chain} :
    c.refactor.chain = c ↔ ∃ p e, c = [.filter p, .map e] := by
  constructor
  · intro h
    exact ⟨_, _, h.symm.trans (refactor_chain c)⟩
  · rintro ⟨p, e, rfl⟩
    exact refactor_filter_map p e

/-- **The counts of refactoring.** There are as many fusions as maps beyond the first and filters
beyond the first, and as many exchanges as there are filters right after a map. The loop always ends
because its condition fails, never for want of a pair to exchange. Only a filter and a map stay as
they are, and then nothing is counted. -/
theorem refactor_counts (c : Chain) :
    c.refactor.fusions = (c.countP Call.isMap - 1) + (c.countP Call.isFilter - 1) ∧
      c.refactor.commutations = c.junctions ∧
      c.refactor.commutations ≤ c.countP Call.isMap ∧
      (∀ s, Reached c s → s.index + 1 < s.chain.length → s.chain.commute s.index ≠ none) ∧
      (∃ s, Reached c s ∧ ¬s.index + 1 < s.chain.length ∧ s.chain.pad = c.refactor.chain ∧
        s.fusions = c.refactor.fusions ∧ s.commutations = c.refactor.commutations) ∧
      (c.refactor.chain = c ↔ ∃ p e, c = [.filter p, .map e]) ∧
      (c.refactor.chain = c → c.refactor.fusions = 0 ∧ c.refactor.commutations = 0) := by
  obtain ⟨s, hs, hl, hc, hf, hn⟩ := exists_reached_refactor c
  obtain ⟨hF, hC⟩ := hs.invariant.counts hl
  rw [hf] at hF
  rw [hn] at hC
  refine ⟨hF, hC, hC ▸ junctions_le_countP c, fun u hu hl' => ?_, ⟨s, hs, hl, hc, hf, hn⟩,
    refactor_chain_eq_self_iff, fun h => ?_⟩
  · obtain ⟨d, hd⟩ := hu.invariant.exists_commute hl'
    rw [hd]
    exact Option.some_ne_none d
  · obtain ⟨p, e, rfl⟩ := refactor_chain_eq_self_iff.1 h
    exact ⟨hF, hC⟩

/-- The loop starts with an exchange on two maps that each have a filter after them, and has nothing
to do on a filter and a map. -/
theorem refactor_counts_start :
    commute 0 [Call.noOpMap, Call.noOpFilter, Call.noOpMap, Call.noOpFilter] ≠ none ∧
      (refactor [Call.noOpFilter, Call.noOpMap]).fusions = 0 ∧
      (refactor [Call.noOpFilter, Call.noOpMap]).commutations = 0 :=
  ⟨(refactor_counts [Call.noOpMap, Call.noOpFilter, Call.noOpMap, Call.noOpFilter]).2.2.2.1
      _ .start (by decide),
    (refactor_counts [Call.noOpFilter, Call.noOpMap]).2.2.2.2.2.2 (refactor_filter_map _ _)⟩

end Chain

/-! ## The lengths on the way -/

namespace Chain

/-- Each number is smaller than the one before it, and the last one is two. -/
structure Descends (l : List Nat) : Prop where
  pairwise : l.Pairwise (· > ·)
  getLast? : ∀ n ∈ l.getLast?, n = 2

theorem descends_nil : Descends [] := ⟨.nil, by simp⟩

theorem Descends.cons {n : Nat} {l : List Nat} (h : Descends l) (hn : ∀ k ∈ l, k < n)
    (h2 : l = [] → n = 2) : Descends (n :: l) := by
  refine ⟨List.pairwise_cons.2 ⟨hn, h.pairwise⟩, ?_⟩
  cases l with
  | nil => simpa using h2 rfl
  | cons k l => simpa [List.getLast?_cons_cons] using h.getLast?

/-! ## One turn -/

variable {c d : Chain}

/-- An exchange has a map and a filter, and fusion leaves one of each. -/
theorem two_le_length_turn {i : Nat} (h : c.commute i = some d) : 2 ≤ d.fuse.1.length := by
  obtain ⟨l, e, p, r, -, -, rfl⟩ := exists_of_commute h
  have hm : 0 < (fuse (l ++ .filter (p.subst e) :: .map e :: r)).1.countP Call.isMap := by
    rw [countP_isMap_pos, mem_kinds_fuse]
    simp [Call.kind]
  have hf : 0 < (fuse (l ++ .filter (p.subst e) :: .map e :: r)).1.countP Call.isFilter := by
    rw [countP_isFilter_pos, mem_kinds_fuse]
    simp [Call.kind]
  rw [length_eq_countP]
  omega

/-- Behind a filter an exchange brings two filters together, which are then fused. -/
theorem length_turn_lt (h : c.Alternates) (hl : c.firstMap + 1 < c.length)
    (hd : c.commute c.firstMap = some d) (h1 : c.firstMap = 1) : d.fuse.1.length < c.length := by
  obtain ⟨e, p, r, rfl⟩ | ⟨q, e, p, r, rfl⟩ := exists_of_firstMap_lt h hl
  · cases h1
  · cases hd
    have hf := length_fuse (.filter q :: .filter (p.subst e) :: .map e :: r)
    have hs : (fuse (.filter q :: .filter (p.subst e) :: .map e :: r)).2 =
        (fuseFrom (.filter (q.conj (p.subst e))) (.map e :: r)).2 + 1 := rfl
    simp only [List.length_cons] at hf ⊢
    omega

/-! ## All turns -/

theorem descends_settle (h : c.Alternates) :
    Descends (settle c.firstMap c).lengths ∧
      ((settle c.firstMap c).lengths = [] → c.length ≤ c.firstMap + 1) ∧
        (c.firstMap = 1 → ∀ n ∈ (settle c.firstMap c).lengths, n < c.length) := by
  generalize hi : c.firstMap = i
  fun_induction settle i c with
  | case1 i c hl hd =>
    subst hi
    obtain ⟨e, p, r, rfl⟩ | ⟨q, e, p, r, rfl⟩ := exists_of_firstMap_lt h hl <;> cases hd
  | case2 i c hl d hd s r ih =>
    subst hi
    obtain ⟨-, -, hf⟩ := walk_of_commute_firstMap h hl hd
    obtain ⟨hD, h0, hlt⟩ := ih (alternates_fuse d) hf
    have h2 := two_le_length_turn hd
    refine ⟨hD.cons (hlt rfl) fun hn => ?_, by rintro ⟨⟩, fun h1 => ?_⟩
    · exact Nat.le_antisymm (h0 hn) h2
    · have hlen := length_turn_lt h hl hd h1
      intro n hn
      rcases List.mem_cons.1 hn with rfl | hn
      · exact hlen
      · exact Nat.lt_trans (hlt rfl n hn) hlen
  | case3 i c hl => exact ⟨descends_nil, fun _ => by omega, by simp⟩

theorem length_lengths_settle (i : Nat) (c : Chain) :
    (settle i c).lengths.length = (settle i c).commutations := by
  fun_induction settle i c with
  | case1 i c hl hd => rfl
  | case2 i c hl d hd s r ih => exact congrArg (· + 1) ih
  | case3 i c hl => rfl

/-- **The lengths that refactoring notes**, one for each exchange, become smaller from turn to turn,
down to two. -/
theorem descends_refactor (c : Chain) :
    c.refactor.lengths.length = c.refactor.commutations ∧ Descends c.refactor.lengths :=
  ⟨length_lengths_settle _ _, (descends_settle (alternates_fuse c)).1⟩

end Chain

end MapFilter
