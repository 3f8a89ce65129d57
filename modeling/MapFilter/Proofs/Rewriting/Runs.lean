import MapFilter.Chain.Canonical
import Mathlib.Data.List.SplitBy

/-!
# Runs of calls of one kind

Fusion works on maximal runs of neighbours of one kind, and leaves a chain in which maps and
filters alternate.

* `Chain.runs`, `Chain.runs_cons`: the first run reaches up to the first call of the other kind;
* `Chain.Alternates`, **`Chain.alternates_fuse`**;
* `Chain.exists_of_firstMap_lt`: in an alternating chain with a call after its first map a filter
  stands next to that map;
* `Chain.FoldsTo`, `Chain.fuse_of_alternates`;
* **`Chain.fuse_eq_runs`**: fusion folds each maximal run to one call.
-/

namespace MapFilter.Chain

/-! ## Maximal runs -/

/-- The maximal runs of neighbours of one kind, in order. -/
def runs (c : Chain) : List Chain := c.splitBy fun a b => a.kind == b.kind

theorem runs_cons (a : Call) (r : Chain) : runs (a :: r) =
    (a :: r.takeWhile (·.kind == a.kind)) :: runs (r.dropWhile (·.kind == a.kind)) := by
  have hk : ∀ d ∈ a :: r.takeWhile (·.kind == a.kind), d.kind = a.kind := by
    intro d hd
    rcases List.mem_cons.1 hd with rfl | hd
    · rfl
    · simpa using List.all_eq_true.1 List.all_takeWhile d hd
  have hc : (a :: r.takeWhile (·.kind == a.kind)).IsChain fun x y => (x.kind == y.kind) = true := by
    refine List.Pairwise.isChain (List.pairwise_of_forall_mem_list fun x hx y hy => ?_)
    rw [hk x hx, hk y hy, beq_self_eq_true]
  have hb : ∀ x ∈ (a :: r.takeWhile (·.kind == a.kind)).getLast?,
      ∀ y ∈ (r.dropWhile (·.kind == a.kind)).head?, (x.kind == y.kind) = false := by
    intro x hx y hy
    have hd := List.head?_dropWhile_not (·.kind == a.kind) r
    rw [Option.mem_def.1 hy] at hd
    rw [hk x (List.mem_of_mem_getLast? hx), BEq.comm]
    simpa using hd
  calc runs (a :: r) = runs (a :: r.takeWhile (·.kind == a.kind) ++
        r.dropWhile (·.kind == a.kind)) := by
        rw [List.cons_append, List.takeWhile_append_dropWhile]
    _ = _ := by
      rw [runs, List.splitBy_append hb, List.splitBy_of_isChain (List.cons_ne_nil _ _) hc]
      rfl

theorem runs_cons_cons_of_ne {a d : Call} (h : d.kind ≠ a.kind) (r : Chain) :
    runs (a :: d :: r) = [a] :: runs (d :: r) := by
  rw [runs_cons, List.takeWhile_cons_of_neg (by simpa using h),
    List.dropWhile_cons_of_neg (by simpa using h)]

theorem runs_cons_cons_of_eq {a d : Call} (h : d.kind = a.kind) (r : Chain) :
    runs (a :: d :: r) =
      (a :: d :: r.takeWhile (·.kind == a.kind)) :: runs (r.dropWhile (·.kind == a.kind)) := by
  rw [runs_cons, List.takeWhile_cons_of_pos (by simpa using h),
    List.dropWhile_cons_of_pos (by simpa using h)]

/-! ## Alternation -/

/-- No two neighbours are of one kind. -/
def Alternates (c : Chain) : Prop := c.IsChain fun a b => a.kind ≠ b.kind

theorem kind_of_fuse? {a d e : Call} (h : a.fuse? d = some e) :
    d.kind = a.kind ∧ e.kind = a.kind := by
  obtain ⟨x, y, rfl, rfl, rfl⟩ | ⟨p, q, rfl, rfl, rfl⟩ := Call.exists_of_fuse? h
  · exact ⟨rfl, rfl⟩
  · exact ⟨rfl, rfl⟩

theorem kind_ne_of_fuse? {a d : Call} (h : a.fuse? d = none) : a.kind ≠ d.kind := by
  obtain ⟨x, q, rfl, rfl⟩ | ⟨p, y, rfl, rfl⟩ := Call.exists_of_fuse?_eq_none h
  · simp [Call.kind]
  · simp [Call.kind]

theorem exists_cons_fuseFrom (a : Call) (r : Chain) :
    ∃ d s, (fuseFrom a r).1 = d :: s ∧ d.kind = a.kind := by
  fun_induction fuseFrom a r with
  | case1 a => exact ⟨a, [], rfl, rfl⟩
  | case2 a d r e h s ih =>
    obtain ⟨x, t, hx, hk⟩ := ih
    exact ⟨x, t, hx, hk.trans (kind_of_fuse? h).2⟩
  | case3 a d r h s ih => exact ⟨a, _, rfl, rfl⟩

theorem alternates_fuseFrom (a : Call) (r : Chain) : Alternates (fuseFrom a r).1 := by
  fun_induction fuseFrom a r with
  | case1 a => exact List.isChain_singleton a
  | case2 a d r e h s ih => exact ih
  | case3 a d r h s ih =>
    obtain ⟨x, t, hx, hk⟩ := exists_cons_fuseFrom d r
    have hs : s.1 = x :: t := hx
    rw [hs] at ih ⊢
    exact List.isChain_cons_cons.2 ⟨hk ▸ kind_ne_of_fuse? h, ih⟩

/-- **Fusion leaves an alternating chain.** -/
theorem alternates_fuse (c : Chain) : Alternates c.fuse.1 := by
  cases c with
  | nil => exact List.isChain_nil
  | cons a r => exact alternates_fuseFrom a r

/-! ## The first map -/

theorem firstMap_fuse_filter (p : BoolExpr) (r : Chain) :
    firstMap (fuse (.filter p :: r)).1 = 1 := by
  obtain ⟨d, s, hs, hk⟩ := exists_cons_fuseFrom (.filter p) r
  rw [fuse, hs]
  cases d with
  | map e => cases hk
  | filter q => rfl

/-- In an alternating chain with a call after its first map there is a filter next to that map. -/
theorem exists_of_firstMap_lt {c : Chain} (h : c.Alternates) (hl : c.firstMap + 1 < c.length) :
    (∃ e p r, c = .map e :: .filter p :: r) ∨
      ∃ q e p r, c = .filter q :: .map e :: .filter p :: r := by
  match c, h, hl with
  | .map e :: .filter p :: r, _, _ => exact .inl ⟨e, p, r, rfl⟩
  | .filter q :: .map e :: .filter p :: r, _, _ => exact .inr ⟨q, e, p, r, rfl⟩
  | .map _ :: .map _ :: _, h, _ => exact absurd rfl (List.isChain_cons_cons.1 h).1
  | .filter _ :: .filter _ :: _, h, _ => exact absurd rfl (List.isChain_cons_cons.1 h).1
  | .filter _ :: .map _ :: .map _ :: _, h, _ =>
    exact absurd rfl (List.isChain_cons_cons.1 (List.isChain_cons_cons.1 h).2).1

/-! ## Fusion by runs -/

/-- A run of calls of one kind, and the call that a fold over it from the left ends with. -/
inductive FoldsTo : Chain → Call → Prop
  | maps (e : NumExpr) (l : List NumExpr) :
    FoldsTo (.map e :: l.map .map) (.map (l.foldl NumExpr.andThen e))
  | filters (p : BoolExpr) (l : List BoolExpr) :
    FoldsTo (.filter p :: l.map .filter) (.filter (l.foldl BoolExpr.conj p))

theorem FoldsTo.single (a : Call) : FoldsTo [a] a := by
  cases a with
  | map e => exact .maps e []
  | filter p => exact .filters p []

theorem FoldsTo.cons_cons {a d e x : Call} {r : Chain} (h : a.fuse? d = some e)
    (hx : FoldsTo (e :: r) x) : FoldsTo (a :: d :: r) x := by
  obtain ⟨y, z, rfl, rfl, rfl⟩ | ⟨p, q, rfl, rfl, rfl⟩ := Call.exists_of_fuse? h
  · cases hx with
    | maps _ l => exact .maps y (z :: l)
  · cases hx with
    | filters _ l => exact .filters p (q :: l)

theorem forall₂_foldsTo_fuseFrom (a : Call) (r : Chain) :
    List.Forall₂ FoldsTo (runs (a :: r)) (fuseFrom a r).1 := by
  fun_induction fuseFrom a r with
  | case1 a => exact .cons (.single a) .nil
  | case2 a d r e h s ih =>
    -- the fused call stands for the first two calls of its run
    obtain ⟨hd, he⟩ := kind_of_fuse? h
    rw [runs_cons, he] at ih
    rw [runs_cons_cons_of_eq hd]
    obtain ⟨x, t, hx, ht, hs⟩ := List.forall₂_cons_left_iff.1 ih
    rw [hs]
    exact .cons (hx.cons_cons h) ht
  | case3 a d r h s ih =>
    rw [runs_cons_cons_of_ne (kind_ne_of_fuse? h).symm]
    exact .cons (.single a) ih

theorem forall₂_foldsTo_fuse (c : Chain) : List.Forall₂ FoldsTo c.runs c.fuse.1 := by
  cases c with
  | nil => exact .nil
  | cons a r => exact forall₂_foldsTo_fuseFrom a r

theorem fuseFrom_of_alternates {a : Call} {r : Chain} (h : Alternates (a :: r)) :
    fuseFrom a r = (a :: r, 0) := by
  fun_induction fuseFrom a r with
  | case1 a => rfl
  | case2 a d r e hf s ih => exact absurd (kind_of_fuse? hf).1.symm (List.isChain_cons_cons.1 h).1
  | case3 a d r hf s ih =>
    have hs : s = (d :: r, 0) := ih (List.isChain_cons_cons.1 h).2
    rw [hs]

/-- An alternating chain has nothing to fuse. -/
theorem fuse_of_alternates {c : Chain} (h : c.Alternates) : c.fuse = (c, 0) := by
  cases c with
  | nil => rfl
  | cons a r => exact fuseFrom_of_alternates h

/-- **Fusion folds the maximal runs**, each to one call in its place. It takes as many steps as
there are calls beyond the first in their run, and a second time there is nothing left to do. -/
theorem fuse_eq_runs (c : Chain) :
    List.Forall₂ FoldsTo c.runs c.fuse.1 ∧ c.fuse.2 + c.runs.length = c.length ∧
      c.fuse.1.Alternates ∧ c.fuse.1.fuse = (c.fuse.1, 0) := by
  have hf := forall₂_foldsTo_fuse c
  have ha := alternates_fuse c
  have hl := length_fuse c
  rw [← hf.length_eq] at hl
  exact ⟨hf, by omega, ha, fuse_of_alternates ha⟩

end MapFilter.Chain
