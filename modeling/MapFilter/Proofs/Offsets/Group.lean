import MapFilter.Proofs.Offsets.Cut

/-!
# Groups are shortest balanced beginnings

The group at the start of a text is found by counting the parentheses that are open. The count
follows the difference of opening and closing parentheses so far, so it comes down to zero where the
text is balanced for the first time, and the search stops there.

* `Balanced`, `ShortestBalanced`: what a group is, without a search;
* `groupEnd`: the search with a count and a byte offset, and `groupEnd_eq`: what it finds;
* `count_of_closing?`, `count_le_of_closing?`: the parentheses up to the end of a search, and in a
  text where it finds none; `lt_or_group?`: what is open behind each beginning;
* `group?_eq_some_iff`, `group?_eq_none_iff`: when there is a group, and which;
* **`group?_shortest`**: all of this, and the groups that expressions are.
-/

namespace MapFilter

/-! ## Balance -/

/-- As many opening as closing parentheses. -/
def Balanced (s : List Char) : Prop := s.count '(' = s.count ')'

/-- `g` is the shortest balanced beginning of `t`, apart from the empty one. -/
structure ShortestBalanced (g t : List Char) : Prop where
  begins : g <+: t
  ne_nil : g ≠ []
  balanced : Balanced g
  least : ∀ q, q <+: t → q ≠ [] → Balanced q → g.length ≤ q.length

/-! ## Counting what is open -/

/-- The offset behind the group in which `depth` parentheses are open at byte `k`. After each
parenthesis the search stops if none is open. -/
def groupEnd : Nat → Nat → List Char → Except Mishap (Option Nat)
  | _, _, [] => .ok none
  | depth, k, c :: s => do
    if c = '(' ∨ c = ')' then
      let depth ← if c = '(' then .ok (depth + 1) else minus depth 1
      if depth = 0 then return some (k + 1)
      groupEnd depth (k + c.utf8Size) s
    else groupEnd depth (k + c.utf8Size) s

variable {depth k : Nat} {s : List Char}

theorem groupEnd_open :
    groupEnd depth k ('(' :: s) = groupEnd (depth + 1) (k + '('.utf8Size) s := rfl

theorem groupEnd_last : groupEnd 1 k (')' :: s) = .ok (some (k + ')'.utf8Size)) := rfl

theorem groupEnd_close :
    groupEnd (depth + 2) k (')' :: s) = groupEnd (depth + 1) (k + ')'.utf8Size) s := rfl

theorem groupEnd_other {c : Char} (ho : c ≠ '(') (hc : c ≠ ')') :
    groupEnd depth k (c :: s) = groupEnd depth (k + c.utf8Size) s := by
  rw [groupEnd, if_neg (not_or.2 ⟨ho, hc⟩)]

/-- Characters that `closing?` does not look for, in the words of its last equation. -/
theorem ne_close {c : Char} (h0 : depth = 0 → c = ')' → False)
    (h1 : ∀ d : Nat, depth = d.succ → c = ')' → False) : c ≠ ')' := by
  cases depth with
  | zero => exact h0 rfl
  | succ d => exact h1 d rfl

/-- The search with a count finds the end of the group, and the count never falls below zero. -/
theorem groupEnd_eq (depth k : Nat) (s : List Char) :
    groupEnd (depth + 1) k s = .ok ((closing? depth s).map fun p => k + byteLength p.1) := by
  fun_induction closing? depth s generalizing k with
  | case1 => rfl
  | case2 => exact groupEnd_last
  | case3 depth s ih =>
    rw [groupEnd_close, ih, Option.map_map]
    simp only [Function.comp_def, byteLength_cons, Nat.add_assoc]
  | case4 depth s ih =>
    rw [groupEnd_open, ih, Option.map_map]
    simp only [Function.comp_def, byteLength_cons, Nat.add_assoc]
  | case5 depth c s h0 h1 ho ih =>
    rw [groupEnd_other ho (ne_close h0 h1), ih, Option.map_map]
    simp only [Function.comp_def, byteLength_cons, Nat.add_assoc]

/-! ## Up to the end of a search, and before it -/

/-- The parentheses up to the end of the search close one more than were open. -/
theorem count_of_closing? {p : List Char × List Char} (h : closing? depth s = some p) :
    p.1.count ')' = p.1.count '(' + (depth + 1) := by
  fun_induction closing? depth s generalizing p with
  | case1 => cases h
  | case2 =>
    cases h
    rfl
  | case3 depth s ih =>
    obtain ⟨q, hq, rfl⟩ := Option.map_eq_some_iff.1 h
    rw [List.count_cons_self, List.count_cons_of_ne (by decide), ih hq]
    omega
  | case4 depth s ih =>
    obtain ⟨q, hq, rfl⟩ := Option.map_eq_some_iff.1 h
    rw [List.count_cons_self, List.count_cons_of_ne (by decide), ih hq]
    omega
  | case5 depth c s h0 h1 ho ih =>
    obtain ⟨q, hq, rfl⟩ := Option.map_eq_some_iff.1 h
    rw [List.count_cons_of_ne (ne_close h0 h1), List.count_cons_of_ne ho, ih hq]

/-- The parentheses of a text in which the search finds no end close no more than was open. -/
theorem count_le_of_closing? (h : closing? depth s = none) : s.count ')' ≤ s.count '(' + depth := by
  fun_induction closing? depth s with
  | case1 => exact Nat.zero_le _
  | case2 => cases h
  | case3 depth s ih =>
    have hs := ih (Option.map_eq_none_iff.1 h)
    rw [List.count_cons_self, List.count_cons_of_ne (by decide)]
    omega
  | case4 depth s ih =>
    have hs := ih (Option.map_eq_none_iff.1 h)
    rw [List.count_cons_self, List.count_cons_of_ne (by decide)]
    omega
  | case5 depth c s h0 h1 ho ih =>
    rw [List.count_cons_of_ne (ne_close h0 h1), List.count_cons_of_ne ho]
    exact ih (Option.map_eq_none_iff.1 h)

/-- What comes behind the end of the search does not move it. -/
theorem closing?_append {p : List Char × List Char} (h : closing? depth s = some p)
    (r : List Char) : closing? depth (s ++ r) = some (p.1, p.2 ++ r) := by
  fun_induction closing? depth s generalizing p with
  | case1 => cases h
  | case2 =>
    cases h
    rfl
  | case3 depth s ih =>
    obtain ⟨q, hq, rfl⟩ := Option.map_eq_some_iff.1 h
    rw [List.cons_append, closing?, ih hq]
    rfl
  | case4 depth s ih =>
    obtain ⟨q, hq, rfl⟩ := Option.map_eq_some_iff.1 h
    rw [List.cons_append, closing?, ih hq]
    rfl
  | case5 depth c s h0 h1 ho ih =>
    obtain ⟨q, hq, rfl⟩ := Option.map_eq_some_iff.1 h
    have hs := Passed.of_ne ho (ne_close h0 h1) depth (s ++ r)
    rw [ih hq] at hs
    exact hs

/-! ## Groups -/

theorem ne_nil_of_group? {t : List Char} {p : List Char × List Char} (h : group? t = some p) :
    p.1 ≠ [] := by
  unfold group? at h
  split at h
  · obtain ⟨q, -, rfl⟩ := Option.map_eq_some_iff.1 h
    exact List.cons_ne_nil _ _
  · cases h

theorem balanced_of_group? {t : List Char} {p : List Char × List Char} (h : group? t = some p) :
    Balanced p.1 := by
  unfold group? at h
  split at h
  · obtain ⟨q, hq, rfl⟩ := Option.map_eq_some_iff.1 h
    have hc := count_of_closing? hq
    rw [Balanced, List.count_cons_self, List.count_cons_of_ne (by decide), hc]
  · cases h

/-- Some parenthesis is open behind each beginning of a text, unless its group ends before. -/
theorem lt_or_group? {q : List Char} (hq : q <+: '(' :: s) (hne : q ≠ []) :
    q.count ')' < q.count '(' ∨ ∃ p, group? ('(' :: s) = some p ∧ p.1 <+: q := by
  obtain rfl | ⟨u, rfl, r, rfl⟩ := List.prefix_cons_iff.1 hq
  · exact absurd rfl hne
  · cases hc : closing? 0 u with
    | none =>
      have hle := count_le_of_closing? hc
      rw [List.count_cons_self, List.count_cons_of_ne (by decide)]
      exact .inl (Nat.lt_succ_of_le hle)
    | some p =>
      refine .inr ⟨('(' :: p.1, p.2 ++ r), ?_, ⟨p.2, ?_⟩⟩
      · rw [group?, closing?_append hc]
        rfl
      · rw [List.cons_append, append_of_closing? hc]

/-- A group is the shortest balanced beginning, and the rest is what comes behind it. -/
theorem group?_eq_some_iff {g r : List Char} : group? ('(' :: s) = some (g, r) ↔
    g ++ r = '(' :: s ∧ ShortestBalanced g ('(' :: s) := by
  constructor
  · intro h
    have ht : g ++ r = '(' :: s := append_of_group? h
    refine ⟨ht, ⟨r, ht⟩, ne_nil_of_group? h, balanced_of_group? h, ?_⟩
    intro q hq hne hb
    obtain hlt | ⟨p, hp, hpq⟩ := lt_or_group? hq hne
    · exact absurd hb (Nat.ne_of_gt hlt)
    · rw [h] at hp
      cases hp
      exact hpq.length_le
  · rintro ⟨ht, hg⟩
    obtain hlt | ⟨p, hp, hpg⟩ := lt_or_group? hg.begins hg.ne_nil
    · exact absurd hg.balanced (Nat.ne_of_gt hlt)
    · have hb := balanced_of_group? hp
      have hle := hg.least p.1 (hpg.trans hg.begins) (ne_nil_of_group? hp) hb
      obtain rfl := hpg.eq_of_length_le hle
      obtain rfl := List.append_cancel_left (ht.trans (append_of_group? hp).symm)
      exact hp

theorem group?_eq_none_iff :
    group? ('(' :: s) = none ↔ ∀ q, q <+: '(' :: s → q ≠ [] → ¬Balanced q := by
  constructor
  · intro h q hq hne hb
    obtain hlt | ⟨p, hp, -⟩ := lt_or_group? hq hne
    · exact absurd hb (Nat.ne_of_gt hlt)
    · rw [h] at hp
      cases hp
  · intro h
    cases hg : group? ('(' :: s) with
    | none => rfl
    | some p =>
      have hp := (group?_eq_some_iff.1 hg).2
      exact absurd hp.balanced (h p.1 hp.begins hp.ne_nil)

/-- The search with a count, from the start of a text. -/
theorem groupEnd_eq_group? (s : List Char) :
    groupEnd 0 0 ('(' :: s) = .ok ((group? ('(' :: s)).map fun p => byteLength p.1) := by
  rw [groupEnd_open, groupEnd_eq, group?, Option.map_map]
  simp only [Function.comp_def, byteLength_cons, Nat.zero_add]

/-! ## Expressions are groups -/

theorem NumText.group?_append {t : List Char} {e : NumExpr} (h : NumText t e)
    (ht : t.head? = some '(') (r : List Char) : group? (t ++ r) = some (t, r) := by
  cases h with
  | element => cases ht
  | const h =>
    obtain ⟨u, rfl⟩ := List.head?_eq_some_iff.1 ht
    exact absurd rfl (h.ne_group u)
  | arith o ha hb =>
    have hg := MapFilter.group?_append (ha.passed.operands o.passed hb.passed) r
    simpa using hg

theorem BoolText.group?_append {t : List Char} {p : BoolExpr} (h : BoolText t p) (r : List Char) :
    group? (t ++ r) = some (t, r) := by
  cases h with
  | rel o ha hb =>
    have hg := MapFilter.group?_append (ha.passed.operands o.passed hb.passed) r
    simpa using hg
  | binary o hp hq =>
    have hg := MapFilter.group?_append (hp.passed.operands o.passed hq.passed) r
    simpa using hg

/-- **A group is the shortest balanced beginning.** At an opening parenthesis a group is found
unless no beginning is balanced, and it is the shortest one that is. The search that counts finds
the same, without a count below zero, since before its end some parenthesis is always open. The
text of a parenthesized expression is the group, whatever follows it. -/
theorem group?_shortest :
    (∀ s g r, group? ('(' :: s) = some (g, r) ↔
        g ++ r = '(' :: s ∧ ShortestBalanced g ('(' :: s)) ∧
      (∀ s, group? ('(' :: s) = none ↔ ∀ q, q <+: '(' :: s → q ≠ [] → ¬Balanced q) ∧
      (∀ s, groupEnd 0 0 ('(' :: s) = .ok ((group? ('(' :: s)).map fun p => byteLength p.1)) ∧
      (∀ s q, q <+: '(' :: s → q ≠ [] → (∀ p ∈ group? ('(' :: s), q.length < p.1.length) →
        q.count ')' < q.count '(') ∧
      (∀ t e, NumText t e → t.head? = some '(' → ∀ r, group? (t ++ r) = some (t, r)) ∧
      ∀ t p, BoolText t p → ∀ r, group? (t ++ r) = some (t, r) := by
  refine ⟨fun s g r => group?_eq_some_iff, fun s => group?_eq_none_iff, groupEnd_eq_group?,
    fun s q hq hne hlt => ?_, fun t e h ht r => h.group?_append ht r, fun t p h r =>
    h.group?_append r⟩
  obtain h | ⟨p, hp, hpq⟩ := lt_or_group? hq hne
  · exact h
  · exact absurd hpq.length_le (Nat.not_le_of_gt (hlt p hp))

/-- In `(1ж(2))(` the group ends before the last parenthesis, and with `ж` it has eight bytes;
`(1-2)` and `(1>2)` are groups also before more closing parentheses. -/
theorem group?_shortest_two_bytes :
    "(1ж(2)".toList <+: "(1ж(2))(".toList ∧ "(1ж(2)".toList ≠ [] ∧
      group? "(1ж(2))(".toList = some ("(1ж(2))".toList, ['(']) ∧
      "(1ж(2)".toList.count ')' < "(1ж(2)".toList.count '(' ∧
      groupEnd 0 0 "(1ж(2))(".toList = .ok (some 8) ∧
      NumText "(1-2)".toList (.arith (.const 1) .minus (.const 2)) ∧
      group? ("(1-2)".toList ++ ")ж".toList) = some ("(1-2)".toList, ")ж".toList) ∧
      BoolText "(1>2)".toList (.rel (.const 1) .greaterThan (.const 2)) ∧
      group? ("(1>2)".toList ++ "))".toList) = some ("(1>2)".toList, "))".toList) := by
  have hp : "(1ж(2)".toList <+: "(1ж(2))(".toList := ⟨")(".toList, rfl⟩
  have hg : group? "(1ж(2))(".toList = some ("(1ж(2))".toList, ['(']) := by decide
  have h1 : NumText ['1'] (.const 1) := .const (.plain (.digit rfl))
  have h2 : NumText ['2'] (.const 2) := .const (.plain (.digit rfl))
  have hn : NumText "(1-2)".toList (.arith (.const 1) .minus (.const 2)) := .arith .minus h1 h2
  have hb : BoolText "(1>2)".toList (.rel (.const 1) .greaterThan (.const 2)) :=
    .rel .greaterThan h1 h2
  obtain ⟨-, -, hend, hopen, hnum, hbool⟩ := group?_shortest
  have he : groupEnd 0 0 "(1ж(2))(".toList = .ok (some 8) := by
    refine (hend "1ж(2))(".toList).trans ?_
    rw [show '(' :: "1ж(2))(".toList = "(1ж(2))(".toList from rfl, hg]
    rfl
  refine ⟨hp, by decide, hg, hopen _ _ hp (by decide) ?_, he, hn, hnum _ _ hn rfl _, hb,
    hbool _ _ hb _⟩
  rintro p hm
  obtain rfl := Option.some.inj (hg.symm.trans hm)
  decide

end MapFilter
