import MapFilter.Expr

/-!
# Lexemes

The parts that the text of a chain is cut at: words, signed digit runs, balanced groups and closing
braces. Each reader splits a text into the lexeme at its start and the rest, and loses nothing.

* `word?`, `signedDigits?`, `group?`, `upTo?`, with `append_of_…` lemmas: the two parts make up the
  text;
* `inner?`: what stands between the first and the last parenthesis of a text;
* `literal?`: the value of a text that is an integer literal.
-/

namespace MapFilter

/-! ## Words and runs of digits -/

/-- Splits off `w` at the start of a text. -/
def word? (w s : List Char) : Option (List Char × List Char) :=
  if w.isPrefixOf s then some (w, s.drop w.length) else none

theorem append_of_word? {w s : List Char} {p : List Char × List Char} (h : word? w s = some p) :
    p.1 ++ p.2 = s := by
  unfold word? at h
  split at h
  · rename_i hw
    cases h
    obtain ⟨t, rfl⟩ := List.isPrefixOf_iff_prefix.1 hw
    simp
  · cases h

theorem word?_append (w r : List Char) : word? w (w ++ r) = some (w, r) := by
  rw [word?, if_pos (List.isPrefixOf_iff_prefix.2 (List.prefix_append w r)), List.drop_left]

theorem word?_eq_none_iff {w s : List Char} : word? w s = none ↔ ¬w <+: s := by
  unfold word?
  by_cases h : w <+: s
  · simp [h]
  · simp [h]

theorem fst_of_word? {w s : List Char} {p : List Char × List Char} (h : word? w s = some p) :
    p.1 = w := by
  unfold word? at h
  split at h <;> cases h
  rfl

/-- Splits off the digits at the start of a text, when there is at least one. -/
def digits? (s : List Char) : Option (List Char × List Char) :=
  if s.takeWhile Char.isDigit = [] then none
  else some (s.takeWhile Char.isDigit, s.dropWhile Char.isDigit)

theorem append_of_digits? {s : List Char} {p : List Char × List Char} (h : digits? s = some p) :
    p.1 ++ p.2 = s := by
  unfold digits? at h
  split at h
  · cases h
  · cases h
    exact List.takeWhile_append_dropWhile

/-- Splits off a run of digits, with the minus sign before it if there is one. -/
def signedDigits? : List Char → Option (List Char × List Char)
  | '-' :: s => (digits? s).map fun p => ('-' :: p.1, p.2)
  | s => digits? s

theorem append_of_signedDigits? {s : List Char} {p : List Char × List Char}
    (h : signedDigits? s = some p) : p.1 ++ p.2 = s := by
  unfold signedDigits? at h
  split at h
  · obtain ⟨q, hq, rfl⟩ := Option.map_eq_some_iff.1 h
    simp [append_of_digits? hq]
  · exact append_of_digits? h

/-- The value of a signed run of digits, with no bound on its size. -/
def literalValue : List Char → Int
  | '-' :: ds => -(Nat.ofDigitChars 10 ds 0 : Int)
  | ds => Nat.ofDigitChars 10 ds 0

/-- The value of a text that is a signed run of digits and nothing else. -/
def literal? (s : List Char) : Option Int :=
  match signedDigits? s with
  | some (ds, []) => some (literalValue ds)
  | _ => none

/-- The 32-bit number of the given value, when there is one. -/
def ofInt32? (n : Int) : Option Int32 :=
  if -2147483648 ≤ n ∧ n ≤ 2147483647 then some (Int32.ofInt n) else none

/-! ## Groups -/

/-- Splits a text after the `)` that closes `depth + 1` groups opened before it. -/
def closing? : Nat → List Char → Option (List Char × List Char)
  | _, [] => none
  | 0, ')' :: s => some ([')'], s)
  | depth + 1, ')' :: s => (closing? depth s).map fun p => (')' :: p.1, p.2)
  | depth, '(' :: s => (closing? (depth + 1) s).map fun p => ('(' :: p.1, p.2)
  | depth, c :: s => (closing? depth s).map fun p => (c :: p.1, p.2)

/-- Splits off the group at the start of a text: from its `(` to the matching `)`. -/
def group? : List Char → Option (List Char × List Char)
  | '(' :: s => (closing? 0 s).map fun p => ('(' :: p.1, p.2)
  | _ => none

theorem append_of_closing? {depth : Nat} {s : List Char} {p : List Char × List Char}
    (h : closing? depth s = some p) : p.1 ++ p.2 = s := by
  fun_induction closing? depth s generalizing p with
  | case1 => cases h
  | case2 => cases h; rfl
  | case3 depth s ih | case4 depth s ih | case5 depth c s _ _ _ ih =>
    obtain ⟨q, hq, rfl⟩ := Option.map_eq_some_iff.1 h
    simp [ih hq]

theorem append_of_group? {s : List Char} {p : List Char × List Char} (h : group? s = some p) :
    p.1 ++ p.2 = s := by
  unfold group? at h
  split at h
  · obtain ⟨q, hq, rfl⟩ := Option.map_eq_some_iff.1 h
    simp [append_of_closing? hq]
  · cases h

/-- What stands between the parentheses at the two ends of a text. -/
def inner? : List Char → Option (List Char)
  | '(' :: s => if s.getLast? = some ')' then some s.dropLast else none
  | _ => none

theorem eq_of_inner? {s t : List Char} (h : inner? s = some t) : s = '(' :: (t ++ [')']) := by
  unfold inner? at h
  split at h
  · rename_i s
    split at h
    · rename_i hl
      cases h
      obtain ⟨u, rfl⟩ := List.getLast?_eq_some_iff.1 hl
      simp
    · cases h
  · cases h

theorem inner?_eq_none {t : List Char} (h : ∀ s, t ≠ '(' :: s) : inner? t = none :=
  inner?.eq_2 t h

theorem inner?_group (s : List Char) : inner? ('(' :: (s ++ [')'])) = some s := by
  simp [inner?]

/-! ## Calls -/

/-- Splits a text after the first `c` in it. -/
def upTo? (c : Char) : List Char → Option (List Char × List Char)
  | [] => none
  | d :: s => if d = c then some ([d], s) else (upTo? c s).map fun p => (d :: p.1, p.2)

theorem append_of_upTo? {c : Char} {s : List Char} {p : List Char × List Char}
    (h : upTo? c s = some p) : p.1 ++ p.2 = s := by
  fun_induction upTo? c s generalizing p with
  | case1 => cases h
  | case2 s => cases h; rfl
  | case3 d s hd ih =>
    obtain ⟨q, hq, rfl⟩ := Option.map_eq_some_iff.1 h
    simp [ih hq]

theorem ne_nil_of_upTo? {c : Char} {s : List Char} {p : List Char × List Char}
    (h : upTo? c s = some p) : p.1 ≠ [] := by
  fun_cases upTo? c s with
  | case1 => cases h
  | case2 s => simp only [upTo?, if_true] at h; cases h; simp
  | case3 d s hd =>
    simp only [upTo?, hd, if_false] at h
    obtain ⟨q, -, rfl⟩ := Option.map_eq_some_iff.1 h
    simp

theorem upTo?_append {c : Char} {s : List Char} (h : c ∉ s) (r : List Char) :
    upTo? c (s ++ c :: r) = some (s ++ [c], r) := by
  induction s with
  | nil => simp [upTo?]
  | cons d s ih =>
    have hd : d ≠ c := fun he => h (he ▸ List.mem_cons_self)
    rw [List.cons_append, upTo?, if_neg hd, ih fun hc => h (List.mem_cons_of_mem d hc)]
    rfl

theorem upTo?_eq_none_iff {c : Char} {s : List Char} : upTo? c s = none ↔ c ∉ s := by
  induction s with
  | nil => simp [upTo?]
  | cons d s ih =>
    by_cases hd : d = c
    · simp [upTo?, hd]
    · simp [upTo?, hd, Ne.symm hd, ih]

theorem exists_of_upTo? {c : Char} {s : List Char} {p : List Char × List Char}
    (h : upTo? c s = some p) : ∃ w, c ∉ w ∧ p.1 = w ++ [c] := by
  fun_induction upTo? c s generalizing p with
  | case1 => cases h
  | case2 s =>
    cases h
    exact ⟨[], by simp, rfl⟩
  | case3 d s hd ih =>
    obtain ⟨q, hq, rfl⟩ := Option.map_eq_some_iff.1 h
    obtain ⟨w, hw, he⟩ := ih hq
    exact ⟨d :: w, by simp [hw, Ne.symm hd], by simp [he]⟩

end MapFilter
