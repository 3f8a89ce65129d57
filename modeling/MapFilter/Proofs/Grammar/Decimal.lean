import MapFilter.Proofs.Grammar.Boundary
import Mathlib.Data.List.TakeWhile

/-!
# Literals in canonical form

A literal may have zeros in front of its digits, and a minus sign in front of nothing but zeros.
The decimal text of its value has neither. It is the literal without these characters, so it is
never longer, and it is the literal itself when there are none.

* `decimal`: the decimal text of an integer;
* `significant`, `trimmed`: a run of digits and a literal without needless characters;
* `Redundant`: a literal that has needless characters;
* `IntText.decimal_eq`: the decimal text of the value is the literal without them;
* `IntText.trimmed_sublist`, `IntText.trimmed_eq_self_iff`.
-/

namespace MapFilter

/-- The decimal text of an integer: no zeros in front, and a minus sign below zero. -/
def decimal (n : Int) : List Char :=
  if n < 0 then '-' :: Nat.toDigits 10 n.natAbs else Nat.toDigits 10 n.natAbs

/-! ## Runs of digits -/

/-- The digits from the first one on that is not zero, or one zero when there is none. -/
def significant (ds : List Char) : List Char :=
  if ds.dropWhile (· = '0') = [] then ['0'] else ds.dropWhile (· = '0')

theorem significant_singleton (c : Char) : significant [c] = [c] := by
  by_cases hc : c = '0' <;> simp [significant, hc]

theorem significant_zero_cons (c : Char) (ds : List Char) :
    significant ('0' :: c :: ds) = significant (c :: ds) := by
  have h : ('0' :: c :: ds).dropWhile (· = '0') = (c :: ds).dropWhile (· = '0') := rfl
  rw [significant, h, significant]

theorem significant_cons_of_ne {c : Char} (hc : c ≠ '0') (ds : List Char) :
    significant (c :: ds) = c :: ds := by
  have h : (c :: ds).dropWhile (· = '0') = c :: ds := by simp [hc]
  rw [significant, h, if_neg (List.cons_ne_nil _ _)]

theorem significant_append_singleton {ds : List Char} (h : ¬∀ d ∈ ds, d = '0') (c : Char) :
    significant (ds ++ [c]) = significant ds ++ [c] := by
  have hd : ds.dropWhile (· = '0') ≠ [] := by simpa using h
  rw [significant, significant, List.dropWhile_append, if_neg hd]
  simp [hd]

theorem significant_zeros_append {ds : List Char} (h : ∀ d ∈ ds, d = '0') (c : Char) :
    significant (ds ++ [c]) = [c] := by
  have hd : ds.dropWhile (· = '0') = [] := by simpa using h
  rw [significant, List.dropWhile_append, hd]
  exact significant_singleton c

theorem significant_sublist {ds : List Char} (h : ds ≠ []) : (significant ds).Sublist ds := by
  unfold significant
  split
  · rename_i hd
    obtain ⟨c, r, rfl⟩ := List.exists_cons_of_ne_nil h
    have hc : c = '0' := by simpa using List.dropWhile_eq_nil_iff.1 hd c List.mem_cons_self
    rw [hc, List.singleton_sublist]
    exact List.mem_cons_self
  · exact List.dropWhile_sublist _

/-- A run of digits has no needless zero unless it begins with a zero before another digit. -/
theorem significant_eq_self_iff {ds : List Char} (h : ds ≠ []) :
    significant ds = ds ↔ ∀ c r, ds ≠ '0' :: c :: r := by
  rcases ds with _ | ⟨d, _ | ⟨c, r⟩⟩
  · exact absurd rfl h
  · simp [significant_singleton]
  · by_cases hd : d = '0'
    · have hl := (significant_sublist (List.cons_ne_nil c r)).length_le
      rw [hd, significant_zero_cons]
      constructor
      · intro he
        rw [he, List.length_cons] at hl
        omega
      · intro hn
        exact absurd rfl (hn c r)
    · simp [significant_cons_of_ne hd, hd]

section Digit

variable {c : Char}

theorem digit_lt (hc : c.isDigit) : c.toNat - '0'.toNat < 10 := by
  have h9 := (Char.isDigit_iff_toNat.1 hc).2
  have : '9'.toNat = '0'.toNat + 9 := rfl
  omega

theorem digit_eq_zero_iff (hc : c.isDigit) : c.toNat - '0'.toNat = 0 ↔ c = '0' := by
  have h0 := (Char.isDigit_iff_toNat.1 hc).1
  rw [← Char.toNat_inj]
  omega

theorem toDigits_digit (hc : c.isDigit) : Nat.toDigits 10 (c.toNat - '0'.toNat) = [c] := by
  have h0 := (Char.isDigit_iff_toNat.1 hc).1
  have h48 : '0'.toNat = 48 := rfl
  rw [Nat.toDigits_of_lt_base (digit_lt hc), List.singleton_inj, ← Char.toNat_inj,
    Nat.toNat_digitChar_of_lt_ten (digit_lt hc)]
  omega

end Digit

namespace DigitsText

variable {ds : List Char} {n : Nat}

theorem eq_zero_iff (h : DigitsText ds n) : n = 0 ↔ ∀ c ∈ ds, c = '0' := by
  induction h with
  | digit hc => rw [digit_eq_zero_iff hc, List.forall_mem_singleton]
  | snoc h hc ih =>
    rw [List.forall_mem_append, List.forall_mem_singleton]
    constructor
    · intro he
      exact ⟨ih.1 (by omega), (digit_eq_zero_iff hc).1 (by omega)⟩
    · rintro ⟨hd, hz⟩
      have h1 := ih.2 hd
      have h2 := (digit_eq_zero_iff hc).2 hz
      omega

/-- A number is written by the significant digits of any of its texts. -/
theorem toDigits_eq (h : DigitsText ds n) : Nat.toDigits 10 n = significant ds := by
  induction h with
  | digit hc => rw [toDigits_digit hc, significant_singleton]
  | @snoc ds n c h hc ih =>
    by_cases hn : n = 0
    · rw [significant_zeros_append (h.eq_zero_iff.1 hn), hn, Nat.mul_zero, Nat.zero_add,
        toDigits_digit hc]
    · have hd : ¬∀ d ∈ ds, d = '0' := fun hd => hn (h.eq_zero_iff.2 hd)
      rw [significant_append_singleton hd, ← ih, ← Nat.toDigits_append_toDigits (by omega)
        (Nat.pos_of_ne_zero hn) (digit_lt hc), toDigits_digit hc]

theorem significant_eq_zero_iff (h : DigitsText ds n) : significant ds = ['0'] ↔ n = 0 := by
  rw [← h.toDigits_eq]
  constructor
  · intro he
    rw [← Nat.ofDigitChars_ten_toDigits (n := n), he]
    rfl
  · rintro rfl
    rfl

end DigitsText

/-! ## Literals -/

/-- A literal without needless zeros, and without a minus sign that only zeros follow. -/
def trimmed : List Char → List Char
  | '-' :: ds => if significant ds = ['0'] then ['0'] else '-' :: significant ds
  | ds => significant ds

/-- The literal has a needless zero in front of its digits or a minus sign that only zeros follow. -/
inductive Redundant : List Char → Prop
  | zero (c : Char) (r : List Char) : Redundant ('0' :: c :: r)
  | minusZero (c : Char) (r : List Char) : Redundant ('-' :: '0' :: c :: r)
  | minusZeros {ds : List Char} (h : ∀ c ∈ ds, c = '0') : Redundant ('-' :: ds)

theorem trimmed_of_ne {t : List Char} (h : ∀ s, t ≠ '-' :: s) : trimmed t = significant t :=
  trimmed.eq_2 t h

namespace IntText

variable {t : List Char} {n : Int}

theorem decimal_eq (h : IntText t n) : decimal n = trimmed t := by
  cases h with
  | @plain ds n h =>
    rw [trimmed_of_ne h.ne_minus_cons, decimal, if_neg (by omega), Int.natAbs_natCast, h.toDigits_eq]
  | @minus ds n h =>
    rw [trimmed, decimal, Int.natAbs_neg, Int.natAbs_natCast, h.toDigits_eq]
    by_cases hn : n = 0
    · rw [if_neg (by omega), if_pos (h.significant_eq_zero_iff.2 hn),
        h.significant_eq_zero_iff.2 hn]
    · rw [if_pos (by omega), if_neg (fun hs => hn (h.significant_eq_zero_iff.1 hs))]

/-- Characters are only left out. -/
theorem trimmed_sublist (h : IntText t n) : (trimmed t).Sublist t := by
  cases h with
  | plain h =>
    rw [trimmed_of_ne h.ne_minus_cons]
    exact significant_sublist h.ne_nil
  | minus h =>
    have hs := significant_sublist h.ne_nil
    rw [trimmed]
    split
    · rename_i he
      exact (he ▸ hs).cons _
    · exact hs.cons_cons _

theorem trimmed_eq_self_iff (h : IntText t n) : trimmed t = t ↔ ¬Redundant t := by
  cases h with
  | @plain ds n h =>
    rw [trimmed_of_ne h.ne_minus_cons, significant_eq_self_iff h.ne_nil]
    constructor
    · rintro hn (⟨c, r⟩ | ⟨c, r⟩ | hz)
      · exact hn c r rfl
      · exact h.ne_minus_cons _ rfl
      · exact h.ne_minus_cons _ rfl
    · rintro hn c r rfl
      exact hn (.zero c r)
  | @minus ds n h =>
    rw [trimmed]
    by_cases hz : n = 0
    · rw [if_pos (h.significant_eq_zero_iff.2 hz)]
      refine iff_of_false (fun he => ?_) (not_not_intro (.minusZeros (h.eq_zero_iff.1 hz)))
      cases he
    · rw [if_neg (fun hs => hz (h.significant_eq_zero_iff.1 hs)), List.cons_inj_right,
        significant_eq_self_iff h.ne_nil]
      constructor
      · rintro hn (⟨c, r⟩ | ⟨c, r⟩ | hd)
        · exact hn c r rfl
        · exact hz (h.eq_zero_iff.2 hd)
      · rintro hn c r rfl
        exact hn (.minusZero c r)

end IntText

end MapFilter
