import MapFilter.Proofs.Grammar.Text
import MapFilter.Reading.Expr

/-!
# Where an operand ends

The first operand of a node is found without reading it. If it is a text of the grammar and no
digit follows, its end is found whatever follows.

* `signedDigits?_append`, `literal?_eq_some_iff`, `ofInt32?_eq_some_iff`: literals;
* `Passed`: a text over which the search for a closing parenthesis passes; `NumText.passed`,
  `BoolText.passed`, `group?_append`;
* **`NumText.firstOperand_append`**, `BoolText.firstOperand_append`: the end of an operand.
-/

namespace MapFilter

/-! ## Literals -/

theorem digits?_append {ds r : List Char} (hne : ds ≠ []) (hd : ∀ c ∈ ds, c.isDigit)
    (hr : ∀ c ∈ r.head?, c.isDigit = false) : digits? (ds ++ r) = some (ds, r) := by
  have hnil : r.takeWhile Char.isDigit = [] ∧ r.dropWhile Char.isDigit = r := by
    cases r with
    | nil => exact ⟨rfl, rfl⟩
    | cons c r => simp [hr c rfl]
  have ht : (ds ++ r).takeWhile Char.isDigit = ds := by
    rw [List.takeWhile_append_of_pos hd, hnil.1, List.append_nil]
  have hw : (ds ++ r).dropWhile Char.isDigit = r := by
    rw [List.dropWhile_append_of_pos hd, hnil.2]
  rw [digits?, ht, hw, if_neg hne]

theorem digitsText_of_digits? {s ds r : List Char} (h : digits? s = some (ds, r)) :
    DigitsText ds (Nat.ofDigitChars 10 ds 0) := by
  unfold digits? at h
  split at h
  · cases h
  · rename_i hne
    cases h
    exact digitsText_ofDigitChars hne (List.all_eq_true.1 List.all_takeWhile)

theorem DigitsText.ne_minus_cons {ds : List Char} {n : Nat} (h : DigitsText ds n) (s : List Char) :
    ds ≠ '-' :: s := by
  rintro rfl
  exact ne_of_isDigit (h.isDigit '-' (by simp)) (by decide) rfl

/-- A signed run of digits is read up to its end, which is where no digit follows. -/
theorem signedDigits?_append {t r : List Char} {n : Int} (h : IntText t n)
    (hr : ∀ c ∈ r.head?, c.isDigit = false) : signedDigits? (t ++ r) = some (t, r) := by
  cases h with
  | plain h =>
    have hne : ∀ s, t ++ r ≠ '-' :: s := by
      obtain ⟨c, ds, rfl⟩ := List.exists_cons_of_ne_nil h.ne_nil
      rintro s hs
      exact h.ne_minus_cons ds (by rw [(List.cons.inj hs).1])
    rw [signedDigits?.eq_2 _ hne, digits?_append h.ne_nil h.isDigit hr]
  | minus h =>
    rw [List.cons_append, signedDigits?, digits?_append h.ne_nil h.isDigit hr]
    rfl

theorem literalValue_of_ne {t : List Char} (h : ∀ s, t ≠ '-' :: s) :
    literalValue t = Nat.ofDigitChars 10 t 0 := literalValue.eq_2 t h

theorem IntText.literalValue_eq {t : List Char} {n : Int} (h : IntText t n) :
    literalValue t = n := by
  cases h with
  | plain h => rw [literalValue_of_ne h.ne_minus_cons, ← h.eq_ofDigitChars]
  | minus h => rw [literalValue, ← h.eq_ofDigitChars]

theorem intText_of_signedDigits? {s t r : List Char} (h : signedDigits? s = some (t, r)) :
    IntText t (literalValue t) := by
  unfold signedDigits? at h
  split at h
  · obtain ⟨⟨ds, r⟩, hd, he⟩ := Option.map_eq_some_iff.1 h
    cases he
    exact .minus (digitsText_of_digits? hd)
  · have hd := digitsText_of_digits? h
    rw [literalValue_of_ne hd.ne_minus_cons]
    exact .plain hd

/-- A text is read as a literal when the grammar has it as one. -/
theorem literal?_eq_some_iff {t : List Char} {n : Int} : literal? t = some n ↔ IntText t n := by
  constructor
  · intro h
    unfold literal? at h
    split at h
    · rename_i ds hs
      cases h
      have ht := append_of_signedDigits? hs
      rw [List.append_nil] at ht
      exact ht ▸ intText_of_signedDigits? hs
    · cases h
  · intro h
    have hs : signedDigits? t = some (t, []) := by
      simpa using signedDigits?_append (r := []) h (by simp)
    rw [literal?, hs, ← h.literalValue_eq]

theorem ofInt32?_eq_some_iff {n : Int} {v : Int32} : ofInt32? n = some v ↔ v.toInt = n := by
  unfold ofInt32?
  split
  · rename_i h
    rw [Option.some.injEq]
    constructor
    · rintro rfl
      exact Int32.toInt_ofInt_of_le h.1 (by omega)
    · rintro rfl
      exact Int32.ofInt_toInt v
  · rename_i h
    have h1 := v.le_toInt
    have h2 := v.toInt_lt
    constructor
    · intro hv
      cases hv
    · rintro rfl
      exact absurd ⟨by omega, by omega⟩ h

/-! ## Groups -/

/-- A text over which the search for a closing parenthesis passes, at every depth. -/
def Passed (s : List Char) : Prop :=
  ∀ depth r, closing? depth (s ++ r) = (closing? depth r).map fun p => (s ++ p.1, p.2)

namespace Passed

variable {s t : List Char}

theorem nil : Passed [] := fun _ _ => by simp

theorem append (hs : Passed s) (ht : Passed t) : Passed (s ++ t) := fun depth r => by
  rw [List.append_assoc, hs, ht, Option.map_map]
  simp [Function.comp_def]

theorem of_ne {c : Char} (ho : c ≠ '(') (hc : c ≠ ')') : Passed [c] := fun depth r => by
  rw [List.singleton_append, closing?]
  · rfl
  all_goals simp_all

theorem of_not_mem (ho : '(' ∉ s) (hc : ')' ∉ s) : Passed s := by
  induction s with
  | nil => exact nil
  | cons c s ih =>
    rw [List.mem_cons, not_or] at ho hc
    exact (of_ne (Ne.symm ho.1) (Ne.symm hc.1)).append (ih ho.2 hc.2)

/-- The search passes over a group: the depth goes up by one and down again. -/
theorem group (h : Passed s) : Passed ('(' :: (s ++ [')'])) := fun depth r => by
  rw [List.cons_append, List.append_assoc, closing?, h, List.singleton_append, closing?]
  simp [Option.map_map, Function.comp_def]

theorem operands {c : Char} (hs : Passed s) (hc : Passed [c]) (ht : Passed t) :
    Passed (s ++ c :: t) := hs.append (hc.append ht)

theorem node {c : Char} (hs : Passed s) (hc : Passed [c]) (ht : Passed t) :
    Passed ('(' :: (s ++ c :: (t ++ [')']))) := by
  simpa using (hs.operands hc ht).group

end Passed

theorem ArithOp.passed (o : ArithOp) : Passed [o.symbol] := by
  cases o <;> exact .of_ne (by decide) (by decide)

theorem RelOp.passed (o : RelOp) : Passed [o.symbol] := by
  cases o <;> exact .of_ne (by decide) (by decide)

theorem BoolOp.passed (o : BoolOp) : Passed [o.symbol] := by
  cases o <;> exact .of_ne (by decide) (by decide)

theorem NumText.passed {t : List Char} {e : NumExpr} (h : NumText t e) : Passed t := by
  induction h with
  | element => exact .of_not_mem (not_mem_elementWord rfl) (not_mem_elementWord rfl)
  | const h => exact .of_not_mem (h.not_mem rfl (by decide)) (h.not_mem rfl (by decide))
  | arith o ha hb iha ihb => exact iha.node o.passed ihb

theorem BoolText.passed {t : List Char} {p : BoolExpr} (h : BoolText t p) : Passed t := by
  induction h with
  | rel o ha hb => exact ha.passed.node o.passed hb.passed
  | binary o hp hq ihp ihq => exact ihp.node o.passed ihq

theorem group?_append {s : List Char} (h : Passed s) (r : List Char) :
    group? ('(' :: (s ++ [')']) ++ r) = some ('(' :: (s ++ [')']), r) := by
  rw [List.cons_append, List.append_assoc, group?, h, List.singleton_append, closing?]
  rfl

/-! ## Operands -/

theorem ArithOp.not_digit (o : ArithOp) (t : List Char) :
    ∀ c ∈ (o.symbol :: t).head?, c.isDigit = false := by
  rintro c ⟨⟩
  cases o <;> rfl

theorem RelOp.not_digit (o : RelOp) (t : List Char) :
    ∀ c ∈ (o.symbol :: t).head?, c.isDigit = false := by
  rintro c ⟨⟩
  cases o <;> rfl

theorem IntText.ne_group {t : List Char} {n : Int} (h : IntText t n) (s : List Char) :
    t ≠ '(' :: s := by
  rintro rfl
  exact h.not_mem (by decide) (by decide) List.mem_cons_self

theorem IntText.ne_elementWord {t : List Char} {n : Int} (h : IntText t n) : t ≠ elementWord := by
  rintro rfl
  exact h.not_mem (c := 'e') (by decide) (by decide) (by decide)

theorem IntText.exists_cons {t : List Char} {n : Int} (h : IntText t n) :
    ∃ c s, t = c :: s ∧ (c = '-' ∨ c.isDigit) := by
  cases h with
  | plain h =>
    obtain ⟨c, ds, rfl⟩ := List.exists_cons_of_ne_nil h.ne_nil
    exact ⟨c, ds, rfl, .inr (h.isDigit c (by simp))⟩
  | minus h => exact ⟨_, _, rfl, .inl rfl⟩

theorem firstOperand_node {s t : List Char} {c : Char} (hs : Passed s) (hc : Passed [c])
    (ht : Passed t) (r : List Char) (k : Nat) :
    firstOperand ⟨'(' :: (s ++ c :: (t ++ [')'])) ++ r, k⟩ =
      .ok ('(' :: (s ++ c :: (t ++ [')'])), r) := by
  have hg := group?_append (hs.operands hc ht) r
  simp only [List.append_assoc, List.cons_append] at hg ⊢
  simp only [firstOperand, if_true, hg]

theorem firstOperand_literal {t r : List Char} {n : Int} (h : IntText t n)
    (hr : ∀ c ∈ r.head?, c.isDigit = false) (k : Nat) :
    firstOperand ⟨t ++ r, k⟩ = .ok (t, r) := by
  have hs := signedDigits?_append h hr
  obtain ⟨c, s, rfl, hc⟩ := h.exists_cons
  have ho : c ≠ '(' := fun he => h.ne_group s (by rw [he])
  simp only [List.cons_append] at hs ⊢
  simp only [firstOperand, if_neg ho, if_pos hc, hs]

theorem firstOperand_element (r : List Char) (k : Nat) :
    firstOperand ⟨elementWord ++ r, k⟩ = .ok (elementWord, r) := by
  have hw := word?_append elementWord r
  have he : elementWord ++ r = 'e' :: ("lement".toList ++ r) := rfl
  rw [he] at hw ⊢
  simp only [firstOperand, if_neg (show 'e' ≠ '(' by decide),
    if_neg (show ¬('e' = '-' ∨ 'e'.isDigit) by decide), hw]

/-- **A text of a number expression is found as an operand** when no digit follows it. -/
theorem NumText.firstOperand_append {t : List Char} {e : NumExpr} (h : NumText t e)
    {r : List Char} (hr : ∀ c ∈ r.head?, c.isDigit = false) (k : Nat) :
    firstOperand ⟨t ++ r, k⟩ = .ok (t, r) := by
  cases h with
  | element => exact firstOperand_element r k
  | const h => exact firstOperand_literal h hr k
  | arith o ha hb => exact firstOperand_node ha.passed o.passed hb.passed r k

/-- **A text of a boolean expression is found as an operand** whatever follows it. -/
theorem BoolText.firstOperand_append {t : List Char} {p : BoolExpr} (h : BoolText t p)
    (r : List Char) (k : Nat) : firstOperand ⟨t ++ r, k⟩ = .ok (t, r) := by
  cases h with
  | rel o ha hb => exact firstOperand_node ha.passed o.passed hb.passed r k
  | binary o hp hq => exact firstOperand_node hp.passed o.passed hq.passed r k

end MapFilter
