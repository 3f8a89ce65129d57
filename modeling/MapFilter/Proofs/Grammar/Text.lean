import MapFilter.Chain.Basic
import Mathlib.Data.List.Induction

/-!
# The grammar of chains

A derivation gives a text its tree. The rules say nothing about how a text is read.

    chain     = call ("%>%" call)*
    call      = "map{" number "}" | "filter{" condition "}"
    number    = "element" | integer | "(" number ("+" | "-" | "*") number ")"
    condition = "(" number ("=" | ">" | "<") number ")" | "(" condition ("&" | "|") condition ")"
    integer   = "-"? digit+

* `DigitsText`, `IntText`: texts of numbers in decimal, of any length and any size;
* `NumText`, `BoolText`, `CallText`, `ChainText`: texts of expressions, calls and chains;
* `digitsText_iff`: the digits are read from the left.
-/

namespace MapFilter

/-! ## Integers -/

/-- A run of digits and the number that it writes in decimal. -/
inductive DigitsText : List Char → Nat → Prop
  | digit {c : Char} (hc : c.isDigit) : DigitsText [c] (c.toNat - '0'.toNat)
  | snoc {ds : List Char} {n : Nat} {c : Char} (h : DigitsText ds n) (hc : c.isDigit) :
    DigitsText (ds ++ [c]) (10 * n + (c.toNat - '0'.toNat))

/-- An integer literal and its value. -/
inductive IntText : List Char → Int → Prop
  | plain {ds : List Char} {n : Nat} (h : DigitsText ds n) : IntText ds n
  | minus {ds : List Char} {n : Nat} (h : DigitsText ds n) : IntText ('-' :: ds) (-n)

theorem DigitsText.ne_nil {ds : List Char} {n : Nat} (h : DigitsText ds n) : ds ≠ [] := by
  cases h <;> simp

theorem DigitsText.isDigit {ds : List Char} {n : Nat} (h : DigitsText ds n) :
    ∀ c ∈ ds, c.isDigit := by
  induction h with
  | digit hc => simpa using hc
  | snoc h hc ih =>
    intro c hmem
    rcases List.mem_append.1 hmem with hmem | hmem
    · exact ih c hmem
    · rwa [List.mem_singleton.1 hmem]

theorem DigitsText.eq_ofDigitChars {ds : List Char} {n : Nat} (h : DigitsText ds n) :
    n = Nat.ofDigitChars 10 ds 0 := by
  induction h with
  | digit hc => rw [Nat.ofDigitChars_cons, Nat.ofDigitChars_nil]; omega
  | snoc h hc ih =>
    rw [Nat.ofDigitChars_append, ← ih, Nat.ofDigitChars_cons, Nat.ofDigitChars_nil]

theorem digitsText_ofDigitChars {ds : List Char} (hne : ds ≠ []) (h : ∀ c ∈ ds, c.isDigit) :
    DigitsText ds (Nat.ofDigitChars 10 ds 0) := by
  induction ds using List.reverseRecOn with
  | nil => exact absurd rfl hne
  | append_singleton ds c ih =>
    have hc : c.isDigit := h c (by simp)
    rw [Nat.ofDigitChars_append, Nat.ofDigitChars_cons, Nat.ofDigitChars_nil]
    by_cases hd : ds = []
    · subst hd
      simpa using DigitsText.digit hc
    · exact .snoc (ih hd fun d hd' => h d (List.mem_append_left _ hd')) hc

/-- A text writes a number in decimal when it is a run of digits with that value. -/
theorem digitsText_iff {ds : List Char} {n : Nat} :
    DigitsText ds n ↔ ds ≠ [] ∧ (∀ c ∈ ds, c.isDigit) ∧ n = Nat.ofDigitChars 10 ds 0 := by
  constructor
  · intro h
    exact ⟨h.ne_nil, h.isDigit, h.eq_ofDigitChars⟩
  · rintro ⟨hne, hd, rfl⟩
    exact digitsText_ofDigitChars hne hd

/-! ## Expressions, calls and chains -/

/-- A text of a number expression. The value of a literal has to be that of a 32-bit number. -/
inductive NumText : List Char → NumExpr → Prop
  | element : NumText elementWord .element
  | const {t : List Char} {n : Int32} (h : IntText t n.toInt) : NumText t (.const n)
  | arith {s t : List Char} {a b : NumExpr} (o : ArithOp) (ha : NumText s a) (hb : NumText t b) :
    NumText ('(' :: (s ++ o.symbol :: (t ++ [')']))) (.arith a o b)

/-- A text of a boolean expression. -/
inductive BoolText : List Char → BoolExpr → Prop
  | rel {s t : List Char} {a b : NumExpr} (o : RelOp) (ha : NumText s a) (hb : NumText t b) :
    BoolText ('(' :: (s ++ o.symbol :: (t ++ [')']))) (.rel a o b)
  | binary {s t : List Char} {p q : BoolExpr} (o : BoolOp) (hp : BoolText s p)
    (hq : BoolText t q) : BoolText ('(' :: (s ++ o.symbol :: (t ++ [')']))) (.binary p o q)

/-- A text of a call. -/
inductive CallText : List Char → Call → Prop
  | map {t : List Char} {e : NumExpr} (h : NumText t e) :
    CallText (Call.Kind.map.word ++ '{' :: (t ++ ['}'])) (.map e)
  | filter {t : List Char} {p : BoolExpr} (h : BoolText t p) :
    CallText (Call.Kind.filter.word ++ '{' :: (t ++ ['}'])) (.filter p)

/-- A text of a chain. The empty chain has none. -/
inductive ChainText : List Char → Chain → Prop
  | single {t : List Char} {c : Call} (h : CallText t c) : ChainText t [c]
  | cons {t s : List Char} {c : Call} {r : Chain} (h : CallText t c) (hr : ChainText s r) :
    ChainText (t ++ (Chain.separator ++ s)) (c :: r)

/-! ## Characters -/

theorem ne_of_isDigit {c d : Char} (hc : c.isDigit) (hd : d.isDigit = false) : c ≠ d := by
  rintro rfl
  rw [hc] at hd
  exact Bool.noConfusion hd

theorem IntText.not_mem {t : List Char} {n : Int} (h : IntText t n) {c : Char}
    (hc : c.isDigit = false) (hm : c ≠ '-') : c ∉ t := by
  intro hmem
  cases h with
  | plain h => exact ne_of_isDigit (h.isDigit c hmem) hc rfl
  | minus h =>
    rcases List.mem_cons.1 hmem with rfl | hmem
    · exact hm rfl
    · exact ne_of_isDigit (h.isDigit c hmem) hc rfl

theorem NumText.not_mem_brace {t : List Char} {e : NumExpr} (h : NumText t e) : '}' ∉ t := by
  induction h with
  | element => exact not_mem_elementWord rfl
  | const h => exact h.not_mem (by decide) (by decide)
  | arith o ha hb iha ihb => cases o <;> simp [ArithOp.symbol, iha, ihb]

theorem BoolText.not_mem_brace {t : List Char} {p : BoolExpr} (h : BoolText t p) : '}' ∉ t := by
  induction h with
  | rel o ha hb => cases o <;> simp [RelOp.symbol, ha.not_mem_brace, hb.not_mem_brace]
  | binary o hp hq ihp ihq => cases o <;> simp [BoolOp.symbol, ihp, ihq]

/-- A call ends with its only closing brace. -/
theorem CallText.eq_append_brace {t : List Char} {c : Call} (h : CallText t c) :
    ∃ s, '}' ∉ s ∧ t = s ++ ['}'] := by
  cases h with
  | @map s e h =>
    have hw : '}' ∉ Call.Kind.map.word := Call.Kind.not_mem_word _ rfl
    exact ⟨Call.Kind.map.word ++ '{' :: s, by simp [hw, h.not_mem_brace], by simp⟩
  | @filter s p h =>
    have hw : '}' ∉ Call.Kind.filter.word := Call.Kind.not_mem_word _ rfl
    exact ⟨Call.Kind.filter.word ++ '{' :: s, by simp [hw, h.not_mem_brace], by simp⟩

theorem ChainText.ne_nil {t : List Char} {c : Chain} (h : ChainText t c) : t ≠ [] := by
  cases h with
  | single h => obtain ⟨s, -, rfl⟩ := h.eq_append_brace; simp
  | cons h hr => obtain ⟨s, -, rfl⟩ := h.eq_append_brace; simp

theorem ChainText.chain_ne_nil {t : List Char} {c : Chain} (h : ChainText t c) : c ≠ [] := by
  cases h <;> exact List.cons_ne_nil _ _

end MapFilter
