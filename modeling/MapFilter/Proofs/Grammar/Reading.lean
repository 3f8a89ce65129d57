import MapFilter.Proofs.Grammar.Boundary
import MapFilter.Reading.Chain

/-!
# Reading is derivation

A text is read as a tree exactly when the grammar derives it with that tree: from derivation to
reading by induction on the derivation, and back by induction on the shape of the text. The printed
text of a value is one of its texts in the grammar, so reading gives the value back. All texts of
chains are made of letters, digits and thirteen other characters, on one line and without blanks.

* `readNumber_eq_ok_iff`, `readBoolean_eq_ok_iff`, `readSingleCall_eq_ok_iff`: expressions and calls;
* `CallText.readCalls_append`, `CallText.readCalls_separator`: a call before some more text;
* `result_readChain_eq_ok_iff`, `ChainText.unique`: chains;
* **`readChain_whole_eq_ok_iff`**: whole texts;
* `intText_numeral`: a printed number is a literal, also the least one, which has no counterpart
  above zero;
* `numText_render`, `boolText_render`, `callText_render`, `chainText_render`: printing is a
  derivation;
* **`read_render`**: reading inverts printing, on all four kinds of text;
* `inAlphabet`, `ChainText.all_inAlphabet`, `ChainText.not_mem`: the characters of a chain.
-/

namespace MapFilter

/-! ## Expressions -/

/-- A text of the grammar is read as its tree. -/
theorem NumText.readNumber_eq {t : List Char} {e : NumExpr} (h : NumText t e) (k : Nat) :
    readNumber ⟨t, k⟩ = .ok e := by
  unfold readNumber
  -- the operands are read at offsets of their own
  induction h generalizing k with
  | element =>
    rw [Term.ofFragment_atom (by rintro s ⟨⟩)]
    rfl
  | @const t n h =>
    have hl := literal?_eq_some_iff.2 h
    have hv := ofInt32?_eq_some_iff.2 (rfl : n.toInt = n.toInt)
    rw [Term.ofFragment_atom h.ne_group, Term.number, Term.atomNumber, if_neg h.ne_elementWord]
    simp only [hl, hv]
  | arith o ha hb iha ihb =>
    rw [Term.ofFragment_node (ha.firstOperand_append (o.not_digit _) _)]
    exact Term.number_node_eq_ok_iff.2 ⟨o, _, _, rfl, iha _, ihb _, rfl⟩

theorem BoolText.readBoolean_eq {t : List Char} {p : BoolExpr} (h : BoolText t p) (k : Nat) :
    readBoolean ⟨t, k⟩ = .ok p := by
  unfold readBoolean
  induction h generalizing k with
  | rel o ha hb =>
    rw [Term.ofFragment_node (ha.firstOperand_append (o.not_digit _) _)]
    exact Term.boolean_node_eq_ok_iff.2
      (.inl ⟨o, _, _, rfl, ha.readNumber_eq _, hb.readNumber_eq _, rfl⟩)
  | binary o hp hq ihp ihq =>
    rw [Term.ofFragment_node (hp.firstOperand_append _ _)]
    exact Term.boolean_node_eq_ok_iff.2 (.inr ⟨o, _, _, rfl, ihp _, ihq _, rfl⟩)

theorem numText_of_atomNumber {f : Fragment} {e : NumExpr} (h : Term.atomNumber f = .ok e) :
    NumText f.text e := by
  unfold Term.atomNumber at h
  split at h
  · rename_i ht
    cases h
    exact ht ▸ .element
  · split at h
    · cases h
    · rename_i n hn
      split at h
      · rename_i v hv
        cases h
        exact .const (ofInt32?_eq_some_iff.1 hv ▸ literal?_eq_some_iff.1 hn)
      · cases h

theorem numText_of_readNumber {f : Fragment} {e : NumExpr} (h : readNumber f = .ok e) :
    NumText f.text e := by
  unfold readNumber at h
  fun_induction Term.ofFragment f generalizing e with
  | case1 f hi => exact numText_of_atomNumber h
  | case2 f t hi e' ho => cases h
  | case3 f t hi a c b ho k iha =>
    -- the hypothesis for the second operand comes without a name
    rename_i ihb
    obtain ⟨o, x, y, rfl, hx, hy, rfl⟩ := Term.number_node_eq_ok_iff.1 h
    rw [eq_of_operands hi ho]
    exact .arith o (iha hx) (ihb hy)

theorem boolText_of_readBoolean {f : Fragment} {p : BoolExpr} (h : readBoolean f = .ok p) :
    BoolText f.text p := by
  unfold readBoolean at h
  fun_induction Term.ofFragment f generalizing p with
  | case1 f hi =>
    rw [Term.boolean] at h
    split at h <;> cases h
  | case2 f t hi e' ho => cases h
  | case3 f t hi a c b ho k iha =>
    rename_i ihb
    rw [eq_of_operands hi ho]
    obtain ⟨o, x, y, rfl, hx, hy, rfl⟩ | ⟨o, x, y, rfl, hx, hy, rfl⟩ :=
      Term.boolean_node_eq_ok_iff.1 h
    · exact .rel o (numText_of_readNumber hx) (numText_of_readNumber hy)
    · exact .binary o (iha hx) (ihb hy)

theorem readNumber_eq_ok_iff {f : Fragment} {e : NumExpr} :
    readNumber f = .ok e ↔ NumText f.text e := ⟨numText_of_readNumber, fun h => h.readNumber_eq _⟩

theorem readBoolean_eq_ok_iff {f : Fragment} {p : BoolExpr} :
    readBoolean f = .ok p ↔ BoolText f.text p :=
  ⟨boolText_of_readBoolean, fun h => h.readBoolean_eq _⟩

/-! ## Calls -/

theorem CallText.exists_body {t : List Char} {c : Call} (h : CallText t c) :
    ∃ s, t = c.kind.word ++ '{' :: (s ++ ['}']) ∧ ∀ k, readBody c.kind ⟨s, k⟩ = .ok c := by
  cases h with
  | @map s e h => exact ⟨s, rfl, fun k => by simp only [Call.kind, readBody, h.readNumber_eq]; rfl⟩
  | @filter s p h =>
    exact ⟨s, rfl, fun k => by simp only [Call.kind, readBody, h.readBoolean_eq]; rfl⟩

theorem callText_of_readBody {kind : Call.Kind} {f : Fragment} {c : Call}
    (h : readBody kind f = .ok c) : CallText (kind.word ++ '{' :: (f.text ++ ['}'])) c := by
  cases kind with
  | map =>
    cases hn : readNumber f with
    | error e => rw [readBody, hn] at h; cases h
    | ok e =>
      rw [readBody, hn] at h
      cases h
      exact .map (readNumber_eq_ok_iff.1 hn)
  | filter =>
    cases hb : readBoolean f with
    | error e => rw [readBody, hb] at h; cases h
    | ok p =>
      rw [readBody, hb] at h
      cases h
      exact .filter (readBoolean_eq_ok_iff.1 hb)

theorem CallText.readCall_eq {t : List Char} {c : Call} (h : CallText t c) (k : Nat) :
    readCall ⟨t, k⟩ = .ok c := by
  obtain ⟨s, rfl, hs⟩ := h.exists_body
  rw [readCall_append, hs]
  rfl

theorem callText_of_readCall {f : Fragment} {c : Call} (hf : f.text.getLast? = some '}')
    (h : readCall f = .ok c) : CallText f.text c := by
  obtain ⟨t, k⟩ := f
  obtain ⟨w, rfl⟩ := List.getLast?_eq_some_iff.1 hf
  obtain ⟨-, hr⟩ | ⟨v, b, -, -, -, hr⟩ | ⟨kind, b, rfl, hr⟩ := readCall_cases w k
  · rw [hr] at h
    cases h
  · rw [hr] at h
    cases h
  · rw [hr] at h
    simpa using callText_of_readBody (mapError_eq_ok_iff.1 h)

theorem readSingleCall_eq_ok_iff {f : Fragment} {c : Call} :
    readSingleCall f = .ok c ↔ CallText f.text c := by
  unfold readSingleCall
  constructor
  · intro h
    split at h
    · exact callText_of_readCall ‹_› h
    · cases h
  · intro h
    obtain ⟨s, -, hs⟩ := h.eq_append_brace
    rw [if_pos (by simp [hs])]
    exact h.readCall_eq _

/-! ## Chains -/

/-- One turn on a text that begins with a call: what comes after the call decides the rest. -/
theorem CallText.readCalls_append {t : List Char} {c : Call} (h : CallText t c) (g : List Char)
    (k : Nat) : readCalls ⟨t ++ g, k⟩ =
      if g = [] then ⟨[c], none⟩
      else
        match word? Chain.separator g with
        | none => ⟨[c], some (.strayText ⟨g, k + byteLength t⟩ ⟨t, k⟩)⟩
        | some (_, []) => ⟨[c], some (.danglingSeparator ⟨g, k + byteLength t⟩)⟩
        | some (s, d :: r) => (readCalls ⟨d :: r, k + byteLength t + byteLength s⟩).cons c := by
  have hr := h.readCall_eq k
  obtain ⟨w, hw, rfl⟩ := h.eq_append_brace
  have hu : upTo? '}' (w ++ ['}'] ++ g) = some (w ++ ['}'], g) := by
    simpa using upTo?_append hw g
  rw [readCalls_turn]
  simp only [hu, hr]
  rfl

theorem CallText.readCalls_eq {t : List Char} {c : Call} (h : CallText t c) (k : Nat) :
    readCalls ⟨t, k⟩ = ⟨[c], none⟩ := by
  have ht := h.readCalls_append [] k
  rwa [List.append_nil, if_pos rfl] at ht

/-- A call before a separator and some more text is read, and then that text. -/
theorem CallText.readCalls_separator {t : List Char} {c : Call} (h : CallText t c) {s : List Char}
    (hs : s ≠ []) (k : Nat) : readCalls ⟨t ++ (Chain.separator ++ s), k⟩ =
      (readCalls ⟨s, k + byteLength t + byteLength Chain.separator⟩).cons c := by
  obtain ⟨d, r, rfl⟩ := List.exists_cons_of_ne_nil hs
  rw [h.readCalls_append, if_neg (by simp [Chain.separator]), word?_append]

theorem ChainText.readCalls_eq {t : List Char} {c : Chain} (h : ChainText t c) (k : Nat) :
    readCalls ⟨t, k⟩ = ⟨c, none⟩ := by
  induction h generalizing k with
  | single h => exact h.readCalls_eq k
  | cons h hr ih => rw [h.readCalls_separator hr.ne_nil, ih, Reading.cons]

theorem callText_of_upTo? {f : Fragment} {t rest : List Char} {c : Call}
    (hu : upTo? '}' f.text = some (t, rest)) (hc : readCall ⟨t, f.offset⟩ = .ok c) :
    CallText t c := by
  obtain ⟨s, -, hs⟩ := exists_of_upTo? hu
  exact callText_of_readCall (by simpa using congrArg List.getLast? hs) hc

theorem chainText_of_readCalls {f : Fragment} (h : (readCalls f).fault? = none) :
    ChainText f.text (readCalls f).calls := by
  fun_induction readCalls f with
  | case1 => cases h
  | case2 => cases h
  | case3 f t call c hc hu =>
    have ht := append_of_upTo? hu
    rw [List.append_nil] at ht
    exact ht ▸ .single (callText_of_upTo? hu hc)
  | case4 => cases h
  | case5 => cases h
  | case6 f t rest hu call remainder c hc hne s d next hw ih =>
    -- the text is the call, the separator and what follows, in this order
    have hr := append_of_word? hw
    have ht := append_of_upTo? hu
    rw [fst_of_word? hw] at hr
    rw [← ht, ← hr]
    exact .cons (callText_of_upTo? hu hc) (ih h)

theorem result_readChain_eq_ok_iff {f : Fragment} {c : Chain} :
    (readChain f).result = .ok c ↔ ChainText f.text c := by
  rw [Reading.result_eq_ok_iff]
  unfold readChain
  constructor
  · intro h
    split at h
    · cases h.1
    · obtain ⟨h, rfl⟩ := h
      exact chainText_of_readCalls h
  · intro h
    rw [if_neg h.ne_nil, h.readCalls_eq]
    exact ⟨rfl, rfl⟩

theorem ChainText.unique {t : List Char} {c d : Chain} (hc : ChainText t c)
    (hd : ChainText t d) : c = d := by
  have h := (result_readChain_eq_ok_iff (f := .whole t)).2 hc
  rw [result_readChain_eq_ok_iff.2 hd] at h
  exact (Except.ok.inj h).symm

/-- **Reading is derivation.** A text is read as a chain exactly when the grammar derives it with
this tree, and no text has two trees. -/
theorem readChain_whole_eq_ok_iff :
    (∀ (t : List Char) (c : Chain), (readChain (.whole t)).result = .ok c ↔ ChainText t c) ∧
      ∀ (t : List Char) (c d : Chain), ChainText t c → ChainText t d → c = d :=
  ⟨fun _ _ => result_readChain_eq_ok_iff, fun _ _ _ => ChainText.unique⟩

/-- In `map{(01--2)}` the first minus is the operator and the second one a sign. -/
theorem readChain_whole_two_minuses :
    ChainText ("map".toList ++ ['{', '(', '0', '1', '-', '-', '2', ')', '}'])
        [.map (.arith (.const 1) .minus (.const (-2)))] ∧
      ¬ ChainText ("map".toList ++ ['{', '(', '0', '1', '-', '-', '2', ')', '}'])
        [.map (.arith (.const 1) .minus (.const 2))] := by
  have h1 : IntText ['0', '1'] (1 : Int32).toInt := .plain (.snoc (.digit rfl) rfl)
  have h2 : IntText ['-', '2'] (-2 : Int32).toInt := .minus (.digit rfl)
  have h : ChainText ("map".toList ++ ['{', '(', '0', '1', '-', '-', '2', ')', '}'])
      [.map (.arith (.const 1) .minus (.const (-2)))] :=
    .single (.map (.arith .minus (.const h1) (.const h2)))
  exact ⟨h, fun h' => absurd (readChain_whole_eq_ok_iff.2 _ _ _ h h') (by decide)⟩

/-! ## Printing -/

theorem digitsText_toDigits (n : Nat) : DigitsText (Nat.toDigits 10 n) n :=
  digitsText_iff.2 ⟨Nat.toDigits_ne_nil, fun _ hc => Nat.isDigit_of_mem_toDigits (by omega)
    (by omega) hc, Nat.ofDigitChars_ten_toDigits.symm⟩

theorem intText_numeral (n : Int32) : IntText (numeral n) n.toInt := by
  have h := digitsText_toDigits n.toInt.natAbs
  unfold numeral
  split
  · rename_i hn
    have hv : n.toInt = -(n.toInt.natAbs : Int) := by omega
    rw [hv, Int.natAbs_neg, Int.natAbs_natCast]
    exact .minus h
  · rename_i hn
    have hv : n.toInt = (n.toInt.natAbs : Int) := by omega
    rw [hv, Int.natAbs_natCast]
    exact .plain h

theorem numText_render (e : NumExpr) : NumText e.render e := by
  induction e with
  | const n => exact .const (intText_numeral n)
  | element => exact .element
  | arith a o b iha ihb => exact .arith o iha ihb

theorem boolText_render (p : BoolExpr) : BoolText p.render p := by
  induction p with
  | rel a o b => exact .rel o (numText_render a) (numText_render b)
  | binary p o q ihp ihq => exact .binary o ihp ihq

theorem callText_render (c : Call) : CallText c.render c := by
  cases c with
  | map e => exact .map (numText_render e)
  | filter p => exact .filter (boolText_render p)

theorem chainText_render {c : Chain} (h : c ≠ []) : ChainText c.render c := by
  induction c with
  | nil => exact absurd rfl h
  | cons c r ih =>
    cases r with
    | nil => simpa [Chain.render] using ChainText.single (callText_render c)
    | cons d r =>
      have := ChainText.cons (callText_render c) (ih (by simp))
      simpa [Chain.render, List.intercalate_cons_cons] using this

/-- **Reading inverts printing.** Only the empty chain, whose text is empty, is not read back. -/
theorem read_render :
    (∀ e : NumExpr, readNumber (.whole e.render) = .ok e) ∧
      (∀ p : BoolExpr, readBoolean (.whole p.render) = .ok p) ∧
      (∀ c : Call, readSingleCall (.whole c.render) = .ok c) ∧
      (∀ c : Chain, (readChain (.whole c.render)).result = .ok c ↔ c ≠ []) ∧
      Chain.render [] = [] := by
  refine ⟨fun e => (numText_render e).readNumber_eq 0, fun p => (boolText_render p).readBoolean_eq 0,
    fun c => readSingleCall_eq_ok_iff.2 (callText_render c), fun c => ?_, rfl⟩
  rw [result_readChain_eq_ok_iff]
  constructor
  · rintro h rfl
    exact h.ne_nil rfl
  · exact chainText_render

/-! ## The alphabet of chains -/

/-- Whether a character may occur in a text of a chain. -/
def inAlphabet (c : Char) : Bool :=
  c.isAlphanum || ['{', '}', '(', ')', '%', '+', '-', '*', '=', '>', '<', '&', '|'].contains c

theorem inAlphabet_of_isDigit {c : Char} (h : c.isDigit) : inAlphabet c := by
  rw [inAlphabet, Char.isAlphanum, h, Bool.or_true, Bool.true_or]

theorem all_inAlphabet_of_node {s t : List Char} {o : Char} (hs : s.all inAlphabet)
    (ho : inAlphabet o) (ht : t.all inAlphabet) :
    ('(' :: (s ++ o :: (t ++ [')']))).all inAlphabet := by
  have hl : inAlphabet '(' = true := rfl
  have hr : inAlphabet ')' = true := rfl
  simp only [List.all_cons, List.all_append, List.all_nil, hs, ho, ht, hl, hr, Bool.and_self]

theorem all_inAlphabet_of_braces {t : List Char} (k : Call.Kind) (ht : t.all inAlphabet) :
    (k.word ++ '{' :: (t ++ ['}'])).all inAlphabet := by
  have hk : k.word.all inAlphabet = true := by cases k <;> rfl
  have hl : inAlphabet '{' = true := rfl
  have hr : inAlphabet '}' = true := rfl
  simp only [List.all_cons, List.all_append, List.all_nil, hk, ht, hl, hr, Bool.and_self]

theorem IntText.all_inAlphabet {t : List Char} {n : Int} (h : IntText t n) : t.all inAlphabet := by
  cases h with
  | plain h => exact List.all_eq_true.2 fun c hc => inAlphabet_of_isDigit (h.isDigit c hc)
  | minus h =>
    rw [List.all_cons, Bool.and_eq_true]
    exact ⟨rfl, List.all_eq_true.2 fun c hc => inAlphabet_of_isDigit (h.isDigit c hc)⟩

theorem NumText.all_inAlphabet {t : List Char} {e : NumExpr} (h : NumText t e) :
    t.all inAlphabet := by
  induction h with
  | element => rfl
  | const h => exact h.all_inAlphabet
  | arith o ha hb iha ihb => exact all_inAlphabet_of_node iha (by cases o <;> rfl) ihb

theorem BoolText.all_inAlphabet {t : List Char} {p : BoolExpr} (h : BoolText t p) :
    t.all inAlphabet := by
  induction h with
  | rel o ha hb =>
    exact all_inAlphabet_of_node ha.all_inAlphabet (by cases o <;> rfl) hb.all_inAlphabet
  | binary o hp hq ihp ihq => exact all_inAlphabet_of_node ihp (by cases o <;> rfl) ihq

theorem CallText.all_inAlphabet {t : List Char} {c : Call} (h : CallText t c) :
    t.all inAlphabet := by
  cases h with
  | map h => exact all_inAlphabet_of_braces _ h.all_inAlphabet
  | filter h => exact all_inAlphabet_of_braces _ h.all_inAlphabet

/-- A text of a chain is written in the alphabet. -/
theorem ChainText.all_inAlphabet {t : List Char} {c : Chain} (h : ChainText t c) :
    t.all inAlphabet := by
  induction h with
  | single h => exact h.all_inAlphabet
  | cons h hr ih =>
    have hs : Chain.separator.all inAlphabet = true := rfl
    simp only [List.all_append, h.all_inAlphabet, hs, ih, Bool.and_self]

theorem ChainText.not_mem {t : List Char} {c : Chain} (h : ChainText t c) {d : Char}
    (hd : inAlphabet d = false) : d ∉ t := by
  intro hm
  rw [List.all_eq_true.1 h.all_inAlphabet d hm] at hd
  cases hd

end MapFilter
