import MapFilter.Proofs.Grammar.Reading

/-!
# More text before and after a chain

What a fragment is read as depends on its text alone. Its offset only moves the fault, and the
diagnostic of a fault that is moved by `n` bytes differs in nothing but the spans of its labels.

The reader never looks back. After the text of a chain it expects the end or a separator, and what
follows a separator is read as it would be read alone, only further on.

* `Diagnostic.shift`, `Term.shift`, `Reading.shift`;
* `Fault.diagnostic_shift`: the diagnostic of a moved fault;
* `Term.ofFragment_shift`, `readCall_shift`, **`readChain_shift`**: the readers of terms, calls and
  chains;
* `LastCall`: the place of the last call in the text of a chain;
* `ChainText.readCalls_separator`: a chain, a separator and more text;
* `LastCall.readCalls_append`: a chain and any text after it, by its last call;
* **`verdict_append`**: all that can come after a chain.
-/

namespace MapFilter

section Shift

/-! ## Diagnostics -/

/-- The same label `n` bytes further on. -/
def Label.shift (n : Nat) (l : Label) : Label := { l with span := l.span.shift n }

/-- The same diagnostic with each label `n` bytes further on. -/
def Diagnostic.shift (n : Nat) (d : Diagnostic) : Diagnostic :=
  { d with labels := d.labels.map (Label.shift n) }

variable (n : Nat)

theorem Fragment.span_shift (f : Fragment) : (f.shift n).span = f.span.shift n := by
  have h : f.offset + n + byteLength f.text = f.offset + byteLength f.text + n := by omega
  ext
  · rfl
  · exact h

theorem Fragment.after_shift (f : Fragment) (s r : List Char) :
    (f.shift n).after s r = (f.after s r).shift n := by
  rw [after, after, shift, shift, Nat.add_right_comm]

theorem ExprFault.marked_shift (e : ExprFault) : (e.shift n).marked = e.marked.shift n := by
  cases e <;> rfl

theorem ExprFault.diagnostic_shift (e : ExprFault) :
    (e.shift n).diagnostic = e.diagnostic.shift n := by
  have hc : (e.shift n).code = e.code := by cases e <;> rfl
  have hm : (e.shift n).message = e.message := by cases e <;> rfl
  have hr : (e.shift n).remark = e.remark := by cases e <;> rfl
  have hh : (e.shift n).help? = e.help? := by cases e <;> rfl
  have hs : (e.shift n).marked.span = e.marked.span.shift n := by
    rw [marked_shift, Fragment.span_shift]
  rw [diagnostic, hc, hm, hs, hr, hh]
  rfl

/-- **A moved fault has a moved diagnostic**: the code, the message, the help and the remarks stay,
and every span moves. -/
theorem Fault.diagnostic_shift (e : Fault) : (e.shift n).diagnostic = e.diagnostic.shift n := by
  cases e with
  | inBody call kind e =>
    rw [shift, diagnostic, ExprFault.diagnostic_shift, Fragment.span_shift, diagnostic]
    simp only [Diagnostic.shift, Diagnostic.secondary, List.map_append, List.map_cons, List.map_nil,
      Label.shift]
  | strayText f call =>
    rw [shift, diagnostic, Fragment.span_shift, Fragment.span_shift]
    rfl
  | _ f =>
    rw [shift, diagnostic, Fragment.span_shift]
    rfl

/-! ## Terms -/

/-- The same term `n` bytes further on. -/
def Term.shift : Term → Term
  | atom f => atom (f.shift n)
  | node f l c k r => node (f.shift n) l.shift c (k + n) r.shift
  | broken e => broken (e.shift n)

theorem firstOperand_shift (f : Fragment) :
    firstOperand (f.shift n) = (firstOperand f).mapError (.shift n) := by
  obtain ⟨s, k⟩ := f
  cases s with
  | nil => rfl
  | cons c s =>
    simp only [firstOperand, Fragment.shift]
    by_cases hp : c = '('
    · simp only [if_pos hp]
      cases group? (c :: s) <;> rfl
    · by_cases hd : c = '-' ∨ c.isDigit
      · simp only [if_neg hp, if_pos hd]
        cases signedDigits? (c :: s) <;> rfl
      · simp only [if_neg hp, if_neg hd]
        cases word? elementWord (c :: s) <;> rfl

theorem operands_shift (f : Fragment) :
    operands (f.shift n) = (operands f).mapError (.shift n) := by
  rw [operands, operands, firstOperand_shift]
  rcases firstOperand f with e | ⟨a, _ | ⟨c, b⟩⟩ <;> rfl

theorem Term.ofFragment_shift (f : Fragment) :
    Term.ofFragment (f.shift n) = (Term.ofFragment f).shift n := by
  fun_induction Term.ofFragment f with
  | case1 f hi =>
    have hi' : inner? (f.shift n).text = none := hi
    rw [ofFragment_eq, hi']
    rfl
  | case2 f t hi e ho =>
    have hi' : inner? (f.shift n).text = some t := hi
    have ho' : operands ⟨t, f.offset + n + 1⟩ = .error (e.shift n) := by
      have h := operands_shift n ⟨t, f.offset + 1⟩
      rwa [ho, Fragment.shift, Nat.add_right_comm] at h
    rw [ofFragment_eq, hi']
    simp only [Fragment.shift, ho', shift]
  | case3 f t hi a c b ho k iha ihb =>
    have hi' : inner? (f.shift n).text = some t := hi
    have ho' : operands ⟨t, f.offset + n + 1⟩ = .ok (a, c, b) := by
      have h := operands_shift n ⟨t, f.offset + 1⟩
      rwa [ho, Fragment.shift, Nat.add_right_comm] at h
    have hk : f.offset + n + 1 + byteLength a = k + n := by omega
    have hb : k + n + c.utf8Size = k + c.utf8Size + n := by omega
    have ha : f.offset + n + 1 = f.offset + 1 + n := by omega
    rw [Fragment.shift] at iha ihb
    rw [ofFragment_eq, hi']
    simp only [Fragment.shift, ho', hk, hb, shift]
    rw [ha, iha, ihb]

theorem Term.atomNumber_shift (f : Fragment) :
    atomNumber (f.shift n) = (atomNumber f).mapError (.shift n) := by
  obtain ⟨t, k⟩ := f
  have hf : Fragment.shift n ⟨t, k⟩ = ⟨t, k + n⟩ := rfl
  rw [hf, atomNumber, atomNumber]
  by_cases hw : t = elementWord
  · rw [if_pos hw, if_pos hw]
    rfl
  · rw [if_neg hw, if_neg hw]
    cases literal? t with
    | none => rfl
    | some v =>
      dsimp only
      cases ofInt32? v <;> rfl

theorem Term.number_shift (t : Term) : (t.shift n).number = t.number.mapError (.shift n) := by
  induction t with
  | atom f => exact atomNumber_shift n f
  | broken e => rfl
  | node f l c k r ihl ihr =>
    rw [shift, number, number, ihl, ihr]
    cases ArithOp.ofSymbol? c with
    | some o => cases l.number <;> cases r.number <;> rfl
    | none =>
      dsimp only
      by_cases ho : (RelOp.ofSymbol? c).isSome ∨ (BoolOp.ofSymbol? c).isSome
      · rw [if_pos ho, if_pos ho]
        rfl
      · rw [if_neg ho, if_neg ho]
        rfl

theorem Term.boolean_shift (t : Term) : (t.shift n).boolean = t.boolean.mapError (.shift n) := by
  induction t with
  | atom f =>
    rw [shift, boolean, boolean, atomNumber_shift]
    cases atomNumber f <;> rfl
  | broken e => rfl
  | node f l c k r ihl ihr =>
    rw [shift, boolean, boolean, ihl, ihr, number_shift, number_shift]
    cases RelOp.ofSymbol? c with
    | some o => cases l.number <;> cases r.number <;> rfl
    | none =>
      cases BoolOp.ofSymbol? c with
      | some o => cases l.boolean <;> cases r.boolean <;> rfl
      | none =>
        dsimp only
        by_cases ho : (ArithOp.ofSymbol? c).isSome
        · rw [if_pos ho, if_pos ho]
          rfl
        · rw [if_neg ho, if_neg ho]
          rfl

/-! ## Calls and chains -/

theorem readBody_shift (kind : Call.Kind) (f : Fragment) :
    readBody kind (f.shift n) = (readBody kind f).mapError (.shift n) := by
  cases kind with
  | map =>
    rw [readBody, readBody, readNumber, Term.ofFragment_shift, Term.number_shift, readNumber]
    cases (Term.ofFragment f).number <;> rfl
  | filter =>
    rw [readBody, readBody, readBoolean, Term.ofFragment_shift, Term.boolean_shift, readBoolean]
    cases (Term.ofFragment f).boolean <;> rfl

theorem readCall_shift (f : Fragment) :
    readCall (f.shift n) = (readCall f).mapError (.shift n) := by
  unfold readCall
  simp only [Fragment.shift]
  cases f.text.dropWhile (· ≠ '{') with
  | nil => rfl
  | cons d rest =>
    cases Call.Kind.ofWord? (f.text.takeWhile (· ≠ '{')) with
    | none => rfl
    | some kind =>
      have h := readBody_shift n kind
        ⟨rest.dropLast, f.offset + byteLength (f.text.takeWhile (· ≠ '{')) + 1⟩
      have hk : f.offset + n + byteLength (f.text.takeWhile (· ≠ '{')) + 1 =
          f.offset + byteLength (f.text.takeWhile (· ≠ '{')) + 1 + n := by omega
      rw [Fragment.shift] at h
      simp only [hk, h]
      cases readBody kind _ <;> rfl

variable {n} in
theorem readCall_shift_eq_ok {f : Fragment} {c : Call} (h : readCall f = .ok c) :
    readCall (f.shift n) = .ok c := by
  rw [readCall_shift, h]
  rfl

/-- The same reading `n` bytes further on. -/
def Reading.shift (r : Reading) : Reading := { r with fault? := r.fault?.map (.shift n) }

theorem readCalls_shift (f : Fragment) : readCalls (f.shift n) = (readCalls f).shift n := by
  fun_induction readCalls f with
  | case1 f hu =>
    have hu' : upTo? '}' (f.shift n).text = none := hu
    rw [readCalls_turn, hu']
    rfl
  | case2 f t rest hu call e hc =>
    have hu' : upTo? '}' (f.shift n).text = some (t, rest) := hu
    have hc' : readCall ⟨t, (f.shift n).offset⟩ = _ := readCall_shift n call
    rw [hc] at hc'
    rw [readCalls_turn, hu']
    simp only [hc']
    rfl
  | case3 f t call c hc hu =>
    have hu' : upTo? '}' (f.shift n).text = some (t, []) := hu
    have hc' : readCall ⟨t, (f.shift n).offset⟩ = .ok c := readCall_shift_eq_ok hc
    rw [readCalls_turn, hu']
    simp only [hc']
    rfl
  | case4 f t rest hu call remainder c hc hne hw =>
    have hu' : upTo? '}' (f.shift n).text = some (t, rest) := hu
    have hc' : readCall ⟨t, (f.shift n).offset⟩ = .ok c := readCall_shift_eq_ok hc
    rw [readCalls_turn, hu']
    simp only [hc', if_neg hne, hw, Fragment.after_shift]
    rfl
  | case5 f t rest hu call remainder c hc hne s hw =>
    have hu' : upTo? '}' (f.shift n).text = some (t, rest) := hu
    have hc' : readCall ⟨t, (f.shift n).offset⟩ = .ok c := readCall_shift_eq_ok hc
    rw [readCalls_turn, hu']
    simp only [hc', if_neg hne, hw, Fragment.after_shift]
    rfl
  | case6 f t rest hu call remainder c hc hne s d next hw ih =>
    have hu' : upTo? '}' (f.shift n).text = some (t, rest) := hu
    have hc' : readCall ⟨t, (f.shift n).offset⟩ = .ok c := readCall_shift_eq_ok hc
    rw [readCalls_turn, hu']
    simp only [hc', if_neg hne, hw, Fragment.after_shift]
    rw [ih]
    rfl

/-- **Reading further on in a text** gives the same calls, and the same fault further on. -/
theorem readChain_shift (f : Fragment) : readChain (f.shift n) = (readChain f).shift n := by
  unfold readChain
  by_cases hf : f.text = []
  · rw [if_pos hf, if_pos (show (f.shift n).text = [] from hf)]
    rfl
  · rw [if_neg hf, if_neg (show (f.shift n).text ≠ [] from hf), readCalls_shift]

end Shift

/-! ## The last call of a chain -/

/-- The reading with a chain more in front. -/
def Reading.prepend (c : Chain) (r : Reading) : Reading := { r with calls := c ++ r.calls }

/-- `LastCall t c p u`: in the text `t` of the chain `c`, the last call has the text `u` and what
stands before it is `p`. -/
inductive LastCall : List Char → Chain → List Char → List Char → Prop
  | single {u : List Char} {d : Call} (h : CallText u d) : LastCall u [d] [] u
  | after {s u : List Char} {b : Chain} {d : Call} (hs : ChainText s b) (h : CallText u d) :
    LastCall (s ++ (Chain.separator ++ u)) (b ++ [d]) (s ++ Chain.separator) u

variable {t p u : List Char} {c : Chain}

theorem byteLength_separator : byteLength Chain.separator = 3 := rfl

/-! ## What follows a chain -/

theorem ChainText.exists_lastCall (h : ChainText t c) : ∃ p u, LastCall t c p u := by
  induction h with
  | single h => exact ⟨_, _, .single h⟩
  | @cons t s d r h hr ih =>
    obtain ⟨p, u, hl⟩ := ih
    cases hl with
    | single hu => exact ⟨_, _, .after (.single h) hu⟩
    | @after q u b e hq hu =>
      have hl := LastCall.after (.cons h hq) hu
      simp only [List.append_assoc, List.cons_append] at hl
      exact ⟨_, _, hl⟩

theorem ChainText.readCalls_separator (h : ChainText t c) {s : List Char} (hs : s ≠ []) (k : Nat) :
    readCalls ⟨t ++ (Chain.separator ++ s), k⟩ =
      (readCalls ⟨s, k + byteLength t + byteLength Chain.separator⟩).prepend c := by
  induction h generalizing k with
  | single h => exact h.readCalls_separator hs k
  | @cons t u d r h hr ih =>
    have hu : u ++ (Chain.separator ++ s) ≠ [] := by simp [hr.ne_nil]
    have hk : k + byteLength t + byteLength Chain.separator + byteLength u =
        k + byteLength (t ++ (Chain.separator ++ u)) := by
      rw [byteLength_append, byteLength_append]
      omega
    simp only [List.append_assoc]
    rw [h.readCalls_separator hu, ih, hk]
    rfl

theorem LastCall.byteLength_eq (h : LastCall t c p u) :
    byteLength t = byteLength p + byteLength u := by
  cases h with
  | single h => rw [byteLength_nil, Nat.zero_add]
  | after hs h => rw [byteLength_append, byteLength_append, byteLength_append, Nat.add_assoc]

/-- Text after a chain meets the reader right behind the last call. -/
theorem LastCall.readCalls_append (h : LastCall t c p u) (g : List Char) (k : Nat) :
    readCalls ⟨t ++ g, k⟩ = (readCalls ⟨u ++ g, k + byteLength p⟩).prepend c.dropLast := by
  cases h with
  | single h => rfl
  | @after s u b d hs h =>
    have hu : u ++ g ≠ [] := by
      obtain ⟨w, -, rfl⟩ := h.eq_append_brace
      simp
    rw [List.append_assoc, List.append_assoc, hs.readCalls_separator hu, List.dropLast_concat,
      byteLength_append, Nat.add_assoc]

theorem LastCall.exists_callText (h : LastCall t c p u) : ∃ d, CallText u d := by
  cases h with
  | single h => exact ⟨_, h⟩
  | after hs h => exact ⟨_, h⟩

theorem LastCall.fault?_stray (h : LastCall t c p u) {g : List Char} (hg : g ≠ [])
    (hs : ¬Chain.separator <+: g) (k : Nat) : (readCalls ⟨t ++ g, k⟩).fault? =
      some (.strayText ⟨g, k + byteLength t⟩ ⟨u, k + byteLength p⟩) := by
  obtain ⟨d, hd⟩ := h.exists_callText
  rw [h.readCalls_append, hd.readCalls_append, if_neg hg, word?_eq_none_iff.2 hs, h.byteLength_eq,
    ← Nat.add_assoc]
  rfl

theorem LastCall.fault?_dangling (h : LastCall t c p u) (k : Nat) :
    (readCalls ⟨t ++ Chain.separator, k⟩).fault? =
      some (.danglingSeparator ⟨Chain.separator, k + byteLength t⟩) := by
  obtain ⟨d, hd⟩ := h.exists_callText
  have hw : word? Chain.separator Chain.separator = some (Chain.separator, []) := by
    simpa using word?_append Chain.separator []
  have hne : Chain.separator ≠ [] := List.cons_ne_nil _ _
  rw [h.readCalls_append, hd.readCalls_append, if_neg hne, hw, h.byteLength_eq, ← Nat.add_assoc]
  rfl

/-! ## Verdicts -/

namespace Reading

theorem verdict_prepend (c : Chain) (r : Reading) :
    (r.prepend c).verdict = r.verdict.map (c ++ ·) := by
  obtain ⟨calls, fault?⟩ := r
  cases fault? <;> rfl

theorem verdict_shift (n : Nat) (r : Reading) :
    (r.shift n).verdict = r.verdict.mapError (.shift n) := by
  obtain ⟨calls, fault?⟩ := r
  cases fault? with
  | none => rfl
  | some e => exact congrArg Except.error (e.diagnostic_shift n)

end Reading

/-- **All that can come after a chain.** Any text but a separator is a fault of its own, marked with
the call before it, and so is a separator at the end. What follows a separator is read as it would
be alone: its chain comes after the first one, and its diagnostic moves. -/
theorem verdict_append (h : (readChain (.whole t)).verdict = .ok c) :
    (∀ g, g ≠ [] → ¬Chain.separator <+: g → ∃ p u d, LastCall t c p u ∧
        (readChain (.whole (t ++ g))).verdict = .error d ∧ d.code = .expectedSeparator ∧
        d.labels.map (fun l => (l.role, l.span)) =
          [(.primary, .ofBounds (byteLength t) (byteLength (t ++ g))),
            (.secondary, .ofBounds (byteLength p) (byteLength t))]) ∧
      (∃ d, (readChain (.whole (t ++ Chain.separator))).verdict = .error d ∧
        d.code = .danglingSeparator ∧
        d.labels.map (fun l => (l.role, l.span)) =
          [(.primary, .ofBounds (byteLength t) (byteLength t + 3))]) ∧
      ∀ s, s ≠ [] → (readChain (.whole (t ++ (Chain.separator ++ s)))).verdict =
        match (readChain (.whole s)).verdict with
        | .ok d => .ok (c ++ d)
        | .error d => .error (d.shift (byteLength t + 3)) := by
  have ht : ChainText t c := result_readChain_eq_ok_iff.1 (Reading.verdict_eq_ok_iff.1 h)
  have hne : ∀ g, t ++ g ≠ [] := fun g => by simp [ht.ne_nil]
  obtain ⟨p, u, hl⟩ := ht.exists_lastCall
  refine ⟨fun g hg hs => ?_, ?_, fun s hs => ?_⟩
  · have hf := hl.fault?_stray hg hs 0
    rw [← readChain_of_ne_nil (hne g)] at hf
    refine ⟨p, u, _, hl, Reading.verdict_of_fault? hf, rfl, ?_⟩
    simp only [Fault.diagnostic, List.map_cons, List.map_nil, Fragment.span_eq_ofBounds,
      Nat.zero_add, byteLength_append, hl.byteLength_eq]
  · have hf := hl.fault?_dangling 0
    rw [← readChain_of_ne_nil (hne _)] at hf
    refine ⟨_, Reading.verdict_of_fault? hf, rfl, ?_⟩
    simp only [Fault.diagnostic, List.map_cons, List.map_nil, Fragment.span_eq_ofBounds,
      Nat.zero_add, byteLength_separator]
  · have hf : Fragment.shift (byteLength t + 3) (.whole s) =
        ⟨s, 0 + byteLength t + byteLength Chain.separator⟩ := by
      rw [Fragment.whole, Fragment.shift, byteLength_separator, Nat.zero_add, Nat.zero_add]
    have hk : readCalls ⟨s, 0 + byteLength t + byteLength Chain.separator⟩ =
        (readChain (.whole s)).shift (byteLength t + 3) := by
      rw [← readChain_shift, hf, readChain_of_ne_nil hs]
    rw [Fragment.whole, readChain_of_ne_nil (hne _), ht.readCalls_separator hs, hk,
      Reading.verdict_prepend, Reading.verdict_shift]
    cases (readChain (.whole s)).verdict <;> rfl

/-- After `map{element}` a second closing brace is a fault, and so is a separator, while the same call
behind a separator is read. -/
theorem verdict_append_map_element :
    (∃ p u d, LastCall "map\x7belement\x7d".toList [Call.noOpMap] p u ∧
        (readChain (.whole "map\x7belement\x7d\x7d".toList)).verdict = .error d ∧
        d.code = .expectedSeparator ∧ d.labels.map (fun l => (l.role, l.span)) =
          [(.primary, .ofBounds 12 13), (.secondary, .ofBounds (byteLength p) 12)]) ∧
      (∃ d, (readChain (.whole "map\x7belement\x7d%>%".toList)).verdict = .error d ∧
        d.code = .danglingSeparator ∧
        d.labels.map (fun l => (l.role, l.span)) = [(.primary, .ofBounds 12 15)]) ∧
      (readChain (.whole "map\x7belement\x7d%>%map\x7belement\x7d".toList)).verdict =
        .ok [Call.noOpMap, Call.noOpMap] := by
  have h : (readChain (.whole "map\x7belement\x7d".toList)).verdict = .ok [Call.noOpMap] :=
    Reading.verdict_eq_ok_iff.2 (result_readChain_eq_ok_iff.2 (.single (.map .element)))
  refine ⟨(verdict_append h).1 ['}'] (by decide) (by decide), (verdict_append h).2.1, ?_⟩
  have hs := (verdict_append h).2.2 "map\x7belement\x7d".toList (by decide)
  rw [h] at hs
  exact hs

end MapFilter
