import MapFilter.Proofs.Reading.Marks

/-!
# The text around a fault

The reader stops at the first fault. So all is well before it, and when the fault lies in a call
that has its closing brace, nothing behind that brace matters.

The reader keeps the calls that it read. When it finds a fault, those are the calls of the text that
stands before it: of a whole chain when the fault comes behind a call, and else of a chain and a
separator, or of nothing.

* `Diagnostic.secondarySpan?`, `Diagnostic.site?`: where the call at fault begins;
* `Breaks.exists_chain`, `Breaks.exists_leadsIn`: what stands before a fault;
* `Diagnostic.Code.inCall`, `Breaks.exists_call`: the call at fault, whatever comes after it;
* **`chain_before_fault`**: the text before a fault is a chain, or one with a separator after it;
* **`verdict_append_of_inCall`**: a fault in a call is final;
* `CallsBefore`: the calls that stand before a fault, by what its diagnostic marks;
* `ChainText.calls_append`: a chain keeps its calls when no call follows;
* `Breaks.callsBefore`, **`callsBefore_of_verdict`**: what the reader has read before a fault.
-/

namespace MapFilter

variable {p t u : List Char} {d : Diagnostic} {e : Fault}

/-! ## Where a diagnostic points -/

/-- The span of the first label that is not primary. -/
def Diagnostic.secondarySpan? (d : Diagnostic) : Option Span :=
  (d.labels.find? fun l => !l.isPrimary).map Label.span

/-- The secondary span or, when there is none, the primary one. -/
def Diagnostic.site? (d : Diagnostic) : Option Span := d.secondarySpan?.or d.primarySpan?

namespace Fault

/-- The call that is marked with the fault, or else what is marked as the fault. -/
def site (e : Fault) : Fragment := e.call?.getD e.marked

theorem site?_diagnostic (e : Fault) : e.diagnostic.site? = some e.site.span := by
  cases e <;> rfl

end Fault

/-! ## Before a fault -/

theorem LeadsIn.exists_chain {c : Call} (hp : LeadsIn p) (hu : CallText u c) :
    ∃ b, ChainText (p ++ u) b := by
  cases hp with
  | start => exact ⟨_, .single hu⟩
  | after h =>
    rw [List.append_assoc]
    exact ⟨_, h.append_call hu⟩

theorem LeadsIn.eq_nil_or (hp : LeadsIn p) :
    p = [] ∨ ∃ s c, p = s ++ Chain.separator ∧ (readChain (.whole s)).verdict = .ok c := by
  cases hp with
  | start => exact .inl rfl
  | after h =>
    exact .inr ⟨_, _, rfl, Reading.verdict_eq_ok_iff.2 (result_readChain_eq_ok_iff.2 h)⟩

/-- No fault within a body has the code of a fault between two calls. -/
theorem ExprFault.code_ne_separator (e : ExprFault) :
    ¬(e.code = .expectedSeparator ∨ e.code = .danglingSeparator) := by
  cases e <;> simp [code]

namespace Breaks

/-- A fault between two calls comes right behind a chain. -/
theorem exists_chain (h : Breaks t e) (hc : e.diagnostic.code = .expectedSeparator ∨
    e.diagnostic.code = .danglingSeparator) :
    ∃ a b c, t = a ++ b ∧ ChainText a c ∧ e.marked.offset = byteLength a := by
  cases h with
  | @strayText p u g d hp hu hg hs =>
    obtain ⟨c, h⟩ := hp.exists_chain hu
    exact ⟨p ++ u, g, c, (List.append_assoc p u g).symm, h, (byteLength_append p u).symm⟩
  | @danglingSeparator p u d hp hu =>
    obtain ⟨c, h⟩ := hp.exists_chain hu
    exact ⟨p ++ u, _, c, (List.append_assoc p u _).symm, h, (byteLength_append p u).symm⟩
  | inBody => exact absurd hc (ExprFault.code_ne_separator _)
  | _ => simp [Fault.diagnostic] at hc

/-- Any other fault is at a place where a call is due. -/
theorem exists_leadsIn (h : Breaks t e) (h0 : e.diagnostic.code ≠ .emptyInput)
    (hc : ¬(e.diagnostic.code = .expectedSeparator ∨ e.diagnostic.code = .danglingSeparator)) :
    ∃ p r, t = p ++ r ∧ LeadsIn p ∧ e.site.offset = byteLength p := by
  cases h with
  | empty => exact absurd rfl h0
  | strayText => exact absurd (.inl rfl) hc
  | danglingSeparator => exact absurd (.inr rfl) hc
  | unclosedCall hp | missingBody hp | unknownKeyword hp | inBody hp => exact ⟨_, _, rfl, hp, rfl⟩

end Breaks

/-- **All is well before a fault.** What stands before stray text or a dangling separator is a
chain. What stands before any other call at fault is nothing, or a chain and a separator. -/
theorem chain_before_fault (h : (readChain (.whole t)).verdict = .error d)
    (hd : d.code ≠ .emptyInput) :
    if d.code = .expectedSeparator ∨ d.code = .danglingSeparator then
      ∃ m a b c, d.primarySpan? = some m ∧ cutAt? m.start t = some (a, b) ∧
        (readChain (.whole a)).verdict = .ok c
    else
      ∃ m p r, d.site? = some m ∧ cutAt? m.start t = some (p, r) ∧
        (p = [] ∨ ∃ a c, p = a ++ Chain.separator ∧ (readChain (.whole a)).verdict = .ok c) := by
  obtain ⟨e, he, rfl⟩ := Reading.verdict_eq_error_iff.1 h
  have hb := fault?_readChain_iff.1 he
  split
  · rename_i hc
    obtain ⟨a, b, c, rfl, ha, hk⟩ := hb.exists_chain hc
    refine ⟨_, a, b, c, e.primarySpan?_diagnostic, cutAt?_eq_some_iff.2 ⟨rfl, hk.symm⟩, ?_⟩
    exact Reading.verdict_eq_ok_iff.2 (result_readChain_eq_ok_iff.2 ha)
  · rename_i hc
    obtain ⟨p, r, rfl, hp, hk⟩ := hb.exists_leadsIn hd hc
    exact ⟨_, p, r, e.site?_diagnostic, cutAt?_eq_some_iff.2 ⟨rfl, hk.symm⟩, hp.eq_nil_or⟩

/-- In `map{element}%>%reduce{1}` the second call is at fault, and in `map{element}}` the text after
the first one. -/
theorem chain_before_fault_two_texts :
    (∃ d, (readChain (.whole "map\x7belement\x7d%>%reduce\x7b1\x7d".toList)).verdict = .error d ∧
        d.code = .unknownCall ∧ ∃ m p r, d.site? = some m ∧
          cutAt? m.start "map\x7belement\x7d%>%reduce\x7b1\x7d".toList = some (p, r) ∧
          (p = [] ∨ ∃ a c, p = a ++ Chain.separator ∧ (readChain (.whole a)).verdict = .ok c)) ∧
      ∃ d, (readChain (.whole "map\x7belement\x7d\x7d".toList)).verdict = .error d ∧
        d.code = .expectedSeparator ∧ ∃ m a b c, d.primarySpan? = some m ∧
          cutAt? m.start "map\x7belement\x7d\x7d".toList = some (a, b) ∧
          (readChain (.whole a)).verdict = .ok c := by
  have hm : CallText "map\x7belement\x7d".toList Call.noOpMap := .map .element
  have hu := Breaks.unknownKeyword (w := "reduce".toList) (b := ['1']) (.after (.single hm))
    (by decide) (by decide) rfl []
  have hs := Breaks.strayText (g := ['}']) .start hm (by decide) (by decide)
  have vu := Reading.verdict_of_fault? hu.fault?_eq
  have vs := Reading.verdict_of_fault? hs.fault?_eq
  exact ⟨⟨_, vu, rfl, chain_before_fault vu (by decide)⟩, _, vs, rfl,
    chain_before_fault vs (by decide)⟩

/-! ## After a fault -/

/-- Whether the code is that of a fault in a call that has its closing brace. -/
def Diagnostic.Code.inCall : Code → Bool
  | .missingBody | .unknownCall | .expectedExpression | .expectedOperator | .unrecognizedOperator
  | .unbalancedParentheses | .valueOutOfRange | .booleanOperator | .arithmeticOperator
  | .numberAsPredicate => true
  | .emptyInput | .unterminatedCall | .expectedSeparator | .danglingSeparator => false

/-- The call at fault ends with its first closing brace, and the fault stays the same whatever
follows. -/
theorem Breaks.exists_call (h : Breaks t e) (hc : e.diagnostic.code.inCall) :
    ∃ p w q, LeadsIn p ∧ '}' ∉ w ∧ t = p ++ (w ++ '}' :: q) ∧ e.site.offset = byteLength p ∧
      ∀ r, Breaks (p ++ (w ++ '}' :: r)) e := by
  cases h with
  | @missingBody p w hp ho hw q =>
    exact ⟨p, w, q, hp, hw, rfl, rfl, fun r => .missingBody hp ho hw r⟩
  | @unknownKeyword p w b hp ho hw hk q =>
    refine ⟨p, w ++ '{' :: b, q, hp, ?_, by simp, rfl, fun r => ?_⟩
    · simpa using hw
    · simpa using Breaks.unknownKeyword hp ho hw hk r
  | @inBody p b kind e hp hb he q =>
    have hw : '}' ∉ kind.word := kind.not_mem_word rfl
    refine ⟨p, kind.word ++ '{' :: b, q, hp, ?_, by simp, rfl, fun r => ?_⟩
    · simp [hw, hb]
    · simpa using Breaks.inBody hp hb he r
  | _ => cases hc

/-- **A fault in a call is final.** When the call at fault has its closing brace, more text after
the whole gives the same diagnostic, and so does any other text in the place of what follows the
brace. -/
theorem verdict_append_of_inCall (h : (readChain (.whole t)).verdict = .error d)
    (hc : d.code.inCall) :
    (∀ s, (readChain (.whole (t ++ s))).verdict = .error d) ∧
      ∃ p w q m, LeadsIn p ∧ '}' ∉ w ∧ t = p ++ (w ++ '}' :: q) ∧ d.site? = some m ∧
        m.start = byteLength p ∧
        ∀ s, (readChain (.whole (p ++ (w ++ '}' :: s)))).verdict = .error d := by
  obtain ⟨e, he, rfl⟩ := Reading.verdict_eq_error_iff.1 h
  obtain ⟨p, w, q, hp, hw, rfl, hk, hr⟩ := (fault?_readChain_iff.1 he).exists_call hc
  have hv : ∀ s, (readChain (.whole (p ++ (w ++ '}' :: s)))).verdict = .error e.diagnostic :=
    fun s => Reading.verdict_of_fault? (hr s).fault?_eq
  refine ⟨fun s => ?_, p, w, q, _, hp, hw, rfl, e.site?_diagnostic, hk, hv⟩
  simpa using hv (q ++ s)

/-- The body of `map{}` is no number, whatever follows its closing brace. -/
theorem verdict_append_of_inCall_empty_body :
    ∃ d, (readChain (.whole "map\x7b\x7d".toList)).verdict = .error d ∧ d.code.inCall ∧
      (readChain (.whole "map\x7b\x7d\x7d%>%map\x7b".toList)).verdict = .error d := by
  have h := Reading.verdict_of_fault? (Breaks.emptyMap .start []).fault?_eq
  exact ⟨_, h, rfl, (verdict_append_of_inCall h rfl).1 "\x7d%>%map\x7b".toList⟩

/-! ## The calls before a fault -/

variable {g : List Char} {c : Chain}

/-- The calls of the text before a fault are those of `c`. Before stray text and before a dangling
separator stands the chain itself, before any other call at fault the chain and a separator. -/
def CallsBefore (t : List Char) (d : Diagnostic) (c : Chain) : Prop :=
  if d.code = .expectedSeparator ∨ d.code = .danglingSeparator then
    ∃ m a b, d.primarySpan? = some m ∧ cutAt? m.start t = some (a, b) ∧
      (readChain (.whole a)).verdict = .ok c
  else
    ∃ m a b, d.site? = some m ∧ cutAt? m.start t = some (a, b) ∧
      (a = [] ∧ c = [] ∨
        ∃ u, a = u ++ Chain.separator ∧ (readChain (.whole u)).verdict = .ok c)

/-- The calls before a fault have a text that is read, at the start of the whole. -/
theorem CallsBefore.exists_verdict (h : CallsBefore t d c) (hc : c ≠ []) :
    ∃ u, u <+: t ∧ (readChain (.whole u)).verdict = .ok c := by
  unfold CallsBefore at h
  split at h
  · obtain ⟨m, a, b, -, hcut, hv⟩ := h
    obtain ⟨rfl, -⟩ := cutAt?_eq_some_iff.1 hcut
    exact ⟨a, List.prefix_append a b, hv⟩
  · obtain ⟨m, a, b, -, hcut, ⟨-, hnil⟩ | ⟨u, rfl, hv⟩⟩ := h
    · exact absurd hnil hc
    · obtain ⟨rfl, -⟩ := cutAt?_eq_some_iff.1 hcut
      rw [List.append_assoc]
      exact ⟨u, List.prefix_append u _, hv⟩

/-- The calls before a fault are determined. -/
theorem CallsBefore.unique {c' : Chain} (h : CallsBefore t d c) (h' : CallsBefore t d c') :
    c = c' := by
  unfold CallsBefore at h h'
  split at h
  · obtain ⟨m, a, b, hm, hcut, hv⟩ := h
    rw [if_pos ‹_›] at h'
    obtain ⟨m', a', b', hm', hcut', hv'⟩ := h'
    cases hm.symm.trans hm'
    cases hcut.symm.trans hcut'
    exact Except.ok.inj (hv.symm.trans hv')
  · obtain ⟨m, a, b, hm, hcut, ha⟩ := h
    rw [if_neg ‹_›] at h'
    obtain ⟨m', a', b', hm', hcut', ha'⟩ := h'
    cases hm.symm.trans hm'
    cases hcut.symm.trans hcut'
    obtain ⟨rfl, rfl⟩ | ⟨u, rfl, hv⟩ := ha
    · obtain ⟨-, rfl⟩ | ⟨u, hu, -⟩ := ha'
      · rfl
      · cases (List.append_eq_nil_iff.1 hu.symm).2
    · obtain ⟨hu, -⟩ | ⟨u', hu, hv'⟩ := ha'
      · cases (List.append_eq_nil_iff.1 hu).2
      · obtain rfl := List.append_cancel_right hu
        exact Except.ok.inj (hv.symm.trans hv')

/-! ## Calls that are kept -/

/-- A chain keeps its calls when no call follows. -/
theorem ChainText.calls_append (h : ChainText t c)
    (hg : ∀ s, g = Chain.separator ++ s → s = []) (k : Nat) :
    (readCalls ⟨t ++ g, k⟩).calls = c := by
  induction h generalizing k with
  | single h =>
    rw [h.readCalls_append]
    split_ifs with hn
    · rfl
    · split
      · rfl
      · rfl
      · rename_i s d r hw
        have hr := append_of_word? hw
        rw [fst_of_word? hw] at hr
        cases hg _ hr.symm
  | cons h hr ih =>
    rw [List.append_assoc, List.append_assoc, h.readCalls_separator (by simp [hr.ne_nil])]
    exact congrArg (List.cons _) (ih _)

/-- The text before a place where a call is due has calls of its own, which are read before what
comes there. -/
theorem LeadsIn.exists_prepend (hp : LeadsIn p) :
    ∃ c, (p = [] ∧ c = [] ∨ ∃ u, p = u ++ Chain.separator ∧ ChainText u c) ∧
      ∀ {s}, s ≠ [] → readChain (.whole (p ++ s)) = (readCalls ⟨s, byteLength p⟩).prepend c := by
  cases hp with
  | start =>
    refine ⟨[], .inl ⟨rfl, rfl⟩, fun {s} hs => ?_⟩
    exact readChain_of_ne_nil hs 0
  | @after u c h =>
    refine ⟨c, .inr ⟨u, rfl, h⟩, fun {s} hs => ?_⟩
    rw [Fragment.whole, readChain_of_ne_nil (by simp [hs]), List.append_assoc,
      h.readCalls_separator hs, byteLength_append, Nat.zero_add]

/-- No call is read where a call at fault comes first. -/
theorem Breaks.calls_readCalls {w q : List Char} (hp : LeadsIn p) (hw : '}' ∉ w)
    (h : Breaks (p ++ (w ++ ['}'])) e) : (readCalls ⟨w ++ '}' :: q, byteLength p⟩).calls = [] := by
  have hf := h.fault?_eq
  rw [hp.fault?_readChain (by simp), readCalls_turn] at hf
  simp only [upTo?_append hw] at hf
  rw [readCalls_turn]
  simp only [upTo?_append hw]
  cases hr : readCall ⟨w ++ ['}'], byteLength p⟩ with
  | error e' => rfl
  | ok c =>
    rw [hr] at hf
    cases hf

/-! ## What was read before a fault -/

/-- At a place where a call is due and none is read, the calls are those before it. -/
theorem LeadsIn.callsBefore {s : List Char} (hp : LeadsIn p) (hs : s ≠ [])
    (hc : ¬(e.diagnostic.code = .expectedSeparator ∨ e.diagnostic.code = .danglingSeparator))
    (hk : e.site.offset = byteLength p) (h : (readCalls ⟨s, byteLength p⟩).calls = []) :
    CallsBefore (p ++ s) e.diagnostic (readChain (.whole (p ++ s))).calls := by
  obtain ⟨c, hpc, hr⟩ := hp.exists_prepend
  have hcalls : (readChain (.whole (p ++ s))).calls = c := by
    rw [hr hs, Reading.prepend, h, List.append_nil]
  rw [hcalls, CallsBefore, if_neg hc]
  refine ⟨_, p, s, e.site?_diagnostic, cutAt?_eq_some_iff.2 ⟨rfl, hk.symm⟩, ?_⟩
  obtain ⟨rfl, rfl⟩ | ⟨u, rfl, hu⟩ := hpc
  · exact .inl ⟨rfl, rfl⟩
  · exact .inr ⟨u, rfl, Reading.verdict_eq_ok_iff.2 (result_readChain_eq_ok_iff.2 hu)⟩

/-- Behind a chain that no call follows, the calls are those of the chain. -/
theorem ChainText.callsBefore (h : ChainText t c) (hg : ∀ s, g = Chain.separator ++ s → s = [])
    (hc : e.diagnostic.code = .expectedSeparator ∨ e.diagnostic.code = .danglingSeparator)
    (hk : e.marked.offset = byteLength t) :
    CallsBefore (t ++ g) e.diagnostic (readChain (.whole (t ++ g))).calls := by
  have hcalls : (readChain (.whole (t ++ g))).calls = c := by
    rw [Fragment.whole, readChain_of_ne_nil (by simp [h.ne_nil]), h.calls_append hg]
  rw [hcalls, CallsBefore, if_pos hc]
  refine ⟨_, t, g, e.primarySpan?_diagnostic, cutAt?_eq_some_iff.2 ⟨rfl, hk.symm⟩, ?_⟩
  exact Reading.verdict_eq_ok_iff.2 (result_readChain_eq_ok_iff.2 h)

/-- A fault within a body is a fault in a call. -/
theorem ExprFault.inCall_code (e : ExprFault) : e.code.inCall := by
  cases e <;> rfl

theorem Breaks.callsBefore_of_inCall (h : Breaks t e) (hi : e.diagnostic.code.inCall) :
    CallsBefore t e.diagnostic (readChain (.whole t)).calls := by
  have hc : ¬(e.diagnostic.code = .expectedSeparator ∨
      e.diagnostic.code = .danglingSeparator) := by
    rintro (hc | hc) <;> rw [hc] at hi <;> cases hi
  obtain ⟨p, w, q, hp, hw, rfl, hk, hr⟩ := h.exists_call hi
  exact hp.callsBefore (by simp) hc hk ((hr []).calls_readCalls hp hw)

theorem Breaks.callsBefore (h : Breaks t e) :
    CallsBefore t e.diagnostic (readChain (.whole t)).calls := by
  have hi := h.callsBefore_of_inCall
  cases h with
  | empty => exact ⟨_, [], [], rfl, rfl, .inl ⟨rfl, rfl⟩⟩
  | unclosedCall hp hg hm =>
    refine hp.callsBefore hg (by simp [Fault.diagnostic]) rfl ?_
    rw [readCalls_turn]
    simp only [upTo?_eq_none_iff.2 hm]
  | missingBody => exact hi rfl
  | unknownKeyword => exact hi rfl
  | inBody => exact hi (ExprFault.inCall_code _)
  | strayText hp hu hg hs =>
    obtain ⟨c, hc⟩ := hp.exists_chain hu
    rw [← List.append_assoc]
    refine hc.callsBefore (fun s he => ?_) (.inl rfl) (byteLength_append _ _).symm
    exact absurd ⟨s, he.symm⟩ hs
  | danglingSeparator hp hu =>
    obtain ⟨c, hc⟩ := hp.exists_chain hu
    rw [← List.append_assoc]
    exact hc.callsBefore (fun s he => List.self_eq_append_right.1 he) (.inr rfl)
      (byteLength_append _ _).symm

/-- **What the reader has read before a fault** are the calls of the text before it. -/
theorem callsBefore_of_verdict (h : (readChain (.whole t)).verdict = .error d) :
    CallsBefore t d (readChain (.whole t)).calls := by
  obtain ⟨e, he, rfl⟩ := Reading.verdict_eq_error_iff.1 h
  exact (fault?_readChain_iff.1 he).callsBefore

end MapFilter
