import MapFilter.Proofs.Reading.SingleCalls
import MapFilter.Proofs.Reading.Marks

/-!
# What a message quotes

A message is written apart from the label that goes with it. Still it names just the text that the
label marks: between backquotes, or as nothing where the label marks an empty place.

* `Names`: a message names a text; `names_found`, `names_of_quoted`: the two ways to word it;
* `Term.code_of_marked_eq_nil`: only an expression can be missing altogether;
* `ExprFault.names`, `names_of_readCall`, `Breaks.names`: the messages of each reader;
* **`message_names_slice`**: the slice at the primary span, for all four readers.
-/

namespace MapFilter

variable {t w : List Char} {f : Fragment} {k : Nat}

/-! ## Names of texts in messages -/

/-- The message quotes the text, and an empty one as nothing found. -/
structure Names (m : String) (s : List Char) : Prop where
  quoted : s ≠ [] → ("`" ++ String.ofList s ++ "`").toList <:+: m.toList
  nothing : s = [] → "found nothing".toList <:+ m.toList

theorem Fragment.quoted_of_ne_nil (h : f.text ≠ []) :
    f.quoted = "`" ++ String.ofList f.text ++ "`" := if_neg h

theorem names_of_quoted (p : String) (h : f.text ≠ []) : Names (p ++ f.quoted) f.text where
  quoted _ := by
    rw [← Fragment.quoted_of_ne_nil h]
    exact ⟨p.toList, [], by simp⟩
  nothing hn := absurd hn h

/-- A text that is quoted is so in a longer message too. -/
theorem Names.append {m : String} {s : List Char} (hm : Names m s) (hs : s ≠ []) (q : String) :
    Names (m ++ q) s where
  quoted h := by
    have hq : m.toList <:+: (m ++ q).toList := ⟨[], q.toList, by simp⟩
    exact (hm.quoted h).trans hq
  nothing hn := absurd hn hs

/-- A message that ends with what was found, whether that is a text or nothing. -/
theorem names_found {p : String} (hp : "found ".toList <:+ p.toList) (f : Fragment) :
    Names (p ++ f.quoted) f.text := by
  by_cases h : f.text = []
  · have hq : f.quoted = "nothing" := if_pos h
    obtain ⟨r, hr⟩ := hp
    refine ⟨fun hn => absurd h hn, fun _ => ⟨r, ?_⟩⟩
    rw [hq, String.toList_append, ← hr, List.append_assoc]
    rfl
  · exact names_of_quoted p h

/-! ## Expressions -/

/-- A fault that marks an empty place is that an expression is missing there. -/
theorem Term.code_of_marked_eq_nil {s : ExprSort} {e : ExprFault}
    (h : (ofFragment f).fault? s = some e) (hm : e.marked.text = []) :
    e.code = .expectedExpression := by
  fun_induction ofFragment f generalizing s with
  | case1 f hi =>
    obtain ⟨u, k⟩ := f
    obtain rfl : u = [] := by rw [← hm, marked_of_fault?_atom h]
    cases s <;> cases h <;> rfl
  | case2 f u hi e' ho =>
    obtain rfl : e' = e := by cases s <;> exact Option.some.inj h
    obtain rfl : u = [] := by rw [← hm, marked_of_operands ho]
    cases ho
    rfl
  | case3 f u hi a c b ho k iha =>
    -- the hypothesis for the second operand comes without a name
    rename_i ihb
    obtain ⟨s', h⟩ | ⟨s', h⟩ | h := exists_of_fault?_node h
    · exact iha h
    · exact ihb h
    · rw [h] at hm
      cases hm

theorem ExprFault.names {e : ExprFault} (h : e.marked.text = [] → e.code = .expectedExpression) :
    Names e.message e.marked.text := by
  cases e with
  | notNumber f | notBoolean f | emptyParentheses f | noOperand f | loneMinus f | noOperator f =>
    exact names_found (by decide) f
  | unknownOperator c k => exact names_found (by decide) ⟨[c], k⟩
  | unclosedGroup f | outOfRange f | numberAsPredicate f =>
    exact names_of_quoted _ fun hn => by cases h hn
  | truthOperator c k f | numberOperator c k f =>
    have hc : (⟨[c], k⟩ : Fragment).text ≠ [] := List.cons_ne_nil c []
    exact ((names_of_quoted _ hc).append hc " in ").append hc f.quoted

/-- **The message of an expression's fault names what the fault marks.** -/
theorem Term.names_of_fault? {s : ExprSort} {e : ExprFault}
    (h : (ofFragment f).fault? s = some e) : Names e.message e.marked.text :=
  ExprFault.names (code_of_marked_eq_nil h)

theorem names_of_readBody {kind : Call.Kind} {e : ExprFault} (h : readBody kind f = .error e) :
    Names e.message e.marked.text := by
  rw [← faultOf?_eq_some_iff, RawCall.faultOf?_readBody] at h
  exact Term.names_of_fault? h

/-! ## Calls and chains -/

theorem names_of_readCall {e : Fault} (h : readCall ⟨w ++ ['}'], k⟩ = .error e) :
    Names e.diagnostic.message e.marked.text := by
  obtain ⟨-, hr⟩ | ⟨v, b, -, -, -, hr⟩ | ⟨kind, b, rfl, hr⟩ := readCall_cases w k
  · rw [hr] at h
    cases h
    exact names_found (by decide) _
  · rw [hr] at h
    cases h
    exact names_found (by decide) _
  · rw [hr] at h
    obtain ⟨e', hb, rfl⟩ := mapError_eq_error_iff.1 h
    exact names_of_readBody hb

theorem Breaks.names {e : Fault} (h : Breaks t e) : Names e.diagnostic.message e.marked.text := by
  cases h with
  | empty => exact ⟨fun hn => absurd rfl hn, fun _ => ⟨"expected call chain, ".toList, rfl⟩⟩
  | unclosedCall | missingBody | unknownKeyword | strayText => exact names_found (by decide) _
  | inBody hp hb he => exact names_of_readBody he
  | danglingSeparator =>
    have hs : Chain.separator ≠ [] := List.cons_ne_nil _ _
    exact (names_of_quoted (f := ⟨_, 0⟩) "expected call after " hs).append hs ", found nothing"

/-- A fault whose message names the marked piece of a text is reported so. -/
theorem Fault.exists_slice {e : Fault} (hw : e.marked.Within (.whole t))
    (hn : Names e.diagnostic.message e.marked.text) :
    ∃ m s, e.diagnostic.primarySpan? = some m ∧ m.slice? t = some s ∧
      Names e.diagnostic.message s :=
  ⟨_, _, e.primarySpan?_diagnostic, hw.slice?_span, hn⟩

theorem exists_slice_of_fault? {s : ExprSort} {e : ExprFault}
    (h : (Term.ofFragment (.whole t)).fault? s = some e) :
    ∃ m s, e.diagnostic.primarySpan? = some m ∧ m.slice? t = some s ∧
      Names e.diagnostic.message s :=
  ⟨_, _, rfl, (Term.marked_within h).slice?_span, Term.names_of_fault? h⟩

/-- **Messages quote what the span marks.** Whichever reader finds a fault in a text, the primary
span of its diagnostic is that of a slice of the text, and the message quotes the slice between
backquotes or, when the slice is empty, ends by saying that nothing was found. -/
theorem message_names_slice {d : Diagnostic}
    (h : (readChain (.whole t)).verdict = .error d ∨ callVerdict t = .error d ∨
      numberVerdict t = .error d ∨ conditionVerdict t = .error d) :
    ∃ m s, d.primarySpan? = some m ∧ m.slice? t = some s ∧ Names d.message s := by
  obtain h | h | h | h := h
  · obtain ⟨e, he, rfl⟩ := Reading.verdict_eq_error_iff.1 h
    have hb := fault?_readChain_iff.1 he
    exact Fault.exists_slice hb.marked_within hb.names
  · obtain ⟨e, he, rfl⟩ := mapError_eq_error_iff.1 h
    unfold readSingleCall at he
    split at he
    · rename_i hl
      obtain ⟨w, rfl⟩ := List.getLast?_eq_some_iff.1 hl
      exact Fault.exists_slice (marked_within_of_readCall he) (names_of_readCall he)
    · cases he
      exact Fault.exists_slice (.refl _) (names_found (by decide) _)
  · obtain ⟨e, he, rfl⟩ := mapError_eq_error_iff.1 h
    exact exists_slice_of_fault? (s := .number) (faultOf?_eq_some_iff.2 he)
  · obtain ⟨e, he, rfl⟩ := mapError_eq_error_iff.1 h
    exact exists_slice_of_fault? (s := .condition) (faultOf?_eq_some_iff.2 he)

/-- The body of `map{}` is missing, and the operator of `(1ж2)` takes two bytes. -/
theorem message_names_slice_missing_and_wide :
    (∃ d m, (readChain (.whole "map\x7b\x7d".toList)).verdict = .error d ∧
        d.primarySpan? = some m ∧ m.slice? "map\x7b\x7d".toList = some [] ∧
        "found nothing".toList <:+ d.message.toList) ∧
      ∃ d m, numberVerdict "(1ж2)".toList = .error d ∧ d.primarySpan? = some m ∧
        m.slice? "(1ж2)".toList = some ['ж'] ∧ "`ж`".toList <:+: d.message.toList := by
  have ho : Term.ofFragment ⟨['(', '1', 'ж', '2', ')'], 0⟩ = _ :=
    Term.ofFragment_node (s := ['1']) (t := ['2']) (c := 'ж') (k := 0) rfl
  have hr : readNumber (.whole ['(', '1', 'ж', '2', ')']) = .error (.unknownOperator 'ж' 2) := by
    rw [readNumber, Fragment.whole, ho]
    rfl
  have vb := Reading.verdict_of_fault? (Breaks.emptyMap .start []).fault?_eq
  have vr : numberVerdict "(1ж2)".toList = .error (ExprFault.unknownOperator 'ж' 2).diagnostic :=
    mapError_eq_error_iff.2 ⟨_, hr, rfl⟩
  obtain ⟨m, s, hm, hs, hn⟩ := message_names_slice (.inl vb)
  obtain ⟨m', s', hm', hs', hn'⟩ := message_names_slice (.inr (.inr (.inl vr)))
  cases hm
  cases hs
  cases hm'
  cases hs'
  exact ⟨⟨_, _, vb, rfl, rfl, hn.nothing rfl⟩, _, _, vr, rfl, rfl, hn'.quoted (by decide)⟩

end MapFilter
