import MapFilter.Proofs.Processing.FixedPoint
import MapFilter.Proofs.Reading.Marks
import MapFilter.Report

/-!
# The labels of a report

The report of a text that cannot be processed has a label on the fault, and at most one more, which
is on a call. Each is on a fragment that was cut out of the text, so it never cuts a character.

* `IsBoundary`, `Span.Delimits`: spans that hold whole characters of a text;
* `Encloses`, `Diagnostic.Code.Beside`: the second label, by the code of the fault;
* `Breaks.call?_within`, `Breaks.beside`: the call that a fault of a text marks;
* **`labels_of_process`**: the labels of the report.
-/

namespace MapFilter

variable {t : List Char}

/-! ## Spans in a text -/

/-- No character of the text reaches across the byte offset. -/
def IsBoundary (t : List Char) (k : Nat) : Prop := ∃ a b, t = a ++ b ∧ byteLength a = k

/-- The offset and the size of the span are those of some characters in the text. -/
structure Span.Delimits (s : Span) (t : List Char) : Prop where
  le_byteLength : s.start + s.size ≤ byteLength t
  start : IsBoundary t s.start
  stop : IsBoundary t (s.start + s.size)

theorem Fragment.Within.delimits {g : Fragment} (h : g.Within (.whole t)) : g.span.Delimits t := by
  obtain ⟨a, b, ht, hk⟩ := h
  obtain rfl : t = a ++ (g.text ++ b) := ht
  have hs : g.span.start = byteLength a := hk.trans (Nat.zero_add _)
  refine ⟨?_, ?_, ?_⟩
  · rw [hs, g.size_span, byteLength_append, byteLength_append]
    omega
  · exact ⟨a, g.text ++ b, rfl, hs.symm⟩
  · rw [hs, g.size_span, ← byteLength_append]
    exact ⟨a ++ g.text, b, (List.append_assoc _ _ _).symm, rfl⟩

/-! ## The second label -/

/-- The span `c` is that of a call where one is due, from its keyword to its closing brace, and `m`
lies between the braces. -/
def Encloses (t : List Char) (c m : Span) : Prop :=
  ∃ (p b q : List Char) (kind : Call.Kind) (k : Nat), LeadsIn p ∧ '}' ∉ b ∧
    t = p ++ (kind.word ++ '{' :: (b ++ '}' :: q)) ∧ k = byteLength p + byteLength kind.word + 1 ∧
    c = .ofBounds (byteLength p) (k + byteLength b + 1) ∧ k ≤ m.start ∧ m.stop ≤ k + byteLength b

/-- What a fault that is marked at `m` has marked with it, by its code: the call around a fault in a
body, the call before stray text, and otherwise nothing. -/
def Diagnostic.Code.Beside (t : List Char) (m : Span) (c? : Option Span) : Code → Prop
  | .expectedExpression | .expectedOperator | .unrecognizedOperator | .unbalancedParentheses
  | .valueOutOfRange | .booleanOperator | .arithmeticOperator | .numberAsPredicate =>
    ∃ c ∈ c?, Encloses t c m
  | .expectedSeparator => ∃ c ∈ c?, c.stop = m.start ∧ m.stop = byteLength t
  | .emptyInput | .unterminatedCall | .danglingSeparator | .missingBody | .unknownCall => c? = none

theorem ExprFault.beside_code_iff (e : ExprFault) {m : Span} {c? : Option Span} :
    e.code.Beside t m c? ↔ ∃ c ∈ c?, Encloses t c m := by
  cases e <;> rfl

/-! ## The call that a fault of a text marks -/

namespace Breaks

variable {e : Fault}

theorem call?_within (h : Breaks t e) : ∀ g ∈ e.call?, g.Within (.whole t) := by
  intro g hg
  cases h with
  | @inBody p b kind e hp hb he q =>
    cases hg
    simpa using Fragment.within_whole p (kind.word ++ '{' :: (b ++ ['}'])) q
  | @strayText p u r d hp hu hr hs =>
    cases hg
    exact Fragment.within_whole p u r
  | _ => cases hg

theorem beside (h : Breaks t e) :
    e.diagnostic.code.Beside t e.marked.span (e.call?.map Fragment.span) := by
  cases h with
  | @inBody p b kind e hp hb he q =>
    obtain ⟨hl, hr⟩ := (marked_within_of_readBody he).span_le
    have hc : byteLength p + byteLength (kind.word ++ '{' :: (b ++ ['}'])) =
        byteLength p + byteLength kind.word + 1 + byteLength b + 1 := by
      rw [byteLength_braces]
      omega
    refine e.beside_code_iff.2 ⟨_, rfl, p, b, q, kind, _, hp, hb, rfl, rfl, ?_, hl, hr⟩
    rw [Fragment.span_eq_ofBounds, hc]
  | @strayText p u g d hp hu hg hs =>
    refine ⟨_, rfl, rfl, ?_⟩
    simp only [Fault.marked, Fragment.span, byteLength_append, Nat.add_assoc]
  | _ => rfl

end Breaks

/-! ## Reports -/

/-- **The labels of a report.** A text that cannot be processed fails with a diagnostic, whatever
the settings are. The first label is on the fault, and at most one more goes with it, which the code
decides on. Both hold characters of the text. -/
theorem labels_of_process {s : Settings} {f : Failure} (h : process s t = .error f) :
    ∃ d labels m c?, f = .parse d t ∧ f.report.source = some t ∧ f.report.code = d.code.id ∧
      f.report.labels = some labels ∧
      labels.map (fun l => (l.role, l.span)) =
        (.primary, m) :: (c?.map fun c => (.secondary, c)).toList ∧
      m.Delimits t ∧ (∀ c ∈ c?, c.Delimits t) ∧ d.code.Beside t m c? := by
  cases hr : (readChain (.whole t)).result with
  | ok c =>
    rw [process_eq_ok hr] at h
    cases h
  | error e =>
    rw [process_eq_error hr] at h
    cases h
    have hb : Breaks t e := fault?_readChain_iff.1 (Reading.result_eq_error_iff.1 hr)
    have hl := e.labels_diagnostic
    refine ⟨e.diagnostic, e.diagnostic.labels, e.marked.span, e.call?.map Fragment.span, rfl, rfl,
      rfl, ?_, ?_, hb.marked_within.delimits, ?_, hb.beside⟩
    · have hne : e.diagnostic.labels ≠ [] := by
        intro hn
        rw [hn] at hl
        cases hl
      simp [Failure.report, hne]
    · rw [hl, Option.map_map]
      rfl
    · intro c hc
      obtain ⟨g, hg, rfl⟩ := Option.map_eq_some_iff.1 hc
      exact (hb.call?_within g hg).delimits

/-- In `map{element}%>%map{(1ж2)}` the operator takes two bytes. -/
theorem labels_of_process_two_byte_operator :
    ∃ f labels,
      process { refactor := true } "map\x7belement\x7d%>%map\x7b(1ж2)\x7d".toList = .error f ∧
      f.report.labels = some labels ∧ labels.map (fun l => (l.role, l.span)) =
        [(.primary, .ofBounds 21 23), (.secondary, .ofBounds 15 26)] ∧
      (Span.ofBounds 21 23).Delimits "map\x7belement\x7d%>%map\x7b(1ж2)\x7d".toList ∧
      (Span.ofBounds 15 26).Delimits "map\x7belement\x7d%>%map\x7b(1ж2)\x7d".toList := by
  have ho : Term.ofFragment ⟨['(', '1', 'ж', '2', ')'], 19⟩ = _ :=
    Term.ofFragment_node (s := ['1']) (t := ['2']) (c := 'ж') (k := 19) rfl
  have he : readBody .map ⟨['(', '1', 'ж', '2', ')'], 19⟩ = .error (.unknownOperator 'ж' 21) := by
    rw [readBody, readNumber, ho]
    rfl
  have hp : LeadsIn "map\x7belement\x7d%>%".toList := .after (.single (.map .element))
  have hb := Breaks.inBody hp (by decide) he []
  have hf := process_eq_error (Reading.result_eq_error_iff.2 hb.fault?_eq) { refactor := true }
  obtain ⟨d, labels, m, c?, hd, -, -, hl, hm, hmd, hcd, -⟩ := labels_of_process hf
  cases hd
  have hv : labels.map (fun l => (l.role, l.span)) =
      [(.primary, .ofBounds 21 23), (.secondary, .ofBounds 15 26)] := by
    cases hl
    rfl
  rw [hv] at hm
  cases c? with
  | none => cases hm
  | some c =>
    cases hm
    exact ⟨_, labels, hf, hl, hv, hmd, hcd _ rfl⟩

end MapFilter
