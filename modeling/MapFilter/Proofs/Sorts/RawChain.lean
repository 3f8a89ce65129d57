import MapFilter.Proofs.Grammar.Reading
import MapFilter.Proofs.Sorts.FirstFault

/-!
# Chains without regard to sorts

Raw calls with separators between them are read call by call, so the fault of the chain is that of
the first call that has one. If no literal is beyond the range, what is left to go wrong is sorts.

* `RawCall`, `RawCall.chainText`, `RawCall.WellSorted`;
* `RawCall.fault?`, `firstFault`: the fault of a call and of a chain; `fault?_readCalls_chainText`;
* `exists_first_of_firstFault`: the call that a fault of the chain is in;
* **`verdict_chainText`**: the reader checks the sorts, and reports the first node out of place in
  the first call that is not well sorted.
-/

namespace MapFilter

/-- The sort of the body of a call. -/
def Call.Kind.bodySort : Kind → ExprSort
  | .map => .number
  | .filter => .condition

/-- A call whose body is a raw expression. -/
structure RawCall where
  kind : Call.Kind
  body : RawExpr

namespace RawCall

def text (d : RawCall) : List Char := d.kind.word ++ '{' :: (d.body.text ++ ['}'])

/-- The body has the sort that the call asks for. -/
def WellSorted (d : RawCall) : Prop := d.body.HasSort d.kind.bodySort

/-- The nodes of the body in pre-order, in a call that stands at an offset. -/
def places (d : RawCall) (k : Nat) : List Place :=
  d.body.places d.kind.bodySort (k + byteLength d.kind.word + 1)

/-- The fault of the call, when it stands at an offset: the first one in pre-order. -/
def fault? (d : RawCall) (k : Nat) : Option Fault :=
  ((d.places k).findSome? Place.fault?).map (.inBody ⟨d.text, k⟩ d.kind)

/-- The text of calls with separators between them. -/
def chainText (l : List RawCall) : List Char := List.intercalate Chain.separator (l.map text)

/-- The offset of the call that comes after the calls `l`. -/
def offsetAfter (l : List RawCall) : Nat := byteLength (l.flatMap fun d => d.text ++ Chain.separator)

/-- The fault of the first call that has one, in a chain that stands at an offset. -/
def firstFault : List RawCall → Nat → Option Fault
  | [], _ => none
  | d :: l, k => (d.fault? k).or (firstFault l (k + byteLength d.text + byteLength Chain.separator))

/-! ## Calls -/

theorem exists_text_eq (d : RawCall) : ∃ s, '}' ∉ s ∧ d.text = s ++ ['}'] := by
  have hw : '}' ∉ d.kind.word := d.kind.not_mem_word rfl
  exact ⟨d.kind.word ++ '{' :: d.body.text, by simp [hw, d.body.not_mem_brace_text], by simp [text]⟩

theorem text_ne_nil (d : RawCall) : d.text ≠ [] := by simp [text]

theorem upTo?_text (d : RawCall) (g : List Char) : upTo? '}' (d.text ++ g) = some (d.text, g) := by
  obtain ⟨s, hs, ht⟩ := d.exists_text_eq
  simpa [ht] using upTo?_append hs g

theorem faultOf?_readBody (kind : Call.Kind) (f : Fragment) :
    faultOf? (readBody kind f) = (Term.ofFragment f).fault? kind.bodySort := by
  cases kind with
  | map => exact faultOf?_map _ _
  | filter => exact faultOf?_map _ _

theorem faultOf?_readCall (d : RawCall) (k : Nat) :
    faultOf? (readCall ⟨d.text, k⟩) = d.fault? k := by
  rw [text, readCall_append, faultOf?_mapError, faultOf?_readBody, RawExpr.fault?_ofFragment]
  rfl

theorem fault?_readCalls_append {d : RawCall} {k : Nat} {e : Fault} (h : d.fault? k = some e)
    (g : List Char) : (readCalls ⟨d.text ++ g, k⟩).fault? = some e := by
  rw [← faultOf?_readCall, faultOf?_eq_some_iff] at h
  rw [readCalls_turn]
  simp only [d.upTo?_text g, h]

theorem exists_callText {d : RawCall} {k : Nat} (h : d.fault? k = none) : ∃ c, CallText d.text c := by
  rw [← faultOf?_readCall, faultOf?_eq_none_iff] at h
  obtain ⟨c, hc⟩ := h
  obtain ⟨s, -, hs⟩ := d.exists_text_eq
  exact ⟨c, callText_of_readCall (by simp [hs]) hc⟩

/-! ## Chains -/

theorem chainText_singleton (d : RawCall) : chainText [d] = d.text := by
  rw [chainText, List.map_singleton, List.intercalate_singleton]

theorem chainText_cons (d : RawCall) {l : List RawCall} (hl : l ≠ []) :
    chainText (d :: l) = d.text ++ (Chain.separator ++ chainText l) := by
  rw [chainText, List.map_cons, List.intercalate_cons_of_ne_nil (by simpa using hl),
    List.append_assoc]
  rfl

theorem chainText_ne_nil {l : List RawCall} (hl : l ≠ []) : chainText l ≠ [] := by
  obtain ⟨d, l, rfl⟩ := List.exists_cons_of_ne_nil hl
  by_cases h : l = []
  · rw [h, chainText_singleton]
    exact d.text_ne_nil
  · simp [chainText_cons d h, d.text_ne_nil]

/-- **The reader finds the first fault**, in a chain as in an expression. -/
theorem fault?_readCalls_chainText {l : List RawCall} (hl : l ≠ []) (k : Nat) :
    (readCalls ⟨chainText l, k⟩).fault? = firstFault l k := by
  induction l generalizing k with
  | nil => exact absurd rfl hl
  | cons d l ih =>
    by_cases h : l = []
    · subst h
      rw [chainText_singleton, firstFault, firstFault, Option.or_none]
      cases hf : d.fault? k with
      | none =>
        obtain ⟨c, hc⟩ := exists_callText hf
        rw [hc.readCalls_eq]
      | some e =>
        have hr := fault?_readCalls_append hf []
        rwa [List.append_nil] at hr
    · rw [chainText_cons d h, firstFault]
      cases hf : d.fault? k with
      | none =>
        obtain ⟨c, hc⟩ := exists_callText hf
        rw [hc.readCalls_separator (chainText_ne_nil h), Option.none_or, ← ih h]
        rfl
      | some e => exact fault?_readCalls_append hf _

theorem offsetAfter_cons (d : RawCall) (l : List RawCall) :
    offsetAfter (d :: l) = byteLength d.text + byteLength Chain.separator + offsetAfter l := by
  rw [offsetAfter, List.flatMap_cons, byteLength_append, byteLength_append, offsetAfter]

section FirstFault

-- `P` is what keeps a call free of faults, wherever the call stands
variable {P : RawCall → Prop} {l : List RawCall}

theorem firstFault_eq_none_iff_forall (hP : ∀ d ∈ l, ∀ k, d.fault? k = none ↔ P d) (k : Nat) :
    firstFault l k = none ↔ ∀ d ∈ l, P d := by
  induction l generalizing k with
  | nil => simp [firstFault]
  | cons d l ih =>
    rw [List.forall_mem_cons] at hP
    rw [firstFault, Option.or_eq_none_iff, hP.1, ih hP.2, List.forall_mem_cons]

/-- The fault of a chain is that of its first call without the property. -/
theorem exists_first_of_firstFault (hP : ∀ d ∈ l, ∀ k, d.fault? k = none ↔ P d) {k : Nat} {e : Fault}
    (h : firstFault l k = some e) : ∃ pre d post, l = pre ++ d :: post ∧ (∀ a ∈ pre, P a) ∧
      d.fault? (k + offsetAfter pre) = some e := by
  induction l generalizing k with
  | nil => cases h
  | cons d l ih =>
    rw [List.forall_mem_cons] at hP
    rw [firstFault] at h
    cases hf : d.fault? k with
    | some e' =>
      rw [hf, Option.some_or] at h
      exact ⟨[], d, l, rfl, by simp, hf.trans h⟩
    | none =>
      rw [hf, Option.none_or] at h
      obtain ⟨pre, a, post, rfl, hpre, ha⟩ := ih hP.2 h
      refine ⟨d :: pre, a, post, rfl, ?_, ?_⟩
      · exact List.forall_mem_cons.2 ⟨(hP.1 k).1 hf, hpre⟩
      · rwa [offsetAfter_cons, ← Nat.add_assoc, ← Nat.add_assoc]

end FirstFault

/-! ## Sorts -/

theorem wellSorted_iff {d : RawCall} (k : Nat) :
    d.WellSorted ↔ (d.places k).find? Place.mismatched = none := by
  rw [WellSorted, RawExpr.hasSort_iff (k + byteLength d.kind.word + 1), List.find?_eq_none, places]
  simp only [Bool.not_eq_true]

theorem fault?_of_inRange {d : RawCall} (h : d.body.InRange) (k : Nat) : d.fault? k =
    ((d.places k).find? Place.mismatched).map fun p => .inBody ⟨d.text, k⟩ d.kind p.mismatch := by
  have hp : ∀ p ∈ d.places k, p.expr.InRange := fun p => RawExpr.inRange_of_mem_places h
  rw [fault?, findSome?_fault? hp, Option.map_map]
  rfl

theorem fault?_eq_none_iff {d : RawCall} (h : d.body.InRange) (k : Nat) :
    d.fault? k = none ↔ d.WellSorted := by
  rw [fault?_of_inRange h, Option.map_eq_none_iff, wellSorted_iff k]

theorem exists_of_fault? {d : RawCall} (h : d.body.InRange) {k : Nat} {e : Fault}
    (he : d.fault? k = some e) : ∃ p, (d.places k).find? Place.mismatched = some p ∧
      e.diagnostic.code = p.code ∧ e.diagnostic.primarySpan? = some p.mark := by
  rw [fault?_of_inRange h, Option.map_eq_some_iff] at he
  obtain ⟨p, hp, rfl⟩ := he
  have hr := RawExpr.inRange_of_mem_places h (List.mem_of_find?_eq_some hp)
  obtain ⟨hc, hs⟩ := Place.mismatch_of_mismatched hr (List.find?_some hp)
  exact ⟨p, hp, hc, congrArg some hs⟩

theorem firstFault_eq_none_iff {l : List RawCall} (hr : ∀ d ∈ l, d.body.InRange) (k : Nat) :
    firstFault l k = none ↔ ∀ d ∈ l, d.WellSorted :=
  firstFault_eq_none_iff_forall (fun d hd => fault?_eq_none_iff (hr d hd)) k

/-- The fault of a chain is that of its first call that is not well sorted. -/
theorem exists_of_firstFault {l : List RawCall} (hr : ∀ d ∈ l, d.body.InRange) {k : Nat} {e : Fault}
    (h : firstFault l k = some e) : ∃ pre d post, l = pre ++ d :: post ∧
      (∀ a ∈ pre, a.WellSorted) ∧ d.fault? (k + offsetAfter pre) = some e :=
  exists_first_of_firstFault (fun d hd => fault?_eq_none_iff (hr d hd)) h

end RawCall

open RawCall

/-- **The reader checks sorts.** A chain of raw calls without a literal beyond the range is read
exactly when all calls are well sorted. If it is not, the diagnostic is about sorts: it has the code
and the mark of the first node out of place, in the first call that is not well sorted. -/
theorem verdict_chainText {l : List RawCall} (hl : l ≠ []) (hr : ∀ d ∈ l, d.body.InRange) :
    ((∃ c, (readChain (.whole (chainText l))).verdict = .ok c) ↔ ∀ d ∈ l, d.WellSorted) ∧
      ∀ e, (readChain (.whole (chainText l))).verdict = .error e →
        ∃ pre d post p, l = pre ++ d :: post ∧ (∀ a ∈ pre, a.WellSorted) ∧ ¬d.WellSorted ∧
          (d.places (offsetAfter pre)).find? Place.mismatched = some p ∧
          e.kind = .typing ∧ e.code = p.code ∧ e.primarySpan? = some p.mark := by
  have hf : (readChain (.whole (chainText l))).fault? = firstFault l 0 := by
    rw [Fragment.whole, readChain_of_ne_nil (chainText_ne_nil hl), fault?_readCalls_chainText hl]
  refine ⟨?_, fun e he => ?_⟩
  · rw [← firstFault_eq_none_iff hr 0, ← hf]
    simp only [Reading.verdict_eq_ok_iff, Reading.result_eq_ok_iff, exists_and_left, exists_eq',
      and_true]
  · cases h : firstFault l 0 with
    | none =>
      have hn := Reading.verdict_eq_ok_iff.2 (Reading.result_eq_ok_iff.2 ⟨hf.trans h, rfl⟩)
      rw [hn] at he
      cases he
    | some e' =>
      rw [Reading.verdict_of_fault? (hf.trans h)] at he
      cases he
      obtain ⟨pre, d, post, hd, hpre, hdf⟩ := exists_of_firstFault hr h
      rw [Nat.zero_add] at hdf
      have hdr : d.body.InRange := hr d (by simp [hd])
      obtain ⟨p, hp, hc, hs⟩ := exists_of_fault? hdr hdf
      have hk : e'.diagnostic.kind = .typing := by rw [Diagnostic.kind, hc, p.kind_code]
      have hw : ¬d.WellSorted := by
        rw [wellSorted_iff (offsetAfter pre), hp]
        exact Option.some_ne_none p
      exact ⟨pre, d, post, p, hd, hpre, hw, hp, hk, hc, hs⟩

/-- In `filter{((element*2)&element)}` both operands are numbers, and the first one is marked. -/
theorem verdict_chainText_product_as_condition :
    ∃ e, (readChain (.whole
        "map\x7belement\x7d%>%filter\x7b((element*2)&element)\x7d".toList)).verdict = .error e ∧
      e.kind = .typing ∧ e.code = .arithmeticOperator ∧
      e.primarySpan? = some (.ofBounds 31 32) := by
  have h2 : IntText ['2'] 2 := .plain (.digit rfl)
  obtain ⟨hok, herr⟩ := verdict_chainText
    (l := [⟨.map, .element⟩, ⟨.filter, .node (.node .element (.arith .multiply) (.literal _ 2 h2))
      (.bool .and) .element⟩]) (List.cons_ne_nil _ _) (by simp [RawExpr.InRange])
  cases hv : (readChain (.whole
      "map\x7belement\x7d%>%filter\x7b((element*2)&element)\x7d".toList)).verdict with
  | ok c =>
    have hw := hok.1 ⟨c, hv⟩ _ (List.mem_cons_of_mem _ List.mem_cons_self)
    rw [wellSorted_iff 15] at hw
    cases hw
  | error e =>
    obtain ⟨pre, d, post, p, hl, -, hd, hp, hk, hc, hs⟩ := herr e hv
    rcases pre with _ | ⟨a, _ | ⟨a', pre⟩⟩
    · -- the map is well sorted
      cases hl
      exact absurd .element hd
    · cases hl
      cases hp
      exact ⟨e, rfl, hk, hc, hs⟩
    · simp at hl

end MapFilter
