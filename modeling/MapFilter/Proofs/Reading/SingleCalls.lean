import MapFilter.Proofs.Reading.Concatenation

/-!
# One call, read in four ways

Chains, calls, numbers and conditions have a reader each. The reader of single calls finds the end
of a call by its last brace and the reader of chains by its first one; both hand the body on as a
fragment of the call, while a body alone is read from offset zero. None of this shows in what is
read.

* `numberVerdict`, `conditionVerdict`, `bodyVerdict`, `callVerdict`: the readers on whole texts;
* `callVerdict_eq_ok_iff`, `chainText_singleton_iff`: a text of one call;
* `Diagnostic.around`, `callVerdict_braces`: the diagnostic of a body, seen from the call;
* `verdict_readChain_brace`: a text with one closing brace, which is its end;
* **`verdicts_agree`**: the four readers.
-/

namespace MapFilter

/-- What the reader of numbers says of a text. -/
def numberVerdict (t : List Char) : Except Diagnostic NumExpr :=
  (readNumber (.whole t)).mapError ExprFault.diagnostic

/-- What the reader of conditions says of a text. -/
def conditionVerdict (t : List Char) : Except Diagnostic BoolExpr :=
  (readBoolean (.whole t)).mapError ExprFault.diagnostic

/-- What the reader of bodies of one kind says of a text. -/
def bodyVerdict (kind : Call.Kind) (t : List Char) : Except Diagnostic Call :=
  (readBody kind (.whole t)).mapError ExprFault.diagnostic

/-- What the reader of single calls says of a text. -/
def callVerdict (t : List Char) : Except Diagnostic Call :=
  (readSingleCall (.whole t)).mapError Fault.diagnostic

variable {t w : List Char} {c : Call}

/-! ## A text of one call -/

theorem callVerdict_eq_ok_iff : callVerdict t = .ok c ↔ CallText t c :=
  mapError_eq_ok_iff.trans readSingleCall_eq_ok_iff

theorem chainText_singleton_iff : ChainText t [c] ↔ CallText t c := by
  constructor
  · intro h
    cases h with
    | single h => exact h
    | cons h hr => exact absurd rfl hr.chain_ne_nil
  · exact .single

theorem readSingleCall_brace (w : List Char) (k : Nat) :
    readSingleCall ⟨w ++ ['}'], k⟩ = readCall ⟨w ++ ['}'], k⟩ := if_pos (by simp)

/-! ## From a body to its call -/

/-- The diagnostic of the body `b`, as a diagnostic of the call with that body. -/
def Diagnostic.around (kind : Call.Kind) (b : List Char) (d : Diagnostic) : Diagnostic :=
  (d.shift (byteLength kind.word + 1)).secondary
    (.ofBounds 0 (byteLength b + (byteLength kind.word + 2)))
    ("in this `" ++ String.ofList kind.word ++ "` call")

theorem diagnostic_inBody (kind : Call.Kind) (b : List Char) (e : ExprFault) :
    (Fault.inBody ⟨kind.word ++ '{' :: (b ++ ['}']), 0⟩ kind
      (e.shift (byteLength kind.word + 1))).diagnostic = e.diagnostic.around kind b := by
  have h : 0 + byteLength (kind.word ++ '{' :: (b ++ ['}'])) =
      byteLength b + (byteLength kind.word + 2) := by
    rw [byteLength_braces]
    omega
  rw [Fault.diagnostic, ExprFault.diagnostic_shift, Fragment.span_eq_ofBounds, h, Diagnostic.around]

/-- The body of a call is read as it is alone, and its diagnostic moves into the call. -/
theorem callVerdict_braces (kind : Call.Kind) (b : List Char) :
    callVerdict (kind.word ++ '{' :: (b ++ ['}'])) =
      (bodyVerdict kind b).mapError (.around kind b) := by
  have hs : readSingleCall (.whole (kind.word ++ '{' :: (b ++ ['}']))) =
      readCall (.whole (kind.word ++ '{' :: (b ++ ['}']))) := by
    have h := readSingleCall_brace (kind.word ++ '{' :: b) 0
    rwa [List.append_assoc, List.cons_append] at h
  have hb : (⟨b, 0 + byteLength kind.word + 1⟩ : Fragment) =
      (Fragment.whole b).shift (byteLength kind.word + 1) := by
    rw [Fragment.whole, Fragment.shift, Nat.add_assoc]
  rw [callVerdict, hs, Fragment.whole, readCall_append, hb, readBody_shift, bodyVerdict]
  cases readBody kind (.whole b) with
  | ok c => rfl
  | error e => exact congrArg Except.error (diagnostic_inBody kind b e)

theorem bodyVerdict_map (b : List Char) : bodyVerdict .map b = (numberVerdict b).map .map := by
  unfold bodyVerdict numberVerdict readBody
  cases readNumber (.whole b) <;> rfl

theorem bodyVerdict_filter (b : List Char) :
    bodyVerdict .filter b = (conditionVerdict b).map .filter := by
  unfold bodyVerdict conditionVerdict readBody
  cases readBoolean (.whole b) <;> rfl

/-! ## From a call to a chain -/

/-- When the only closing brace is the last character, both readers take the whole text for a
call. -/
theorem verdict_readChain_brace (hw : '}' ∉ w) :
    (readChain (.whole (w ++ ['}']))).verdict = (callVerdict (w ++ ['}'])).map fun c => [c] := by
  have hu : upTo? '}' (w ++ ['}']) = some (w ++ ['}'], []) := upTo?_append hw []
  rw [Fragment.whole, readChain_of_ne_nil (by simp), readCalls_turn]
  simp only [hu, callVerdict, Fragment.whole, readSingleCall_brace]
  cases readCall ⟨w ++ ['}'], 0⟩ <;> rfl

/-- **The four readers agree.** A text is read as a call when it is read as the chain of this call.
A call has the body that is read alone, or the diagnostic of that body, further on and with a label
more on the call. When no brace stands in the body, the reader of chains says the same. -/
theorem verdicts_agree :
    (∀ (t : List Char) (c : Call),
        callVerdict t = .ok c ↔ (readChain (.whole t)).verdict = .ok [c]) ∧
      (∀ b : List Char, callVerdict ("map".toList ++ '{' :: (b ++ ['}'])) =
        match numberVerdict b with
        | .ok e => .ok (.map e)
        | .error d => .error ((d.shift 4).secondary (.ofBounds 0 (byteLength b + 5))
          "in this `map` call")) ∧
      (∀ b : List Char, callVerdict ("filter".toList ++ '{' :: (b ++ ['}'])) =
        match conditionVerdict b with
        | .ok p => .ok (.filter p)
        | .error d => .error ((d.shift 7).secondary (.ofBounds 0 (byteLength b + 8))
          "in this `filter` call")) ∧
      ∀ (kind : Call.Kind) (b : List Char), '}' ∉ b →
        (readChain (.whole (kind.word ++ '{' :: (b ++ ['}'])))).verdict =
          (callVerdict (kind.word ++ '{' :: (b ++ ['}']))).map fun c => [c] := by
  refine ⟨fun t c => ?_, fun b => ?_, fun b => ?_, fun kind b hb => ?_⟩
  · rw [callVerdict_eq_ok_iff, Reading.verdict_eq_ok_iff, result_readChain_eq_ok_iff,
      ← chainText_singleton_iff]
    rfl
  · have h := callVerdict_braces .map b
    rw [bodyVerdict_map] at h
    refine h.trans ?_
    cases numberVerdict b <;> rfl
  · have h := callVerdict_braces .filter b
    rw [bodyVerdict_filter] at h
    refine h.trans ?_
    cases conditionVerdict b <;> rfl
  · have hw : '}' ∉ kind.word ++ '{' :: b := by
      simp [kind.not_mem_word (c := '}') rfl, hb]
    have h := verdict_readChain_brace hw
    rwa [List.append_assoc, List.cons_append] at h

/-- In `filter{(1+2)}` the operator of the body is at fault, for both readers. -/
theorem verdicts_agree_sum_as_condition :
    ∃ d, conditionVerdict "(1+2)".toList = .error d ∧ d.code = .arithmeticOperator ∧
      '}' ∉ "(1+2)".toList ∧
      callVerdict "filter\x7b(1+2)\x7d".toList =
        .error ((d.shift 7).secondary (.ofBounds 0 13) "in this `filter` call") ∧
      (readChain (.whole "filter\x7b(1+2)\x7d".toList)).verdict =
        .error ((d.shift 7).secondary (.ofBounds 0 13) "in this `filter` call") := by
  have ho : Term.ofFragment ⟨['(', '1', '+', '2', ')'], 0⟩ = _ :=
    Term.ofFragment_node (s := ['1']) (t := ['2']) (c := '+') (k := 0) rfl
  have hb : conditionVerdict "(1+2)".toList =
      .error (ExprFault.numberOperator '+' 2 ⟨['(', '1', '+', '2', ')'], 0⟩).diagnostic := by
    have hr : readBoolean (.whole ['(', '1', '+', '2', ')']) =
        .error (.numberOperator '+' 2 ⟨['(', '1', '+', '2', ')'], 0⟩) := by
      rw [readBoolean, Fragment.whole, ho]
      rfl
    exact congrArg (Except.mapError ExprFault.diagnostic) hr
  have hc := verdicts_agree.2.2.1 "(1+2)".toList
  have hr := verdicts_agree.2.2.2 .filter "(1+2)".toList (by decide)
  rw [hb] at hc
  exact ⟨_, hb, rfl, by decide, hc, hr.trans (congrArg (Except.map fun c => [c]) hc)⟩

end MapFilter
