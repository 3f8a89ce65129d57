import MapFilter.Proofs.Processing.FixedPoint
import MapFilter.Proofs.Reading.Surroundings
import MapFilter.Proofs.Rewriting.Counts

/-!
# The log tells what happened

At the least severe level every record is kept. The log of a text then names the calls that were
read, and after them the fault that ended the reading or what refactoring did to the chain.

* `traceLog`, `valuesOf`: the log of a text, and what the records with one message say;
* `processRecords_eq_ok`, `processRecords_eq_error`: the log by the outcome of reading;
* `valuesOf_calls`, `valuesOf_records`: the records of reading and of refactoring by their message;
* `Truthful`, **`truthful_traceLog`**: what the log says is what happened.
-/

namespace MapFilter

variable {s : Settings} {t : List Char} {c : Chain} {e : Fault}

/-! ## Logs -/

/-- The records of processing a text that are kept at the least severe level. -/
def traceLog (s : Settings) (t : List Char) : List Record :=
  (processRecords s t).filter fun r => Threshold.admits (some .trace) r.level

theorem Threshold.admits_trace (l : Level) : Threshold.admits (some .trace) l := by
  cases l <;> rfl

theorem traceLog_eq (s : Settings) (t : List Char) : traceLog s t = processRecords s t :=
  List.filter_eq_self.2 fun r _ => Threshold.admits_trace r.level

/-- What the records with the message say, in order. -/
def valuesOf (m : String) (l : List Record) : List (List (String × String)) :=
  (l.filter fun r => r.message = m).map Record.values

@[simp]
theorem valuesOf_nil (m : String) : valuesOf m [] = [] := rfl

@[simp]
theorem valuesOf_cons (m : String) (r : Record) (l : List Record) :
    valuesOf m (r :: l) = if r.message = m then r.values :: valuesOf m l else valuesOf m l := by
  unfold valuesOf
  split_ifs with h <;> simp [h]

@[simp]
theorem valuesOf_append (m : String) (l k : List Record) :
    valuesOf m (l ++ k) = valuesOf m l ++ valuesOf m k := by
  rw [valuesOf, List.filter_append, List.map_append]
  rfl

/-- Records that all have the same message. -/
theorem valuesOf_map {α : Type} {g : α → Record} {n : String} (h : ∀ a, (g a).message = n)
    (m : String) (xs : List α) :
    valuesOf m (xs.map g) = if n = m then xs.map fun a => (g a).values else [] := by
  induction xs with
  | nil => simp
  | cons a xs ih =>
    rw [List.map_cons, valuesOf_cons, h, ih]
    split_ifs <;> rfl

/-! ## By the outcome of reading -/

/-- The record of the start. -/
def startRecord (t : List Char) : Record :=
  ⟨.info, "callchain", "Parsing call chain", [("len", toString (byteLength t))]⟩

/-- The record of a call that was read. -/
def callRecord (a : Call) : Record :=
  ⟨.trace, "callchain_parser::parser", "Parsed call", [("call", a.outline)]⟩

/-- The record of a fault. -/
def faultRecord (d : Diagnostic) : Record :=
  ⟨.debug, "callchain_parser", "Rejected call chain",
    [("code", d.code.id), ("kind", d.kind.name)]⟩

/-- The record of an exchange after which `n` calls are left. -/
def exchangeRecord (n : ℕ) : Record :=
  ⟨.trace, "callchain::refactor", "Commuted map past filter", [("len", toString n)]⟩

/-- The records of a chain that was read. -/
def chainRecords (c : Chain) : List Record :=
  [⟨.debug, "callchain_parser::parser", "Parsed call chain", [("calls", toString c.length)]⟩,
    ⟨.debug, "callchain", "Call chain parsed successfully", [("calls", toString c.length)]⟩,
    ⟨.trace, "callchain", "Parsed call chain", [("chain", c.outline)]⟩]

/-- The records of what is done with a chain. -/
def workRecords (s : Settings) (c : Chain) : List Record :=
  if s.refactor then c.refactor.records c.length
  else [⟨.info, "callchain", "Refactoring disabled, printing chain as parsed", []⟩]

theorem processRecords_eq_error (h : (readChain (.whole t)).result = .error e) (s : Settings) :
    processRecords s t =
      startRecord t :: ((readChain (.whole t)).calls.map callRecord ++
        [faultRecord e.diagnostic]) := by
  have hf := Reading.result_eq_error_iff.1 h
  rw [processRecords, Reading.records, h, hf]
  simp [startRecord, callRecord, faultRecord]

theorem processRecords_eq_ok (h : (readChain (.whole t)).result = .ok c) (s : Settings) :
    processRecords s t =
      startRecord t :: (c.map callRecord ++ (chainRecords c ++ workRecords s c)) := by
  obtain ⟨hf, rfl⟩ := Reading.result_eq_ok_iff.1 h
  rw [processRecords, Reading.records, h, hf]
  simp [startRecord, callRecord, chainRecords, workRecords]

/-! ## What the records say -/

theorem valuesOf_calls (m : String) (c : Chain) : valuesOf m (c.map callRecord) =
    if "Parsed call" = m then c.map fun a => [("call", a.outline)] else [] :=
  valuesOf_map (g := callRecord) (fun _ => rfl) m c

/-- What the records of refactoring say, message by message. -/
theorem valuesOf_records (m : String) (n : ℕ) (r : Refactoring) : valuesOf m (r.records n) =
    (if "Commuted map past filter" = m then r.lengths.map fun k => [("len", toString k)] else []) ++
      (if "Refactored call chain" = m then [[("calls", toString n),
        ("fusions", toString r.fusions), ("commutations", toString r.commutations)]] else []) ++
      if "Call chain refactored" = m then [[("fusions", toString r.fusions),
        ("commutations", toString r.commutations)]] else [] := by
  rw [Refactoring.records, valuesOf_append]
  change valuesOf m (r.lengths.map exchangeRecord) ++ _ = _
  rw [valuesOf_map (g := exchangeRecord) fun _ => rfl]
  split_ifs <;> simp [*, exchangeRecord]

theorem valuesOf_parsed_call (s : Settings) (t : List Char) :
    valuesOf "Parsed call" (processRecords s t) =
      (readChain (.whole t)).calls.map fun a => [("call", a.outline)] := by
  cases h : (readChain (.whole t)).result with
  | error e => simp [processRecords_eq_error h, valuesOf_calls, startRecord, faultRecord]
  | ok c =>
    obtain ⟨-, rfl⟩ := Reading.result_eq_ok_iff.1 h
    rw [processRecords_eq_ok h, workRecords]
    split_ifs <;> simp [valuesOf_calls, valuesOf_records, startRecord, chainRecords]

/-! ## The log of a run -/

/-- What a log says, and that it is what happened. -/
structure Truthful (s : Settings) (t : List Char) (log : List Record) : Prop where
  /-- The calls that are noted are those that were read, up to the end or to the fault, and form a
  chain that is read itself. -/
  parsed : ∃ c : Chain,
    valuesOf "Parsed call" log = (c.map fun a => [("call", a.outline)]) ∧
      (match (readChain (.whole t)).verdict with
        | .ok d => c = d
        | .error d => CallsBefore t d c) ∧
      (c ≠ [] → (∃ u, u <+: t ∧ (readChain (.whole u)).verdict = .ok c) ∧
        (readChain (.whole c.render)).verdict = .ok c)
  /-- Of a text that is not read, the log notes the start, the calls and the fault. -/
  rejected {f : Failure} (h : process s t = .error f) : ∃ d c, f = .parse d t ∧
    CallsBefore t d c ∧ log = startRecord t :: (c.map callRecord ++ [faultRecord d])
  /-- Of a chain that was refactored, the log notes each exchange with the length after it, and both
  summaries give the number of exchanges and the same number of fusions. -/
  refactored {out : List Char} (h : process s t = .ok out) (hs : s.refactor = true) :
    ∃ c, (readChain (.whole t)).verdict = .ok c ∧ out = c.refactor.chain.render ∧
      valuesOf "Commuted map past filter" log =
        (c.refactor.lengths.map fun n => [("len", toString n)]) ∧
      valuesOf "Refactored call chain" log = [[("calls", toString c.length),
        ("fusions", toString c.refactor.fusions),
        ("commutations", toString c.refactor.lengths.length)]] ∧
      valuesOf "Call chain refactored" log = [[("fusions", toString c.refactor.fusions),
        ("commutations", toString c.refactor.lengths.length)]] ∧
      Chain.Descends c.refactor.lengths

/-- The calls that were read, up to the end or to a fault. -/
theorem calls_readChain (t : List Char) :
    match (readChain (.whole t)).verdict with
    | .ok d => (readChain (.whole t)).calls = d
    | .error d => CallsBefore t d (readChain (.whole t)).calls := by
  split
  · rename_i d h
    exact (Reading.result_eq_ok_iff.1 (Reading.verdict_eq_ok_iff.1 h)).2
  · rename_i d h
    exact callsBefore_of_verdict h

theorem exists_verdict_calls (h : (readChain (.whole t)).calls ≠ []) :
    ∃ u, u <+: t ∧ (readChain (.whole u)).verdict = .ok (readChain (.whole t)).calls := by
  have hc := calls_readChain t
  split at hc
  · rename_i d hv
    exact ⟨t, List.prefix_rfl, hc ▸ hv⟩
  · exact hc.exists_verdict h

/-- **The log tells what happened.** -/
theorem truthful_traceLog (s : Settings) (t : List Char) : Truthful s t (traceLog s t) where
  parsed := by
    rw [traceLog_eq]
    refine ⟨_, valuesOf_parsed_call s t, calls_readChain t, fun hc => ⟨exists_verdict_calls hc, ?_⟩⟩
    exact Reading.verdict_eq_ok_iff.2 (result_readChain_render hc)
  rejected h := by
    rw [traceLog_eq]
    cases hr : (readChain (.whole t)).result with
    | ok c =>
      rw [process_eq_ok hr] at h
      cases h
    | error e =>
      rw [process_eq_error hr] at h
      cases h
      have hv := Reading.verdict_of_fault? (Reading.result_eq_error_iff.1 hr)
      exact ⟨_, _, rfl, callsBefore_of_verdict hv, processRecords_eq_error hr s⟩
  refactored h hs := by
    rw [traceLog_eq]
    cases hr : (readChain (.whole t)).result with
    | error e =>
      rw [process_eq_error hr] at h
      cases h
    | ok c =>
      rw [process_eq_ok hr, Chain.render_under, if_pos hs] at h
      cases h
      obtain ⟨hlen, hd⟩ := c.descends_refactor
      refine ⟨c, Reading.verdict_eq_ok_iff.2 hr, rfl, ?_, ?_, ?_, hd⟩ <;>
        simp [processRecords_eq_ok hr, workRecords, hs, valuesOf_calls, valuesOf_records,
          startRecord, chainRecords, hlen]

/-- Of `map{element}%>%reduce{1}` the log notes one call and the fault after it. Of two maps with a
filter behind each it notes two exchanges, after which three and two calls are left. -/
theorem truthful_traceLog_two_texts :
    let t := "map\x7belement\x7d%>%reduce\x7b1\x7d".toList
    let u := "map\x7b1\x7d%>%filter\x7b(1>0)\x7d%>%map\x7b2\x7d%>%filter\x7b(1>0)\x7d".toList
    (∃ d, process {} t = .error (.parse d t) ∧ d.code = .unknownCall ∧
        traceLog {} t = [startRecord t, callRecord Call.noOpMap, faultRecord d]) ∧
      valuesOf "Commuted map past filter" (traceLog {} u) = [[("len", "3")], [("len", "2")]] := by
  intro t u
  let p : BoolExpr := .rel (.const 1) .greaterThan (.const 0)
  have ht : (readChain (.whole t)).fault? = some (.unknownKeyword ⟨"reduce".toList, 15⟩) ∧
      (readChain (.whole t)).calls = [Call.noOpMap] := by decide +kernel
  have hu : (readChain (.whole u)).result =
      .ok [.map (.const 1), .filter p, .map (.const 2), .filter p] := by decide +kernel
  refine ⟨?_, ?_⟩
  · have h := process_eq_error (Reading.result_eq_error_iff.2 ht.1) {}
    obtain ⟨d, c, he, hc, hl⟩ := (truthful_traceLog {} t).rejected h
    cases he
    have hv := callsBefore_of_verdict (Reading.verdict_of_fault? ht.1)
    rw [ht.2] at hv
    obtain rfl := hc.unique hv
    exact ⟨_, h, rfl, hl⟩
  · obtain ⟨c, hv, -, hl, -⟩ := (truthful_traceLog {} u).refactored (process_eq_ok hu {}) rfl
    rw [Reading.verdict_eq_ok_iff, hu] at hv
    cases hv
    rw [hl]
    decide +kernel

end MapFilter
