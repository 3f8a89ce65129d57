import MapFilter.Reading.Expr

/-!
# Reading calls and chains

A call is a keyword, an opening brace, a body and a closing brace. The keyword is what stands before
the first opening brace, the body what stands between it and the last character.

A chain is read call by call: each call reaches up to the first closing brace, and a separator
stands between two calls. The reading keeps the calls that were read before a fault.

* `readCall`: reads a fragment that ends with its closing brace; `readCall_cases`: by what stands
  before its first opening brace;
* `readSingleCall`: reads a text as one call, after a look at its end;
* `Reading`, `readCalls`, `readChain`; `readCalls_turn`: one turn of the reading;
* `Reading.result`, `Reading.verdict`: the chain, or the fault that ended the reading, as it is and
  as a diagnostic.
-/

namespace MapFilter

/-! ## Calls -/

section MapError

variable {ε δ α : Type} {r : Except ε α} {g : ε → δ}

theorem mapError_eq_ok_iff {a : α} : r.mapError g = .ok a ↔ r = .ok a := by
  cases r with
  | ok b => exact ⟨by rintro ⟨⟩; rfl, by rintro ⟨⟩; rfl⟩
  | error e => exact ⟨by rintro ⟨⟩, by rintro ⟨⟩⟩

theorem mapError_eq_error_iff {d : δ} : r.mapError g = .error d ↔ ∃ e, r = .error e ∧ g e = d := by
  cases r with
  | ok b => exact ⟨by rintro ⟨⟩, by rintro ⟨e, ⟨⟩, -⟩⟩
  | error e => exact ⟨by rintro ⟨⟩; exact ⟨e, rfl, rfl⟩, by rintro ⟨e', ⟨⟩, rfl⟩; rfl⟩

end MapError

/-- The kind of call that a keyword opens. -/
def Call.Kind.ofWord? (w : List Char) : Option Call.Kind :=
  if w = Kind.map.word then some .map
  else if w = Kind.filter.word then some .filter
  else none

theorem Call.Kind.ofWord?_eq_some_iff {w : List Char} {kind : Call.Kind} :
    Call.Kind.ofWord? w = some kind ↔ w = kind.word := by
  unfold Call.Kind.ofWord?
  constructor
  · intro h
    split at h
    · rename_i hw
      cases h
      exact hw
    · split at h
      · rename_i hw
        cases h
        exact hw
      · cases h
  · rintro rfl
    cases kind <;> rfl

theorem byteLength_braces (kind : Call.Kind) (b : List Char) :
    byteLength (kind.word ++ '{' :: (b ++ ['}'])) = byteLength kind.word + 1 + byteLength b + 1 := by
  have hz : '{'.utf8Size = 1 ∧ '}'.utf8Size = 1 := ⟨rfl, rfl⟩
  simp only [byteLength_append, byteLength_cons, byteLength_nil, hz]
  omega

/-- Reads the body of a call. -/
def readBody (kind : Call.Kind) (body : Fragment) : Except ExprFault Call :=
  match kind with
  | .map => (readNumber body).map .map
  | .filter => (readBoolean body).map .filter

/-- Reads a fragment that ends with a closing brace as a call. -/
def readCall (f : Fragment) : Except Fault Call :=
  match f.text.dropWhile (· ≠ '{') with
  | [] => .error (.missingBody f)
  | _ :: rest =>
    let keyword : Fragment := ⟨f.text.takeWhile (· ≠ '{'), f.offset⟩
    match Call.Kind.ofWord? keyword.text with
    | none => .error (.unknownKeyword keyword)
    | some kind =>
      match readBody kind ⟨rest.dropLast, f.offset + byteLength keyword.text + 1⟩ with
      | .ok c => .ok c
      | .error e => .error (.inBody f kind e)

theorem readCall_of_not_mem {s : List Char} (h : '{' ∉ s) (k : Nat) :
    readCall ⟨s, k⟩ = .error (.missingBody ⟨s, k⟩) := by
  have hp : ∀ c ∈ s, decide (c ≠ '{') = true := fun c hc => decide_eq_true fun he => h (he ▸ hc)
  have hd : (s ++ []).dropWhile (· ≠ '{') = [] := List.dropWhile_append_of_pos hp
  rw [List.append_nil] at hd
  simp only [readCall, hd]

/-- The first opening brace of a text ends the keyword, and the last character the body. -/
theorem readCall_append_brace {w : List Char} (hw : '{' ∉ w) (s : List Char) (k : Nat) :
    readCall ⟨w ++ '{' :: s, k⟩ =
      match Call.Kind.ofWord? w with
      | none => .error (.unknownKeyword ⟨w, k⟩)
      | some kind => (readBody kind ⟨s.dropLast, k + byteLength w + 1⟩).mapError
          (.inBody ⟨w ++ '{' :: s, k⟩ kind) := by
  have hp : ∀ c ∈ w, decide (c ≠ '{') = true := fun c hc =>
    decide_eq_true fun he => hw (he ▸ hc)
  have hd : (w ++ '{' :: s).dropWhile (· ≠ '{') = '{' :: s := by
    rw [List.dropWhile_append_of_pos hp]
    simp
  have ht : (w ++ '{' :: s).takeWhile (· ≠ '{') = w := by
    rw [List.takeWhile_append_of_pos hp]
    simp
  simp only [readCall, hd, ht]
  cases Call.Kind.ofWord? w with
  | none => rfl
  | some kind =>
    dsimp only
    cases readBody kind ⟨s.dropLast, k + byteLength w + 1⟩ <;> rfl

/-- A call between its keyword and its last brace is read by its body. -/
theorem readCall_append (kind : Call.Kind) (s : List Char) (k : Nat) :
    readCall ⟨kind.word ++ '{' :: (s ++ ['}']), k⟩ =
      (readBody kind ⟨s, k + byteLength kind.word + 1⟩).mapError
        (.inBody ⟨kind.word ++ '{' :: (s ++ ['}']), k⟩ kind) := by
  rw [readCall_append_brace (kind.not_mem_word rfl), Call.Kind.ofWord?_eq_some_iff.2 rfl]
  simp only [List.dropLast_concat]

/-- What the reader makes of a text with a closing brace at the end, by what stands before its first
opening brace. -/
theorem readCall_cases (w : List Char) (k : Nat) :
    ('{' ∉ w ∧ readCall ⟨w ++ ['}'], k⟩ = .error (.missingBody ⟨w ++ ['}'], k⟩)) ∨
      (∃ v b, w = v ++ '{' :: b ∧ '{' ∉ v ∧ Call.Kind.ofWord? v = none ∧
        readCall ⟨w ++ ['}'], k⟩ = .error (.unknownKeyword ⟨v, k⟩)) ∨
      ∃ kind b, w = Call.Kind.word kind ++ '{' :: b ∧
        readCall ⟨w ++ ['}'], k⟩ = (readBody kind ⟨b, k + byteLength kind.word + 1⟩).mapError
          (.inBody ⟨w ++ ['}'], k⟩ kind) := by
  by_cases ho : '{' ∈ w
  · obtain ⟨v, b, rfl, hv⟩ := List.eq_append_cons_of_mem ho
    rw [List.append_assoc, List.cons_append]
    cases hk : Call.Kind.ofWord? v with
    | none =>
      refine .inr (.inl ⟨v, b, rfl, hv, hk, ?_⟩)
      rw [readCall_append_brace hv, hk]
    | some kind =>
      obtain rfl := Call.Kind.ofWord?_eq_some_iff.1 hk
      exact .inr (.inr ⟨kind, b, rfl, readCall_append kind b k⟩)
  · exact .inl ⟨ho, readCall_of_not_mem (by simp [ho]) k⟩

/-- Reads a text as a single call. -/
def readSingleCall (f : Fragment) : Except Fault Call :=
  if f.text.getLast? = some '}' then readCall f else .error (.unendedCall f)

/-! ## Chains -/

/-- How far the reading of a chain came. -/
structure Reading where
  /-- The calls that were read, in order. -/
  calls : Chain
  /-- The fault that ended the reading before the end of the text. -/
  fault? : Option Fault

namespace Reading

/-- The reading with one call more in front. -/
def cons (c : Call) (r : Reading) : Reading := { r with calls := c :: r.calls }

/-- The chain that was read, or the fault. -/
def result (r : Reading) : Except Fault Chain :=
  match r.fault? with
  | some e => .error e
  | none => .ok r.calls

theorem result_eq_ok_iff {r : Reading} {c : Chain} :
    r.result = .ok c ↔ r.fault? = none ∧ r.calls = c := by
  unfold Reading.result
  cases hf : r.fault? with
  | none => simp
  | some e => simp

theorem result_eq_error_iff {r : Reading} {e : Fault} :
    r.result = .error e ↔ r.fault? = some e := by
  unfold Reading.result
  cases r.fault? with
  | none => simp
  | some e' => simp

/-- The chain that was read, or the diagnostic of the fault. -/
def verdict (r : Reading) : Except Diagnostic Chain := r.result.mapError Fault.diagnostic

theorem verdict_eq_ok_iff {r : Reading} {c : Chain} : r.verdict = .ok c ↔ r.result = .ok c :=
  mapError_eq_ok_iff

theorem verdict_eq_error_iff {r : Reading} {d : Diagnostic} :
    r.verdict = .error d ↔ ∃ e, r.fault? = some e ∧ e.diagnostic = d := by
  unfold verdict Reading.result
  cases r.fault? with
  | none => exact ⟨by rintro ⟨⟩, by rintro ⟨e, ⟨⟩, -⟩⟩
  | some e => exact ⟨by rintro ⟨⟩; exact ⟨e, rfl, rfl⟩, by rintro ⟨e', ⟨⟩, rfl⟩; rfl⟩

theorem verdict_of_fault? {r : Reading} {e : Fault} (h : r.fault? = some e) :
    r.verdict = .error e.diagnostic := by
  rw [verdict, result, h]
  rfl

end Reading

/-- Reads calls up to the end of a text that is not empty. -/
def readCalls (f : Fragment) : Reading :=
  match _ : upTo? '}' f.text with
  | none => ⟨[], some (.unclosedCall f)⟩
  | some (t, rest) =>
    let call : Fragment := ⟨t, f.offset⟩
    let remainder := f.after t rest
    match readCall call with
    | .error e => ⟨[], some e⟩
    | .ok c =>
      if rest = [] then ⟨[c], none⟩
      else
        match _ : word? Chain.separator rest with
        | none => ⟨[c], some (.strayText remainder call)⟩
        | some (_, []) => ⟨[c], some (.danglingSeparator remainder)⟩
        | some (s, d :: next) => (readCalls (remainder.after s (d :: next))).cons c
-- the separator and the call before it are left behind
termination_by f.text.length
decreasing_by
  have h := congrArg List.length (append_of_upTo? ‹upTo? _ f.text = _›)
  have h' := congrArg List.length (append_of_word? ‹word? _ rest = _›)
  have h'' := List.length_pos_iff.2 (ne_nil_of_upTo? ‹upTo? _ f.text = _›)
  simp only [List.length_append, Fragment.after] at h h' h'' ⊢
  omega

/-- What one turn of the reading does. -/
theorem readCalls_turn (f : Fragment) : readCalls f =
    match upTo? '}' f.text with
    | none => ⟨[], some (.unclosedCall f)⟩
    | some (t, rest) =>
      match readCall ⟨t, f.offset⟩ with
      | .error e => ⟨[], some e⟩
      | .ok c =>
        if rest = [] then ⟨[c], none⟩
        else
          match word? Chain.separator rest with
          | none => ⟨[c], some (.strayText (f.after t rest) ⟨t, f.offset⟩)⟩
          | some (_, []) => ⟨[c], some (.danglingSeparator (f.after t rest))⟩
          | some (s, d :: next) => (readCalls ((f.after t rest).after s (d :: next))).cons c := by
  rw [readCalls]
  split <;> simp only [*]
  rename_i t rest hu
  cases readCall ⟨t, f.offset⟩ with
  | error e => rfl
  | ok c =>
    by_cases hr : rest = []
    · simp only [if_pos hr]
    · simp only [if_neg hr]
      split <;> simp only [*]

/-- Reads a whole text as a chain. -/
def readChain (f : Fragment) : Reading :=
  if f.text = [] then ⟨[], some (.empty f)⟩ else readCalls f

theorem readChain_of_ne_nil {s : List Char} (hs : s ≠ []) (k : Nat) :
    readChain ⟨s, k⟩ = readCalls ⟨s, k⟩ := if_neg hs

end MapFilter
