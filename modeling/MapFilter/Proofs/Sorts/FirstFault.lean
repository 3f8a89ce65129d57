import MapFilter.Proofs.Sorts.Raw

/-!
# The first fault in an expression

The reader looks at a node before its operands, and at the left operand before the right one. So
the fault that it finds in a raw expression is the first one in pre-order.

* `faultOf?`: the fault of a failed reading; `Term.fault?`: of a term where a sort is due;
* `Place.mismatch`, `Place.fault?`: the fault of a single node at its place; `Place.code`,
  `Place.mark`: how it is reported when the node is out of place;
* `Term.fault?_node`: one step of the reader, for every operator and every sort;
* **`RawExpr.fault?_ofFragment`**: the fault of the whole;
* `findSome?_fault?`: without literals beyond the range, it is that of the first node out of place.
-/

namespace MapFilter

/-! ## Faults of readings -/

section FaultOf

variable {ε δ α β : Type}

/-- The fault of a failed reading. -/
def faultOf? : Except ε α → Option ε
  | .ok _ => none
  | .error e => some e

theorem faultOf?_eq_none_iff {r : Except ε α} : faultOf? r = none ↔ ∃ a, r = .ok a := by
  cases r with
  | ok a => exact ⟨fun _ => ⟨a, rfl⟩, fun _ => rfl⟩
  | error e => simp [faultOf?]

theorem faultOf?_eq_some_iff {r : Except ε α} {e : ε} : faultOf? r = some e ↔ r = .error e := by
  cases r <;> simp [faultOf?]

theorem faultOf?_map (g : α → β) (r : Except ε α) : faultOf? (r.map g) = faultOf? r := by
  cases r <;> rfl

theorem faultOf?_mapError (g : ε → δ) (r : Except ε α) :
    faultOf? (r.mapError g) = (faultOf? r).map g := by
  cases r <;> rfl

end FaultOf

/-! ## Faults of nodes -/

/-- The fault of an operator with offset `k` in `f`, where a sort is due that it does not give. -/
def Operator.clash (o : Operator) (k : Nat) (f : Fragment) : ExprSort → ExprFault
  | .number => .truthOperator o.symbol k f
  | .condition => .numberOperator o.symbol k f

/-- The fault of a term where a sort is due. -/
def Term.fault? (t : Term) : ExprSort → Option ExprFault
  | .number => faultOf? t.number
  | .condition => faultOf? t.boolean

namespace Place

/-- Whether the expression is a literal without the value of a 32-bit number. -/
def beyond (p : Place) : Bool :=
  match p.expr with
  | .literal _ n _ => !decide (-2147483648 ≤ n ∧ n ≤ 2147483647)
  | _ => false

/-- The fault of an expression that is out of place. -/
def mismatch (p : Place) : ExprFault :=
  match p.expr with
  | .node l o _ => o.clash (p.offset + 1 + byteLength l.text) p.fragment p.due
  | _ => if p.beyond then .notBoolean p.fragment else .numberAsPredicate p.fragment

/-- The code that tells what is out of place. -/
def code (p : Place) : Diagnostic.Code :=
  match p.expr with
  | .node _ o _ =>
    match o.result with
    | .condition => .booleanOperator
    | .number => .arithmeticOperator
  | _ => .numberAsPredicate

/-- The part that is marked when the expression is out of place: the operator of a node, and the
whole of anything else. -/
def mark (p : Place) : Span :=
  match p.expr with
  | .node l _ _ =>
    .ofBounds (p.offset + 1 + byteLength l.text) (p.offset + 1 + byteLength l.text + 1)
  | e => .ofBounds p.offset (p.offset + byteLength e.text)

/-- The fault of an expression at its place, operands left aside. -/
def fault? (p : Place) : Option ExprFault :=
  if p.mismatched then some p.mismatch
  else if p.beyond then some (.outOfRange p.fragment)
  else none

end Place

namespace Term

variable {f : Fragment} {l r : Term} {k : Nat}

theorem faultOf?_number_arith (o : ArithOp) : faultOf? (node f l o.symbol k r).number =
    (faultOf? l.number).or (faultOf? r.number) := by
  simp only [number, ArithOp.ofSymbol?_eq_some_iff.2 rfl]
  cases l.number with
  | error e => rfl
  | ok a => cases r.number <;> rfl

theorem faultOf?_boolean_rel (o : RelOp) : faultOf? (node f l o.symbol k r).boolean =
    (faultOf? l.number).or (faultOf? r.number) := by
  simp only [boolean, RelOp.ofSymbol?_eq_some_iff.2 rfl]
  cases l.number with
  | error e => rfl
  | ok a => cases r.number <;> rfl

theorem faultOf?_boolean_bool (o : BoolOp) : faultOf? (node f l o.symbol k r).boolean =
    (faultOf? l.boolean).or (faultOf? r.boolean) := by
  have hr : RelOp.ofSymbol? o.symbol = none := by cases o <;> rfl
  simp only [boolean, hr, BoolOp.ofSymbol?_eq_some_iff.2 rfl]
  cases l.boolean with
  | error e => rfl
  | ok p => cases r.boolean <;> rfl

/-- **One step of the reader.** An operator of the sort that is due passes the reader on to the
operands, from left to right, and any other one is the fault. -/
theorem fault?_node (o : Operator) (s : ExprSort) : (node f l o.symbol k r).fault? s =
    if o.result = s then (l.fault? o.operand).or (r.fault? o.operand)
    else some (o.clash k f s) := by
  cases o with
  | arith o =>
    cases s with
    | number => exact faultOf?_number_arith o
    | condition => cases o <;> rfl
  | rel o =>
    cases s with
    | number => cases o <;> rfl
    | condition => exact faultOf?_boolean_rel o
  | bool o =>
    cases s with
    | number => cases o <;> rfl
    | condition => exact faultOf?_boolean_bool o

end Term

/-! ## Faults of expressions -/

namespace RawExpr

theorem atomNumber_literal {t : List Char} {n : Int} (h : IntText t n) (s : ExprSort) (k : Nat) :
    Term.atomNumber ⟨t, k⟩ =
      if (Place.mk (literal t n h) s k).beyond then .error (.outOfRange ⟨t, k⟩)
      else .ok (.const (Int32.ofInt n)) := by
  rw [Term.atomNumber, if_neg h.ne_elementWord]
  simp only [literal?_eq_some_iff.2 h, ofInt32?, Place.beyond]
  by_cases hn : -2147483648 ≤ n ∧ n ≤ 2147483647
  · simp [hn]
  · simp [hn]

theorem fault?_literal {t : List Char} {n : Int} (h : IntText t n) (s : ExprSort) (k : Nat) :
    (Term.ofFragment ⟨t, k⟩).fault? s = Place.fault? ⟨literal t n h, s, k⟩ := by
  rw [Term.ofFragment_atom h.ne_group]
  have ha := atomNumber_literal h s k
  cases s with
  | number =>
    rw [Term.fault?, Term.number, ha, Place.fault?]
    cases (Place.mk (literal t n h) .number k).beyond <;> rfl
  | condition =>
    rw [Term.fault?, Term.boolean, ha, Place.fault?, Place.mismatch]
    cases (Place.mk (literal t n h) .condition k).beyond <;> rfl

/-- **The reader finds the first fault in pre-order**, and none when there is none. -/
theorem fault?_ofFragment (e : RawExpr) (s : ExprSort) (k : Nat) :
    (Term.ofFragment ⟨e.text, k⟩).fault? s = (e.places s k).findSome? Place.fault? := by
  induction e generalizing s k with
  | element =>
    rw [places, List.findSome?_singleton, text, Term.ofFragment_atom (by rintro t ⟨⟩)]
    cases s <;> rfl
  | literal t n h => rw [places, List.findSome?_singleton, text, fault?_literal h]
  | node l o r ihl ihr =>
    rw [ofFragment_text, Term.fault?_node, ihl, ihr, places, List.findSome?_cons,
      List.findSome?_append]
    by_cases h : o.result = s
    · have hf : Place.fault? ⟨node l o r, s, k⟩ = none := by
        simp [Place.fault?, Place.mismatched, Place.beyond, sort, h]
      rw [if_pos h, hf]
    · have hf : Place.fault? ⟨node l o r, s, k⟩ =
          some (o.clash (k + 1 + byteLength l.text) ⟨(node l o r).text, k⟩ s) := by
        simp [Place.fault?, Place.mismatched, Place.mismatch, Place.fragment, sort, h]
      rw [if_neg h, hf]

end RawExpr

/-! ## Without literals beyond the range -/

theorem RawExpr.InRange.beyond_eq_false {p : Place} (h : p.expr.InRange) : p.beyond = false := by
  obtain ⟨e, s, k⟩ := p
  cases e with
  | element => rfl
  | literal t n ht =>
    have hn : -2147483648 ≤ n ∧ n ≤ 2147483647 := h
    simp [Place.beyond, hn]
  | node l o r => rfl

theorem Place.kind_code (p : Place) : p.code.kind = .typing := by
  obtain ⟨e, s, k⟩ := p
  cases e with
  | node l o r =>
    simp only [code]
    cases o.result <;> rfl
  | _ => rfl

theorem Operator.code_clash {o : Operator} {s : ExprSort} (h : o.result ≠ s) (k : Nat)
    (f : Fragment) : (o.clash k f s).code =
      match o.result with
      | .condition => .booleanOperator
      | .number => .arithmeticOperator := by
  -- an operator gives one of two sorts, and here the other one is due
  cases hr : o.result with
  | number =>
    cases s with
    | number => exact absurd hr h
    | condition => rfl
  | condition =>
    cases s with
    | number => rfl
    | condition => exact absurd hr h

theorem Operator.marked_clash (o : Operator) (k : Nat) (f : Fragment) (s : ExprSort) :
    (o.clash k f s).marked = ⟨[o.symbol], k⟩ := by
  cases s <;> rfl

theorem Place.mismatch_of_mismatched {p : Place} (h : p.expr.InRange) (hm : p.mismatched) :
    p.mismatch.code = p.code ∧ p.mismatch.marked.span = p.mark := by
  obtain ⟨e, s, k⟩ := p
  cases e with
  | element => exact ⟨rfl, Fragment.span_eq_ofBounds _⟩
  | literal t n ht =>
    rw [mismatch, h.beyond_eq_false]
    exact ⟨rfl, Fragment.span_eq_ofBounds _⟩
  | node l o r =>
    have hs : o.result ≠ s := by simpa [mismatched, RawExpr.sort] using hm
    have hz : byteLength [o.symbol] = 1 := by rw [byteLength_cons, o.utf8Size_symbol, byteLength_nil]
    refine ⟨Operator.code_clash hs _ _, ?_⟩
    rw [mismatch, o.marked_clash, Fragment.span_eq_ofBounds, hz, mark]

theorem findSome?_fault? {ps : List Place} (h : ∀ p ∈ ps, p.expr.InRange) :
    ps.findSome? Place.fault? = (ps.find? Place.mismatched).map Place.mismatch := by
  induction ps with
  | nil => rfl
  | cons p ps ih =>
    rw [List.forall_mem_cons] at h
    rw [List.findSome?_cons, List.find?_cons, Place.fault?, h.1.beyond_eq_false, ih h.2]
    cases p.mismatched <;> rfl

end MapFilter
