import MapFilter.Reading.Fault
import MapFilter.Reading.Lexeme

/-!
# Reading expressions

A term is the shape of an expression's text before its sorts are looked at: a text without outer
parentheses is an atom, and a parenthesized text is cut after its first operand, whose end is found
without reading it. The character there is the operator and all the rest is the second operand.

A term is read as a number or as a truth value. The operator of a node is looked at before its
operands, and the left operand before the right one, so the fault that is found is the first one on
the way from the outside in and from left to right.

* `Term`, `Term.ofFragment`; `Term.ofFragment_eq`: its equation;
* `firstOperand`, `operands`: the cut of a content, or the fault that prevents it, with
  `append_of_…` lemmas: the parts make up the content;
* `Term.number`, `Term.boolean`, with the condition on which a node is read;
* `readNumber`, `readBoolean`: the same on fragments.
-/

namespace MapFilter

/-! ## Terms -/

/-- The shape of an expression's text. -/
inductive Term where
  /-- A text without parentheses around it. -/
  | atom (text : Fragment)
  /-- Two operands with a character between them, which stands at `offset`. -/
  | node (text : Fragment) (left : Term) (op : Char) (offset : Nat) (right : Term)
  /-- A parenthesized text that cannot be cut into two operands. -/
  | broken (fault : ExprFault)

/-- Cuts the content of a pair of parentheses after its first operand, which is a group, a signed
run of digits or the word for the element. -/
def firstOperand (content : Fragment) : Except ExprFault (List Char × List Char) :=
  match content.text with
  | [] => .error (.emptyParentheses content)
  | c :: s =>
    if c = '(' then
      match group? (c :: s) with
      | some p => .ok p
      | none => .error (.unclosedGroup content)
    else if c = '-' ∨ c.isDigit then
      match signedDigits? (c :: s) with
      | some p => .ok p
      | none => .error (.loneMinus content)
    else
      match word? elementWord (c :: s) with
      | some p => .ok p
      | none => .error (.noOperand content)

theorem append_of_firstOperand {f : Fragment} {p : List Char × List Char}
    (h : firstOperand f = .ok p) : p.1 ++ p.2 = f.text := by
  unfold firstOperand at h
  split at h
  · cases h
  · rename_i c s hs
    rw [hs]
    split at h
    · split at h
      · cases h; exact append_of_group? ‹_›
      · cases h
    · split at h
      · split at h
        · cases h; exact append_of_signedDigits? ‹_›
        · cases h
      · split at h
        · cases h; exact append_of_word? ‹_›
        · cases h

/-- The cut of a parenthesized content into an operand, an operator and an operand. -/
def operands (content : Fragment) : Except ExprFault (List Char × Char × List Char) :=
  match firstOperand content with
  | .error e => .error e
  | .ok (_, []) => .error (.noOperator content)
  | .ok (a, c :: b) => .ok (a, c, b)

theorem append_of_operands {f : Fragment} {a b : List Char} {c : Char}
    (h : operands f = .ok (a, c, b)) : a ++ c :: b = f.text := by
  unfold operands at h
  split at h
  · cases h
  · cases h
  · rename_i ho
    cases h
    exact append_of_firstOperand ho

/-- The shape of a text. -/
def Term.ofFragment (f : Fragment) : Term :=
  match _ : inner? f.text with
  | none => atom f
  | some t =>
    match _ : operands ⟨t, f.offset + 1⟩ with
    | .error e => broken e
    | .ok (a, c, b) =>
      let k := f.offset + 1 + byteLength a
      node f (ofFragment ⟨a, f.offset + 1⟩) c k (ofFragment ⟨b, k + c.utf8Size⟩)
-- the operands and the operator make up the content, which lacks the two parentheses
termination_by f.text.length
decreasing_by
  all_goals
    have h := congrArg List.length (eq_of_inner? ‹inner? f.text = _›)
    have h' := congrArg List.length (append_of_operands ‹operands _ = _›)
    simp only [List.length_cons, List.length_append, List.length_nil] at h h'
    omega

theorem eq_of_operands {f : Fragment} {t a b : List Char} {c : Char} {k : Nat}
    (hi : inner? f.text = some t) (ho : operands ⟨t, k⟩ = .ok (a, c, b)) :
    f.text = '(' :: (a ++ c :: (b ++ [')'])) := by
  have h := append_of_operands ho
  rw [eq_of_inner? hi]
  simp only at h
  rw [← h]
  simp

theorem Term.ofFragment_eq (f : Fragment) : Term.ofFragment f =
    match inner? f.text with
    | none => .atom f
    | some t =>
      match operands ⟨t, f.offset + 1⟩ with
      | .error e => .broken e
      | .ok (a, c, b) =>
        .node f (ofFragment ⟨a, f.offset + 1⟩) c (f.offset + 1 + byteLength a)
          (ofFragment ⟨b, f.offset + 1 + byteLength a + c.utf8Size⟩) := by
  rw [Term.ofFragment]
  split <;> simp only [*]
  split <;> simp only [*]

theorem Term.ofFragment_atom {t : List Char} (h : ∀ s, t ≠ '(' :: s) (k : Nat) :
    Term.ofFragment ⟨t, k⟩ = .atom ⟨t, k⟩ := by
  rw [Term.ofFragment_eq, inner?_eq_none h]

/-- A parenthesized text is cut where its first operand ends. -/
theorem Term.ofFragment_node {s t : List Char} {c : Char} {k : Nat}
    (h : firstOperand ⟨s ++ c :: t, k + 1⟩ = .ok (s, c :: t)) :
    Term.ofFragment ⟨'(' :: (s ++ c :: (t ++ [')'])), k⟩ =
      .node ⟨'(' :: (s ++ c :: (t ++ [')'])), k⟩ (Term.ofFragment ⟨s, k + 1⟩) c
        (k + 1 + byteLength s) (Term.ofFragment ⟨t, k + 1 + byteLength s + c.utf8Size⟩) := by
  have hi : inner? ('(' :: (s ++ c :: (t ++ [')']))) = some (s ++ c :: t) := by
    simpa using inner?_group (s ++ c :: t)
  have ho : operands ⟨s ++ c :: t, k + 1⟩ = .ok (s, c, t) := by rw [operands, h]
  rw [Term.ofFragment_eq]
  simp only [hi, ho]

/-! ## Sorts -/

namespace Term

/-- Reads a text without parentheses around it as a number. -/
def atomNumber (f : Fragment) : Except ExprFault NumExpr :=
  if f.text = elementWord then .ok .element
  else
    match literal? f.text with
    | none => .error (.notNumber f)
    | some n =>
      match ofInt32? n with
      | some v => .ok (.const v)
      | none => .error (.outOfRange f)

/-- Reads a term as a number. -/
def number : Term → Except ExprFault NumExpr
  | atom f => atomNumber f
  | broken e => .error e
  | node f l c k r =>
    match ArithOp.ofSymbol? c with
    | some o =>
      match l.number with
      | .error e => .error e
      | .ok a =>
        match r.number with
        | .error e => .error e
        | .ok b => .ok (.arith a o b)
    | none =>
      if (RelOp.ofSymbol? c).isSome ∨ (BoolOp.ofSymbol? c).isSome then
        .error (.truthOperator c k f)
      else .error (.unknownOperator c k)

/-- Reads a term as a truth value. -/
def boolean : Term → Except ExprFault BoolExpr
  | atom f =>
    match atomNumber f with
    | .ok _ => .error (.numberAsPredicate f)
    | .error _ => .error (.notBoolean f)
  | broken e => .error e
  | node f l c k r =>
    match RelOp.ofSymbol? c, BoolOp.ofSymbol? c with
    | some o, _ =>
      match l.number with
      | .error e => .error e
      | .ok a =>
        match r.number with
        | .error e => .error e
        | .ok b => .ok (.rel a o b)
    | none, some o =>
      match l.boolean with
      | .error e => .error e
      | .ok a =>
        match r.boolean with
        | .error e => .error e
        | .ok b => .ok (.binary a o b)
    | none, none =>
      if (ArithOp.ofSymbol? c).isSome then .error (.numberOperator c k f)
      else .error (.unknownOperator c k)

variable {f : Fragment} {l r : Term} {c : Char} {k : Nat}

theorem number_node_eq_ok_iff {e : NumExpr} : (node f l c k r).number = .ok e ↔
    ∃ o a b, c = ArithOp.symbol o ∧ l.number = .ok a ∧ r.number = .ok b ∧ e = .arith a o b := by
  constructor
  · intro h
    rw [number] at h
    split at h
    · rename_i o ho
      split at h
      · cases h
      · rename_i a ha
        split at h
        · cases h
        · rename_i b hb
          cases h
          exact ⟨o, a, b, ArithOp.ofSymbol?_eq_some_iff.1 ho, ha, hb, rfl⟩
    · split at h <;> cases h
  · rintro ⟨o, a, b, rfl, ha, hb, rfl⟩
    simp only [number, ArithOp.ofSymbol?_eq_some_iff.2 rfl, ha, hb]

theorem boolean_node_eq_ok_iff {p : BoolExpr} : (node f l c k r).boolean = .ok p ↔
    (∃ o a b, c = RelOp.symbol o ∧ l.number = .ok a ∧ r.number = .ok b ∧ p = .rel a o b) ∨
      ∃ o a b, c = BoolOp.symbol o ∧ l.boolean = .ok a ∧ r.boolean = .ok b ∧
        p = .binary a o b := by
  constructor
  · intro h
    rw [boolean] at h
    split at h
    · rename_i o ho
      split at h
      · cases h
      · rename_i a ha
        split at h
        · cases h
        · rename_i b hb
          cases h
          exact .inl ⟨o, a, b, RelOp.ofSymbol?_eq_some_iff.1 ho, ha, hb, rfl⟩
    · rename_i o hr ho
      split at h
      · cases h
      · rename_i a ha
        split at h
        · cases h
        · rename_i b hb
          cases h
          exact .inr ⟨o, a, b, BoolOp.ofSymbol?_eq_some_iff.1 ho, ha, hb, rfl⟩
    · split at h <;> cases h
  · rintro (⟨o, a, b, rfl, ha, hb, rfl⟩ | ⟨o, a, b, rfl, ha, hb, rfl⟩)
    · simp only [boolean, RelOp.ofSymbol?_eq_some_iff.2 rfl, ha, hb]
    · have hr : RelOp.ofSymbol? o.symbol = none := by cases o <;> rfl
      simp only [boolean, hr, BoolOp.ofSymbol?_eq_some_iff.2 rfl, ha, hb]

end Term

/-- Reads a fragment as a number expression. -/
def readNumber (f : Fragment) : Except ExprFault NumExpr := (Term.ofFragment f).number

/-- Reads a fragment as a boolean expression. -/
def readBoolean (f : Fragment) : Except ExprFault BoolExpr := (Term.ofFragment f).boolean

end MapFilter
