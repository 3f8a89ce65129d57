import MapFilter.Proofs.Offsets.Reader
import MapFilter.Proofs.Reading.SingleCalls

/-!
# No mishap in reading

The reader that cuts at byte offsets comes to the same end as the one that splits lists. Each of its
functions is compared with its counterpart, from the lexemes up: the counterpart says which
characters a cut separates, and the offset is the number of their bytes.

* `Fragment.lex_eq`, `groupAt_eq`, `literalAt_eq`: lexemes;
* `firstOperandEnd_eq`, `nodeAt_eq`: the parts of a node;
* `numberAt_eq`, `conditionAt_eq`: expressions, by induction on their terms, with `operands_eq` for
  the two operands that are read one after the other;
* `callAt_eq`, `callsAt_eq`, `chainAt_eq`, `singleCallAt_eq`: calls and chains, turn by turn;
* `firstOperandEnd_inside`, `kind_of_not_isParenthesized`: why some cases cannot arise;
* **`reads_without_mishap`**: all of this.
-/

namespace MapFilter

open Guarded

variable {f : Fragment}

/-! ## Lexemes -/

theorem exists_inner?_of_isParenthesized (h : f.isParenthesized = true) :
    ∃ t, inner? f.text = some t := by
  rw [Fragment.isParenthesized, Bool.and_eq_true, Bool.and_eq_true, beq_iff_eq, beq_iff_eq] at h
  obtain ⟨⟨-, ho⟩, hc⟩ := h
  obtain ⟨s, hs⟩ := List.head?_eq_some_iff.1 ho
  rw [hs] at hc ⊢
  cases s with
  | nil => cases hc
  | cons d s =>
    rw [List.getLast?_cons_cons] at hc
    exact ⟨_, if_pos hc⟩

theorem isParenthesized_of_inner? {t : List Char} (h : inner? f.text = some t) :
    f.isParenthesized = true := by
  have hz : '('.utf8Size = 1 ∧ ')'.utf8Size = 1 := ⟨rfl, rfl⟩
  have ht := eq_of_inner? h
  have hs : 2 ≤ f.size := by
    rw [Fragment.size, ht]
    simp only [byteLength_cons, byteLength_append, byteLength_nil, hz]
    omega
  have hl : f.text.getLast? = some ')' := by
    rw [ht, ← List.cons_append, List.getLast?_concat]
  rw [Fragment.isParenthesized, hl, ht]
  simp [hs]

theorem isParenthesized_eq (f : Fragment) : f.isParenthesized = (inner? f.text).isSome := by
  cases h : inner? f.text with
  | some t => exact isParenthesized_of_inner? h
  | none =>
    refine Bool.eq_false_iff.2 fun hp => ?_
    obtain ⟨t, ht⟩ := exists_inner?_of_isParenthesized hp
    rw [h] at ht
    cases ht

namespace Fragment

variable {p : List Char → Except Mishap (Option (List Char × List Char))}
  {o : Option (List Char × List Char)}

theorem lex_eq (hp : p f.text = .ok o) (ho : ∀ q ∈ o, q.1 ++ q.2 = f.text) :
    f.lex p = .ok (o.map fun q => (q.1, f.after q.1 q.2)) := by
  rw [lex, hp, ok_bind]
  cases o with
  | none => rfl
  | some q =>
    obtain ⟨a, r⟩ := q
    have ht : a ++ r = f.text := ho _ rfl
    have hz : f.size = byteLength a + byteLength r := by rw [size, ← ht, byteLength_append]
    have hc := f.cut_eq (p := a) (s := r) (q := []) (by rw [List.append_nil, ht])
    dsimp only
    rw [minus_eq (k := byteLength a) (by omega), ok_bind, hz, hc]
    rfl

theorem behind_eq (hp : p f.text = .ok o) (ho : ∀ q ∈ o, q.1 ++ q.2 = f.text) (e : ExprFault) :
    f.behind e p = o.elim (fault e) fun q => .ok (f.after q.1 q.2) := by
  rw [behind, lex_eq hp ho, lift_ok_bind]
  cases o <;> rfl

end Fragment

theorem groupAt_eq (s : List Char) : groupAt s = .ok (group? s) := by
  cases s with
  | nil => rfl
  | cons c s =>
    by_cases hc : c = '('
    · subst hc
      rw [groupAt, if_neg (by simp), groupEnd_eq_group?]
      cases hg : group? ('(' :: s) with
      | none => rfl
      | some p =>
        simp only [Option.map_some, ok_bind]
        rw [Fragment.divide_eq (s := p.1) (r := p.2) (append_of_group? hg).symm]
        rfl
    · have hg : group? (c :: s) = none :=
        group?.eq_2 _ fun r hr => hc (List.cons.inj hr).1
      rw [groupAt, if_pos (by simpa using hc), hg]
      rfl

theorem literalAt_eq (f : Fragment) : literalAt f =
    match literal? f.text with
    | none => .ok none
    | some n =>
      match ofInt32? n with
      | some v => .ok (some v)
      | none => fault (.outOfRange f) := by
  have hl := Fragment.lex_eq (f := f) (p := fun s => .ok (signedDigits? s)) rfl
    fun q hq => append_of_signedDigits? hq
  rw [literalAt, hl, lift_ok_bind, literal?]
  cases signedDigits? f.text with
  | none => rfl
  | some q =>
    obtain ⟨ds, r⟩ := q
    cases r with
    | nil => cases ofInt32? (literalValue ds) <;> rfl
    | cons c r => rfl

/-! ## Nodes -/

theorem behindOperand_eq (f : Fragment) : behindOperand f =
    match firstOperand f with
    | .ok p => .ok (f.after p.1 p.2)
    | .error e => fault e := by
  unfold behindOperand firstOperand
  cases hs : f.text with
  | nil => rfl
  | cons c s =>
    dsimp only
    by_cases ho : c = '('
    · rw [if_pos ho, if_pos ho, Fragment.behind_eq (groupAt_eq f.text) fun q => append_of_group?,
        hs]
      cases group? (c :: s) <;> rfl
    · rw [if_neg ho, if_neg ho]
      by_cases hd : c = '-' ∨ c.isDigit
      · rw [if_pos hd, if_pos hd, Fragment.behind_eq rfl fun q => append_of_signedDigits?, hs]
        cases signedDigits? (c :: s) <;> rfl
      · rw [if_neg hd, if_neg hd, Fragment.behind_eq rfl fun q => append_of_word?, hs]
        cases word? elementWord (c :: s) <;> rfl

theorem firstOperandEnd_eq (f : Fragment) : firstOperandEnd f =
    match operands f with
    | .ok (a, _) => .ok (byteLength a)
    | .error e => fault e := by
  rw [firstOperandEnd, behindOperand_eq, operands]
  cases hf : firstOperand f with
  | error e => rfl
  | ok p =>
    obtain ⟨a, r⟩ := p
    have ht : a ++ r = f.text := append_of_firstOperand hf
    cases r with
    | nil => rfl
    | cons c b =>
      have hz : f.size = byteLength (c :: b) + byteLength a := by
        rw [Fragment.size, ← ht, byteLength_append, Nat.add_comm]
      dsimp only
      rw [ok_bind, if_neg (show (f.after a (c :: b)).text ≠ [] from List.cons_ne_nil c b)]
      exact congrArg liftM (minus_eq hz)

theorem nodeAt_eq {t : List Char} (h : inner? f.text = some t) : nodeAt f =
    match operands ⟨t, f.offset + 1⟩ with
    | .ok (a, c, b) =>
      let k := f.offset + 1 + byteLength a
      .ok ⟨⟨a, f.offset + 1⟩, c, ⟨[c], k⟩, ⟨b, k + c.utf8Size⟩⟩
    | .error e => fault e := by
  have ht := eq_of_inner? h
  have hz : f.size = 1 + (byteLength t + 1) := by
    have hp : '('.utf8Size = 1 ∧ ')'.utf8Size = 1 := ⟨rfl, rfl⟩
    simp only [Fragment.size, ht, byteLength_cons, byteLength_append, byteLength_nil, hp]
  have hc : f.cut 1 (1 + byteLength t) = .ok ⟨t, f.offset + 1⟩ :=
    f.cut_eq (p := ['(']) (s := t) (q := [')']) ht
  rw [nodeAt, minus_eq (k := 1 + byteLength t) (by omega), lift_ok_bind, hc, lift_ok_bind,
    firstOperandEnd_eq]
  cases ho : operands ⟨t, f.offset + 1⟩ with
  | error e => rfl
  | ok p =>
    obtain ⟨a, c, b⟩ := p
    have hs : a ++ c :: b = t := append_of_operands ho
    dsimp only
    rw [ok_bind, Fragment.divide_eq hs.symm, lift_ok_bind]
    have hd : Fragment.divide ⟨c :: b, f.offset + 1 + byteLength a⟩ c.utf8Size =
        .ok (⟨[c], f.offset + 1 + byteLength a⟩, ⟨b, f.offset + 1 + byteLength a + c.utf8Size⟩) :=
      Fragment.divide_eq (s := [c]) rfl
    dsimp only [Fragment.after]
    rw [hd]
    rfl

/-! ## Expressions -/

/-- Both operands of a node are shorter than the node. -/
theorem size_operands {t a b : List Char} {c : Char} (h : inner? f.text = some t) {k : Nat}
    (ho : operands ⟨t, k⟩ = .ok (a, c, b)) (m n : Nat) :
    Fragment.size ⟨a, m⟩ < f.size ∧ Fragment.size ⟨b, n⟩ < f.size := by
  have hz : f.size =
      '('.utf8Size + (byteLength a + (c.utf8Size + (byteLength b + ')'.utf8Size))) := by
    rw [Fragment.size, eq_of_operands h ho]
    simp only [byteLength_cons, byteLength_append, byteLength_nil, Nat.add_zero]
  have hp := '('.utf8Size_pos
  simp only [Fragment.size] at hz ⊢
  omega

namespace Term

variable {l r : Term} {c : Char} {k : Nat}

theorem number_of_arith {o : ArithOp} (ho : ArithOp.ofSymbol? c = some o) :
    (node f l c k r).number = l.number >>= fun a => r.number >>= fun b => .ok (.arith a o b) := by
  rw [number, ho]
  cases l.number with
  | error e => rfl
  | ok a => cases r.number <;> rfl

theorem boolean_of_rel {o : RelOp} (ho : RelOp.ofSymbol? c = some o) :
    (node f l c k r).boolean = l.number >>= fun a => r.number >>= fun b => .ok (.rel a o b) := by
  rw [boolean, ho]
  cases l.number with
  | error e => rfl
  | ok a => cases r.number <;> rfl

theorem boolean_of_bool {o : BoolOp} (hr : RelOp.ofSymbol? c = none)
    (ho : BoolOp.ofSymbol? c = some o) : (node f l c k r).boolean =
      l.boolean >>= fun p => r.boolean >>= fun q => .ok (.binary p o q) := by
  rw [boolean, hr, ho]
  cases l.boolean with
  | error e => rfl
  | ok a => cases r.boolean <;> rfl

end Term

/-- Two shorter fragments are read one after the other. -/
theorem operands_eq {α β γ : Type} (g : Fragment → Guarded ExprFault α)
    (h : Fragment → Guarded ExprFault β) (k : α → β → γ) {l r : Fragment}
    {x : Except ExprFault α} {y : Except ExprFault β} (hl : l.size < f.size) (hx : g l = safe x)
    (hr : r.size < f.size) (hy : h r = safe y) :
    (do
      let left ← f.shorter l
      let a ← g left.1
      let right ← f.shorter r
      let b ← h right.1
      return k a b) = safe (x >>= fun a => y >>= fun b => .ok (k a b)) := by
  rw [Fragment.shorter_eq hl, lift_ok_bind, hx, safe_bind]
  refine bind_congr fun a => ?_
  rw [Fragment.shorter_eq hr, lift_ok_bind, hy, safe_bind]
  rfl

/-- A parenthesized fragment is no word and no literal. -/
theorem literalAt_of_inner? {t : List Char} (h : inner? f.text = some t) :
    f.text ≠ elementWord ∧ literalAt f = .ok none := by
  rw [literalAt_eq, eq_of_inner? h]
  exact ⟨by rintro ⟨⟩, rfl⟩

theorem numberAt_eq (f : Fragment) : numberAt f = safe (readNumber f) := by
  unfold readNumber
  fun_induction Term.ofFragment f with
  | case1 f hi =>
    rw [numberAt, Term.number, Term.atomNumber, literalAt_eq, isParenthesized_eq, hi]
    by_cases he : f.text = elementWord
    · rw [if_pos he, if_pos he]
      rfl
    · rw [if_neg he, if_neg he]
      cases literal? f.text with
      | none => rfl
      | some n =>
        dsimp only
        cases ofInt32? n <;> rfl
  | case2 f t hi e ho =>
    obtain ⟨hne, hl⟩ := literalAt_of_inner? hi
    rw [numberAt, if_neg hne, hl, ok_bind, isParenthesized_of_inner? hi, nodeAt_eq hi, ho]
    rfl
  | case3 f t hi a c b ho k iha =>
    -- the hypothesis for the second operand comes without a name
    rename_i ihb
    obtain ⟨hne, hl⟩ := literalAt_of_inner? hi
    obtain ⟨ha, hb⟩ := size_operands hi ho (f.offset + 1) (k + c.utf8Size)
    rw [numberAt, if_neg hne, hl, ok_bind, isParenthesized_of_inner? hi, nodeAt_eq hi, ho]
    dsimp only
    rw [if_pos rfl, ok_bind]
    cases hc : ArithOp.ofSymbol? c with
    | none =>
      rw [Term.number, hc]
      dsimp only
      split <;> rfl
    | some o =>
      rw [Term.number_of_arith hc]
      dsimp only
      exact operands_eq numberAt numberAt (NumExpr.arith · o ·) ha iha hb ihb

theorem numberAt_atom (h : inner? f.text = none) : numberAt f = safe (Term.atomNumber f) := by
  rw [numberAt_eq, readNumber, Term.ofFragment_eq, h, Term.number]

theorem kind_of_atomNumber {e : ExprFault} (h : Term.atomNumber f = .error e) :
    e.code.kind = .syntactic := by
  unfold Term.atomNumber at h
  split at h
  · cases h
  · split at h
    · cases h
      rfl
    · split at h <;> cases h
      rfl

theorem conditionAt_eq (f : Fragment) : conditionAt f = safe (readBoolean f) := by
  unfold readBoolean
  fun_induction Term.ofFragment f with
  | case1 f hi =>
    rw [conditionAt, isParenthesized_eq, hi, numberAt_atom hi, Term.boolean]
    cases ha : Term.atomNumber f with
    | ok a => rfl
    -- every fault of an atom is one of syntax, so the other case does not arise
    | error e => exact if_pos (kind_of_atomNumber ha)
  | case2 f t hi e ho =>
    rw [conditionAt, isParenthesized_of_inner? hi, nodeAt_eq hi, ho]
    rfl
  | case3 f t hi a c b ho k iha =>
    rename_i ihb
    obtain ⟨ha, hb⟩ := size_operands hi ho (f.offset + 1) (k + c.utf8Size)
    rw [conditionAt, isParenthesized_of_inner? hi, nodeAt_eq hi, ho]
    dsimp only
    rw [if_pos rfl, ok_bind]
    dsimp only
    cases hr : RelOp.ofSymbol? c with
    | some o =>
      rw [Term.boolean_of_rel hr]
      exact operands_eq numberAt numberAt (BoolExpr.rel · o ·) ha (numberAt_eq _) hb (numberAt_eq _)
    | none =>
      cases hc : BoolOp.ofSymbol? c with
      | some o =>
        rw [Term.boolean_of_bool hr hc]
        exact operands_eq conditionAt conditionAt (BoolExpr.binary · o ·) ha iha hb ihb
      | none =>
        rw [Term.boolean, hr, hc]
        dsimp only
        split <;> rfl

/-! ## Calls and chains -/

theorem bodyAt_eq (kind : Call.Kind) (f : Fragment) : bodyAt kind f = safe (readBody kind f) := by
  cases kind with
  | map =>
    rw [bodyAt, numberAt_eq, map_safe]
    rfl
  | filter =>
    rw [bodyAt, conditionAt_eq, map_safe]
    rfl

/-- A call is cut at its first opening brace and its last character. -/
theorem callAt_braces {v : List Char} (hv : '{' ∉ v) (b : List Char) (k : Nat) :
    callAt ⟨v ++ '{' :: (b ++ ['}']), k⟩ =
      match Call.Kind.ofWord? v with
      | none => fault (.unknownKeyword ⟨v, k⟩)
      | some kind => (bodyAt kind ⟨b, k + byteLength v + 1⟩).mapError
          (Sum.map id (.inBody ⟨v ++ '{' :: (b ++ ['}']), k⟩ kind)) := by
  have hk : byteLength (v ++ ['{']) = byteLength v + 1 := byteLength_append v ['{']
  have hz : Fragment.size ⟨v ++ '{' :: (b ++ ['}']), k⟩ =
      1 + (byteLength v + 1 + byteLength b) := by
    have hp : '{'.utf8Size = 1 ∧ '}'.utf8Size = 1 := ⟨rfl, rfl⟩
    simp only [Fragment.size, byteLength_append, byteLength_cons, byteLength_nil, hp]
    omega
  have hw := Fragment.cut_eq (f := ⟨v ++ '{' :: (b ++ ['}']), k⟩) (p := []) rfl
  have hb := Fragment.cut_eq (f := ⟨v ++ '{' :: (b ++ ['}']), k⟩) (p := v ++ ['{']) (s := b)
    (q := ['}']) (by simp)
  rw [byteLength_nil, Nat.zero_add] at hw
  rw [hk] at hb
  rw [callAt, offsetOf?_eq hv]
  dsimp only
  rw [hw, lift_ok_bind, minus_eq hz, lift_ok_bind, hb, lift_ok_bind]
  rfl

theorem callAt_eq (w : List Char) (k : Nat) :
    callAt ⟨w ++ ['}'], k⟩ = safe (readCall ⟨w ++ ['}'], k⟩) := by
  by_cases ho : '{' ∈ w
  · obtain ⟨v, b, rfl, hv⟩ := List.eq_append_cons_of_mem ho
    rw [List.append_assoc, List.cons_append, callAt_braces hv, readCall_append_brace hv,
      List.dropLast_concat]
    cases Call.Kind.ofWord? v with
    | none => rfl
    | some kind =>
      dsimp only
      rw [bodyAt_eq]
      cases readBody kind ⟨b, k + byteLength v + 1⟩ <;> rfl
  · have hw : '{' ∉ w ++ ['}'] := by simp [ho]
    rw [callAt, offsetOf?_eq_none_iff.2 hw, readCall_of_not_mem hw]
    rfl

/-- What remains of a text behind a call and a separator is shorter than the text. -/
theorem size_after_lt {t rest s next : List Char} (hu : upTo? '}' f.text = some (t, rest))
    (hs : word? Chain.separator rest = some (s, next)) :
    ((f.after t rest).after s next).size < f.size := by
  have hf : t ++ rest = f.text := append_of_upTo? hu
  have hr : s ++ next = rest := append_of_word? hs
  have ht : 0 < byteLength t := byteLength_pos (ne_nil_of_upTo? hu)
  have hz : f.size = byteLength t + (byteLength s + byteLength next) := by
    rw [Fragment.size, ← hf, ← hr, byteLength_append, byteLength_append]
  rw [hz]
  simp only [Fragment.size, Fragment.after]
  omega

/-- A turn cuts the fragment behind its first closing brace. -/
theorem divide_call {t rest : List Char} (hu : upTo? '}' f.text = some (t, rest)) :
    ∃ w, t = w ++ ['}'] ∧ offsetOf? '}' f.text = some (byteLength w) ∧
      f.divide (byteLength w + 1) = .ok (⟨t, f.offset⟩, f.after t rest) := by
  obtain ⟨w, hw, ht⟩ := exists_of_upTo? hu
  obtain rfl : t = w ++ ['}'] := ht
  have hf : w ++ ['}'] ++ rest = f.text := append_of_upTo? hu
  refine ⟨w, rfl, ?_, ?_⟩
  · rw [← hf, List.append_assoc]
    exact offsetOf?_eq hw rest
  · rw [← Fragment.divide_eq hf.symm, byteLength_append]
    rfl

/-- What a turn does behind its first call. -/
def callsBehind (f : Fragment) (t rest : List Char) (c : Call) : Guarded Fault Chain :=
  if rest = [] then .ok [c]
  else
    match word? Chain.separator rest with
    | none => fault (.strayText (f.after t rest) ⟨t, f.offset⟩)
    | some (_, []) => fault (.danglingSeparator (f.after t rest))
    | some (s, d :: u) => (callsAt ((f.after t rest).after s (d :: u))).map (c :: ·)

theorem callsAt_turn {t rest : List Char} (hu : upTo? '}' f.text = some (t, rest)) :
    callsAt f = safe (readCall ⟨t, f.offset⟩) >>= callsBehind f t rest := by
  obtain ⟨w, rfl, ho, hd⟩ := divide_call hu
  have hl : ((f.after (w ++ ['}']) rest).lex fun s => .ok (word? Chain.separator s)) =
      .ok ((word? Chain.separator rest).map fun q =>
        (q.1, (f.after (w ++ ['}']) rest).after q.1 q.2)) :=
    Fragment.lex_eq rfl fun q => append_of_word?
  rw [callsAt, ho]
  dsimp only
  rw [hd, lift_ok_bind]
  dsimp only
  rw [callAt_eq]
  refine bind_congr fun c => ?_
  rw [callsBehind]
  -- the branches test the text of a fragment, which is `rest` only when it is unfolded
  by_cases hr : rest = []
  · exact (if_pos hr).trans (if_pos hr).symm
  refine (if_neg hr).trans (Eq.trans ?_ (if_neg hr).symm)
  rw [hl, lift_ok_bind]
  cases hs : word? Chain.separator rest with
  | none => rfl
  | some q =>
    obtain ⟨s, u⟩ := q
    cases u with
    | nil => rfl
    | cons d u =>
      have hlt := size_after_lt hu hs
      dsimp only [Option.map]
      refine (if_neg (List.cons_ne_nil d u)).trans ?_
      rw [Fragment.shorter_eq hlt, lift_ok_bind]
      cases callsAt ((f.after (w ++ ['}']) rest).after s (d :: u)) <;> rfl

theorem result_cons (c : Call) (r : Reading) : (r.cons c).result = r.result.map (c :: ·) := by
  unfold Reading.result Reading.cons
  cases r.fault? <;> rfl

theorem callsAt_eq (f : Fragment) : callsAt f = safe (readCalls f).result := by
  fun_induction readCalls f with
  | case1 f hu =>
    rw [callsAt, offsetOf?_eq_none_iff.2 (upTo?_eq_none_iff.1 hu)]
    rfl
  | case2 f t rest hu call e hc =>
    rw [callsAt_turn hu, hc]
    rfl
  | case3 f t call c hc hu =>
    rw [callsAt_turn hu, hc]
    rfl
  | case4 f t rest hu call remainder c hc hr hs =>
    rw [callsAt_turn hu, hc]
    refine (if_neg hr).trans ?_
    rw [hs]
    rfl
  | case5 f t rest hu call remainder c hc hr s hs =>
    rw [callsAt_turn hu, hc]
    refine (if_neg hr).trans ?_
    rw [hs]
    rfl
  | case6 f t rest hu call remainder c hc hr s d u hs ih =>
    rw [callsAt_turn hu, hc, result_cons]
    refine (if_neg hr).trans ?_
    rw [hs]
    dsimp only
    rw [ih, map_safe]

theorem chainAt_eq (t : List Char) : chainAt t = safe (readChain (.whole t)).result := by
  rw [chainAt, readChain]
  by_cases ht : t = []
  · rw [if_pos ht, if_pos (show (Fragment.whole t).text = [] from ht)]
    rfl
  · rw [if_neg ht, if_neg (show (Fragment.whole t).text ≠ [] from ht), callsAt_eq]

theorem singleCallAt_eq (t : List Char) :
    singleCallAt t = safe (readSingleCall (.whole t)) := by
  by_cases ht : t.getLast? = some '}'
  · obtain ⟨w, rfl⟩ := List.getLast?_eq_some_iff.1 ht
    rw [singleCallAt, if_pos ht, Fragment.whole, callAt_eq, readSingleCall_brace]
  · have hr : readSingleCall (.whole t) = .error (.unendedCall (.whole t)) := if_neg ht
    rw [singleCallAt, if_neg ht, hr]
    rfl

/-! ## Cases that cannot arise -/

theorem ne_nil_of_firstOperand {p : List Char × List Char} (h : firstOperand f = .ok p) :
    p.1 ≠ [] := by
  unfold firstOperand at h
  split at h
  · cases h
  · split at h
    · split at h <;> cases h
      exact ne_nil_of_group? ‹_›
    · split at h
      · split at h <;> cases h
        obtain ⟨c, s, hs, -⟩ := (intText_of_signedDigits? ‹_›).exists_cons
        exact hs ▸ List.cons_ne_nil c s
      · split at h <;> cases h
        rw [fst_of_word? ‹_›]
        exact List.cons_ne_nil _ _

theorem ne_nil_of_operands {a b : List Char} {c : Char} (h : operands f = .ok (a, c, b)) :
    a ≠ [] := by
  unfold operands at h
  split at h <;> cases h
  exact ne_nil_of_firstOperand ‹_›

/-- The first operand ends at a boundary within the content, away from its two ends. -/
theorem firstOperandEnd_inside {n : Nat} (h : firstOperandEnd f = .ok n) :
    IsBoundary f.text n ∧ 0 < n ∧ n < f.size := by
  rw [firstOperandEnd_eq] at h
  cases ho : operands f with
  | error e =>
    rw [ho] at h
    cases h
  | ok p =>
    obtain ⟨a, c, b⟩ := p
    rw [ho] at h
    cases h
    have ht : a ++ c :: b = f.text := append_of_operands ho
    have hz : f.size = byteLength a + byteLength (c :: b) := by
      rw [Fragment.size, ← ht, byteLength_append]
    have ha := byteLength_pos (ne_nil_of_operands ho)
    have hb := byteLength_pos (List.cons_ne_nil c b)
    exact ⟨⟨a, c :: b, ht.symm, rfl⟩, ha, by omega⟩

/-- A fragment without parentheses is no node, so that reading it as a number finds no operator. -/
theorem kind_of_not_isParenthesized {e : ExprFault} (hp : f.isParenthesized = false)
    (h : numberAt f = .error (.inr e)) : e.code.kind = .syntactic := by
  rw [isParenthesized_eq, Option.isSome_eq_false_iff, Option.isNone_iff_eq_none] at hp
  rw [numberAt_atom hp] at h
  cases ha : Term.atomNumber f with
  | ok a =>
    rw [ha] at h
    cases h
  | error e' =>
    rw [ha] at h
    cases h
    exact kind_of_atomNumber ha

/-- **No text leads the reader into a mishap.** From each of the four starts the reader that cuts at
offsets comes to the same end as the one that splits lists, and so it never makes a cut away from a
boundary, takes a difference below zero or goes on with a text that is no shorter. The first operand
ends within its content, and without parentheses no operator is of the wrong kind, so that the cases
that were ruled out do not arise. -/
theorem reads_without_mishap :
    (∀ t, chainAt t = safe (readChain (.whole t)).result) ∧
      (∀ t, singleCallAt t = safe (readSingleCall (.whole t))) ∧
      (∀ f, numberAt f = safe (readNumber f)) ∧
      (∀ f, conditionAt f = safe (readBoolean f)) ∧
      (∀ (f : Fragment) (a b : Nat), (∃ g, f.cut a b = .ok g) ↔
        a ≤ b ∧ IsBoundary f.text a ∧ IsBoundary f.text b) ∧
      (∀ f n, firstOperandEnd f = .ok n → IsBoundary f.text n ∧ 0 < n ∧ n < f.size) ∧
      ∀ f e, f.isParenthesized = false → numberAt f = .error (.inr e) →
        e.code.kind = .syntactic :=
  ⟨chainAt_eq, singleCallAt_eq, numberAt_eq, conditionAt_eq, fun _ _ _ => Fragment.exists_cut_iff,
    fun _ _ => firstOperandEnd_inside, fun _ _ => kind_of_not_isParenthesized⟩

/-- In `(1)ж2` the first operand ends at byte 3, before an operator of two bytes, and `ж` is read as
no number, which is a fault of syntax. -/
theorem reads_without_mishap_two_bytes :
    firstOperandEnd ⟨"(1)ж2".toList, 1⟩ = .ok 3 ∧ 0 < 3 ∧ 3 < Fragment.size ⟨"(1)ж2".toList, 1⟩ ∧
      Fragment.isParenthesized ⟨['ж'], 0⟩ = false ∧
      numberAt ⟨['ж'], 0⟩ = .error (.inr (.notNumber ⟨['ж'], 0⟩)) ∧
      (ExprFault.notNumber ⟨['ж'], 0⟩).code.kind = .syntactic := by
  obtain ⟨-, -, hnumber, -, -, hend, hkind⟩ := reads_without_mishap
  have he : firstOperandEnd ⟨"(1)ж2".toList, 1⟩ = .ok 3 := by rfl
  have hp : Fragment.isParenthesized ⟨['ж'], 0⟩ = false := by decide
  have hn : numberAt ⟨['ж'], 0⟩ = .error (.inr (.notNumber ⟨['ж'], 0⟩)) := by
    rw [hnumber, readNumber, Term.ofFragment_eq]
    rfl
  obtain ⟨-, hpos, hlt⟩ := hend _ _ he
  exact ⟨he, hpos, hlt, hp, hn, hkind _ _ hp hn⟩

end MapFilter
