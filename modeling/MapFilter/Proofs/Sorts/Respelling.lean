import MapFilter.Proofs.Grammar.Decimal
import MapFilter.Proofs.Sorts.Range

/-!
# Printing what was read

No text belongs to two raw expressions: the first operand of a node ends where the reader finds its
end, and a call ends at its first closing brace. So which characters of a text belong to a literal
does not hang on how it is derived.

A text that is read and printed comes back with every literal in canonical form and with every other
character in its place. Only characters of literals are left out, so the printed text is no longer,
and it is the same text when no literal has a needless character.

* `RawExpr.text_injective`, `RawCall.text_injective`, **`RawCall.chainText_injective`**;
* `Piece.canonical`, `respelled`: pieces with their literals in canonical form;
* `respelled_sublist`, `respelled_eq_spelled_iff`: what this does to a text;
* `NumText.exists_rawExpr`, `BoolText.exists_rawExpr`, `CallText.exists_rawCall`,
  `ChainText.exists_rawCalls`: the raw derivation of a text and the printed text of its tree;
* `Respelled`, **`render_read`**: printing after reading, for all four kinds of text.
-/

namespace MapFilter

/-! ## Texts have one raw derivation -/

theorem Operator.symbol_injective : Function.Injective symbol := by
  intro o p h
  rcases o with o | o | o <;> rcases p with p | p | p <;> cases o <;> cases p <;>
    simp [symbol, ArithOp.symbol, RelOp.symbol, BoolOp.symbol] at h ⊢

namespace RawExpr

theorem text_node_inj {l r l' r' : RawExpr} {o o' : Operator}
    (h : (node l o r).text = (node l' o' r').text) :
    l.text = l'.text ∧ o = o' ∧ r.text = r'.text := by
  have hp : (l.text ++ o.symbol :: r.text) ++ [')'] = (l'.text ++ o'.symbol :: r'.text) ++ [')'] := by
    simpa [text] using h
  have hc := List.append_cancel_right hp
  -- the end of the first operand is found in one place only
  have hl := l.firstOperand_append (o.not_digit r.text) 0
  rw [hc, l'.firstOperand_append (o'.not_digit r'.text) 0, Except.ok.injEq, Prod.mk.injEq] at hl
  obtain ⟨ho, hr⟩ := List.cons.inj hl.2
  exact ⟨hl.1.symm, (Operator.symbol_injective ho).symm, hr.symm⟩

theorem text_injective : Function.Injective text := by
  intro d e h
  induction d generalizing e with
  | element =>
    cases e with
    | element => rfl
    | literal t n ht => exact absurd h.symm ht.ne_elementWord
    | node l o r => cases h
  | literal t n ht =>
    cases e with
    | element => exact absurd h ht.ne_elementWord
    | literal u m hu =>
      have hn : n = m := by
        rw [← ht.literalValue_eq, ← hu.literalValue_eq]
        exact congrArg literalValue h
      subst hn
      cases h
      rfl
    | node l o r => exact absurd h (ht.ne_group _)
  | node l o r ihl ihr =>
    cases e with
    | element => cases h
    | literal t n ht => exact absurd h.symm (ht.ne_group _)
    | node l' o' r' =>
      obtain ⟨hl, rfl, hr⟩ := text_node_inj h
      rw [ihl hl, ihr hr]

end RawExpr

namespace RawCall

theorem text_injective : Function.Injective text := by
  intro ⟨kind, a⟩ ⟨kind', b⟩ h
  have hb : ∀ {w : List Char}, w ++ '{' :: (a.text ++ ['}']) = w ++ '{' :: (b.text ++ ['}']) →
      a = b := by
    intro w hw
    have hc := List.append_cancel_left hw
    exact RawExpr.text_injective (List.append_cancel_right (List.cons.inj hc).2)
  -- the two keywords differ in their first letter
  cases kind <;> cases kind'
  · rw [hb h]
  · exact absurd (List.cons.inj h).1 (by decide)
  · exact absurd (List.cons.inj h).1 (by decide)
  · rw [hb h]

/-- What comes after the first call of a chain. -/
def afterFirst (l : List RawCall) : List Char :=
  if l = [] then [] else Chain.separator ++ chainText l

theorem chainText_cons_eq (d : RawCall) (l : List RawCall) :
    chainText (d :: l) = d.text ++ afterFirst l := by
  by_cases hl : l = []
  · rw [hl, chainText_singleton, afterFirst, if_pos rfl, List.append_nil]
  · rw [chainText_cons d hl, afterFirst, if_neg hl]

/-- **A text is the text of at most one chain of raw calls.** -/
theorem chainText_injective : Function.Injective chainText := by
  intro l m h
  induction l generalizing m with
  | nil =>
    by_contra hm
    exact chainText_ne_nil (Ne.symm hm) h.symm
  | cons d l ih =>
    cases m with
    | nil => exact absurd h (chainText_ne_nil (List.cons_ne_nil d l))
    | cons e m =>
      have hu := d.upTo?_text (afterFirst l)
      rw [← chainText_cons_eq, h, chainText_cons_eq, e.upTo?_text, Option.some.injEq,
        Prod.mk.injEq] at hu
      rw [text_injective hu.1]
      have ha := hu.2
      unfold afterFirst at ha
      by_cases hl : l = [] <;> by_cases hm : m = []
      · rw [hl, hm]
      · rw [if_pos hl, if_neg hm] at ha
        cases ha
      · rw [if_neg hl, if_pos hm] at ha
        cases ha
      · rw [if_neg hl, if_neg hm] at ha
        rw [ih (List.append_cancel_left ha).symm]

end RawCall

/-! ## Respelling -/

/-- The piece with the decimal text of its value, if it is a literal. -/
def Piece.canonical : Piece → List Char
  | plain s => s
  | literal _ n _ => decimal n

/-- The text that the pieces make up when the literals are in canonical form. -/
def respelled (ps : List Piece) : List Char := ps.flatMap Piece.canonical

theorem respelled_cons (p : Piece) (ps : List Piece) :
    respelled (p :: ps) = p.canonical ++ respelled ps := rfl

theorem respelled_append (ps qs : List Piece) :
    respelled (ps ++ qs) = respelled ps ++ respelled qs := List.flatMap_append

theorem Piece.canonical_sublist (p : Piece) : p.canonical.Sublist p.text := by
  cases p with
  | plain s => exact List.Sublist.refl s
  | literal t n h =>
    rw [canonical, h.decimal_eq]
    exact h.trimmed_sublist

/-- Nothing is added to a text when its literals are respelled, and nothing moves. -/
theorem respelled_sublist (ps : List Piece) : (respelled ps).Sublist (spelled ps) := by
  induction ps with
  | nil => exact List.Sublist.refl []
  | cons p ps ih => exact p.canonical_sublist.append ih

theorem respelled_eq_spelled_iff {ps : List Piece} :
    respelled ps = spelled ps ↔ ∀ p ∈ ps, p.canonical = p.text := by
  induction ps with
  | nil => simp [respelled]
  | cons p ps ih =>
    rw [respelled_cons, spelled_cons, List.forall_mem_cons, ← ih]
    constructor
    · intro h
      -- neither part can be longer than it was, so neither is shorter
      have hl := congrArg List.length h
      have hp := p.canonical_sublist.length_le
      have hps := (respelled_sublist ps).length_le
      rw [List.length_append, List.length_append] at hl
      exact List.append_inj h (by omega)
    · rintro ⟨hp, hps⟩
      rw [hp, hps]

theorem byteLength_le_of_sublist {s t : List Char} (h : s.Sublist t) :
    byteLength s ≤ byteLength t := by
  induction h with
  | slnil => exact Nat.le_refl _
  | cons c h ih => exact Nat.le_trans ih (Nat.le_add_left _ _)
  | cons_cons c h ih => exact Nat.add_le_add_left ih _

/-- `s` is the text `t` with each literal of the pieces in canonical form and all else as it was. -/
structure Respelled (ps : List Piece) (t s : List Char) : Prop where
  before : t = spelled ps
  after : s = respelled ps
  /-- A literal keeps its digits but for zeros in front, and a minus sign unless all are zeros. -/
  literal {u : List Char} {n : Int} {h : IntText u n} (hp : .literal u n h ∈ ps) :
    decimal n = trimmed u
  /-- Characters are left out and none is added. -/
  sublist : s.Sublist t
  byteLength_le : byteLength s ≤ byteLength t
  eq_iff : s = t ↔ ∀ u n h, .literal u n h ∈ ps → ¬Redundant u

theorem respelled_of_spelled {ps : List Piece} {t s : List Char} (ht : spelled ps = t)
    (hs : respelled ps = s) : Respelled ps t s where
  before := ht.symm
  after := hs.symm
  literal {_ _ h} _ := h.decimal_eq
  sublist := ht ▸ hs ▸ respelled_sublist ps
  byteLength_le := ht ▸ hs ▸ byteLength_le_of_sublist (respelled_sublist ps)
  eq_iff := by
    rw [← ht, ← hs, respelled_eq_spelled_iff]
    constructor
    · intro hp u n h hu
      exact h.trimmed_eq_self_iff.1 (h.decimal_eq ▸ hp _ hu)
    · intro hn p hp
      cases p with
      | plain s => rfl
      | literal u n h => exact h.decimal_eq.trans (h.trimmed_eq_self_iff.2 (hn u n h hp))

/-! ## Derivations -/

theorem respelled_node (l r : RawExpr) (o : Operator) : respelled (RawExpr.node l o r).pieces =
    '(' :: (respelled l.pieces ++ o.symbol :: (respelled r.pieces ++ [')'])) := by
  simp [RawExpr.pieces, respelled, Piece.canonical]

theorem NumText.exists_rawExpr {t : List Char} {e : NumExpr} (h : NumText t e) :
    ∃ d : RawExpr, d.text = t ∧ d.HasSort .number ∧ respelled d.pieces = e.render := by
  induction h with
  | element => exact ⟨.element, rfl, .element, List.append_nil _⟩
  | const h => exact ⟨.literal _ _ h, rfl, .literal h, List.append_nil _⟩
  | arith o ha hb iha ihb =>
    obtain ⟨l, rfl, hl, hel⟩ := iha
    obtain ⟨r, rfl, hr, her⟩ := ihb
    refine ⟨.node l (.arith o) r, rfl, .node (.arith o) hl hr, ?_⟩
    rw [respelled_node, hel, her]
    rfl

theorem BoolText.exists_rawExpr {t : List Char} {p : BoolExpr} (h : BoolText t p) :
    ∃ d : RawExpr, d.text = t ∧ d.HasSort .condition ∧ respelled d.pieces = p.render := by
  induction h with
  | rel o ha hb =>
    obtain ⟨l, rfl, hl, hel⟩ := ha.exists_rawExpr
    obtain ⟨r, rfl, hr, her⟩ := hb.exists_rawExpr
    refine ⟨.node l (.rel o) r, rfl, .node (.rel o) hl hr, ?_⟩
    rw [respelled_node, hel, her]
    rfl
  | binary o hp hq ihp ihq =>
    obtain ⟨l, rfl, hl, hel⟩ := ihp
    obtain ⟨r, rfl, hr, her⟩ := ihq
    refine ⟨.node l (.bool o) r, rfl, .node (.bool o) hl hr, ?_⟩
    rw [respelled_node, hel, her]
    rfl

theorem respelled_rawCall (kind : Call.Kind) (b : RawExpr) :
    respelled (RawCall.pieces ⟨kind, b⟩) = kind.word ++ '{' :: (respelled b.pieces ++ ['}']) := by
  simp [RawCall.pieces, respelled, Piece.canonical]

theorem CallText.exists_rawCall {t : List Char} {c : Call} (h : CallText t c) :
    ∃ d : RawCall, d.text = t ∧ d.WellSorted ∧ respelled d.pieces = c.render := by
  cases h with
  | map h =>
    obtain ⟨b, rfl, hs, hr⟩ := h.exists_rawExpr
    refine ⟨⟨.map, b⟩, rfl, hs, ?_⟩
    rw [respelled_rawCall, hr]
    rfl
  | filter h =>
    obtain ⟨b, rfl, hs, hr⟩ := h.exists_rawExpr
    refine ⟨⟨.filter, b⟩, rfl, hs, ?_⟩
    rw [respelled_rawCall, hr]
    rfl

theorem Chain.render_cons (c : Call) {r : Chain} (hr : r ≠ []) :
    Chain.render (c :: r) = c.render ++ (Chain.separator ++ Chain.render r) := by
  rw [Chain.render, List.map_cons, List.intercalate_cons_of_ne_nil (by simpa using hr),
    List.append_assoc]
  rfl

theorem ChainText.exists_rawCalls {t : List Char} {c : Chain} (h : ChainText t c) :
    ∃ l : List RawCall, RawCall.chainText l = t ∧ (∀ d ∈ l, d.WellSorted) ∧
      respelled (RawCall.chainPieces l) = c.render := by
  induction h with
  | @single t c h =>
    obtain ⟨d, rfl, hs, hr⟩ := h.exists_rawCall
    refine ⟨[d], RawCall.chainText_singleton d, List.forall_mem_singleton.2 hs, ?_⟩
    rw [RawCall.chainPieces_singleton, hr, Chain.render, List.map_singleton,
      List.intercalate_singleton]
  | @cons t s c r h hr ih =>
    obtain ⟨d, rfl, hs, hd⟩ := h.exists_rawCall
    obtain ⟨l, rfl, hl, hlr⟩ := ih
    have hne : l ≠ [] := by
      rintro rfl
      exact hr.ne_nil rfl
    refine ⟨d :: l, RawCall.chainText_cons d hne, List.forall_mem_cons.2 ⟨hs, hl⟩, ?_⟩
    rw [RawCall.chainPieces_cons d hne, respelled_append, respelled_cons, hd, hlr,
      Chain.render_cons c hr.chain_ne_nil]
    rfl

/-! ## Reading, then printing -/

/-- **Printing after reading respells the literals** of the one derivation that the text has, and
does nothing else to it. -/
theorem render_read :
    (∀ t e, readNumber (.whole t) = .ok e → ∃ d : RawExpr, (∀ d', d'.text = t ↔ d' = d) ∧
        d.HasSort .number ∧ Respelled d.pieces t e.render) ∧
      (∀ t p, readBoolean (.whole t) = .ok p → ∃ d : RawExpr, (∀ d', d'.text = t ↔ d' = d) ∧
        d.HasSort .condition ∧ Respelled d.pieces t p.render) ∧
      (∀ t c, readSingleCall (.whole t) = .ok c → ∃ d : RawCall, (∀ d', d'.text = t ↔ d' = d) ∧
        d.WellSorted ∧ Respelled d.pieces t c.render) ∧
      ∀ t c, (readChain (.whole t)).result = .ok c → ∃ l : List RawCall,
        (∀ l', RawCall.chainText l' = t ↔ l' = l) ∧ (∀ d ∈ l, d.WellSorted) ∧
          Respelled (RawCall.chainPieces l) t c.render := by
  refine ⟨fun t e h => ?_, fun t p h => ?_, fun t c h => ?_, fun t c h => ?_⟩
  · obtain ⟨d, rfl, hs, hr⟩ := NumText.exists_rawExpr (t := t) (readNumber_eq_ok_iff.1 h)
    exact ⟨d, fun _ => RawExpr.text_injective.eq_iff, hs, respelled_of_spelled d.spelled_pieces hr⟩
  · obtain ⟨d, rfl, hs, hr⟩ := BoolText.exists_rawExpr (t := t) (readBoolean_eq_ok_iff.1 h)
    exact ⟨d, fun _ => RawExpr.text_injective.eq_iff, hs, respelled_of_spelled d.spelled_pieces hr⟩
  · obtain ⟨d, rfl, hs, hr⟩ := CallText.exists_rawCall (t := t) (readSingleCall_eq_ok_iff.1 h)
    exact ⟨d, fun _ => RawCall.text_injective.eq_iff, hs, respelled_of_spelled d.spelled_pieces hr⟩
  · obtain ⟨l, rfl, hs, hr⟩ := ChainText.exists_rawCalls (t := t) (result_readChain_eq_ok_iff.1 h)
    exact ⟨l, fun _ => RawCall.chainText_injective.eq_iff, hs,
      respelled_of_spelled (RawCall.spelled_chainPieces l) hr⟩

/-- In `map{(-00-007)}` the minus sign of a zero goes, and the minus between the literals stays. -/
theorem render_read_two_zeros :
    readSingleCall (.whole "map\x7b(-00-007)\x7d".toList) =
        .ok (.map (.arith (.const 0) .minus (.const 7))) ∧
      ∃ d : RawCall, d.WellSorted ∧
        Respelled d.pieces "map\x7b(-00-007)\x7d".toList "map\x7b(0-7)\x7d".toList := by
  have h : readSingleCall (.whole "map\x7b(-00-007)\x7d".toList) =
      .ok (.map (.arith (.const 0) .minus (.const 7))) := by
    decide +kernel
  obtain ⟨d, -, hs, hr⟩ := render_read.2.2.1 _ _ h
  exact ⟨h, d, hs, hr⟩

end MapFilter
