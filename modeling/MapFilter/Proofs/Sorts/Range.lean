import MapFilter.Proofs.Sorts.RawChain

/-!
# Literals beyond the range

A raw expression cuts its text into literals and the characters between them. The pieces stand in
the order of the text, so whatever comes before a literal in the list stands on its left.

The search for the end of an operand passes over a literal of any size; whether it fits is looked at
later, when the operand is read. In a chain that is well sorted nothing else can go wrong, so the
chain is read unless a literal does not fit, and the leftmost one of these is reported.

* `Piece`, `spelled`: the text that pieces make up;
* `RawExpr.pieces`, `RawCall.pieces`, `RawCall.chainPieces`, with `spelled_…` lemmas;
* `RawExpr.inRange_iff`, `RawCall.inRange_iff`: the pieces show all literals that there are;
* `firstBeyond`: the first literal beyond the range as a fault, with `firstBeyond_eq_none_iff` and
  `exists_of_firstBeyond`;
* `RawExpr.HasSort.fault?_eq`: the fault of an expression that has the sort that is due;
* `RawCall.fault?_of_wellSorted`, `RawCall.fault?_eq_none_iff_inRange`: the fault of a call;
* **`verdict_of_wellSorted`**: the reader reports the leftmost literal that does not fit.
-/

namespace MapFilter

/-! ## Pieces of a text -/

/-- A literal, or characters that belong to no literal. -/
inductive Piece where
  | plain (s : List Char)
  | literal (t : List Char) (n : Int) (h : IntText t n)

namespace Piece

def text : Piece → List Char
  | plain s => s
  | literal t _ _ => t

/-- A literal has the value of a 32-bit number. -/
def InRange : Piece → Prop
  | plain _ => True
  | literal _ n _ => -2147483648 ≤ n ∧ n ≤ 2147483647

instance : DecidablePred InRange
  | plain _ => isTrue trivial
  | literal _ n _ => inferInstanceAs (Decidable (-2147483648 ≤ n ∧ n ≤ 2147483647))

theorem inRange_plain (s : List Char) : (plain s).InRange := trivial

end Piece

/-- The text that the pieces make up. -/
def spelled (ps : List Piece) : List Char := ps.flatMap Piece.text

@[simp] theorem spelled_nil : spelled [] = [] := rfl

@[simp] theorem spelled_cons (p : Piece) (ps : List Piece) :
    spelled (p :: ps) = p.text ++ spelled ps := rfl

@[simp] theorem spelled_append (ps qs : List Piece) :
    spelled (ps ++ qs) = spelled ps ++ spelled qs := List.flatMap_append

/-! ## Expressions, calls and chains -/

namespace RawExpr

def pieces : RawExpr → List Piece
  | element => [.plain elementWord]
  | literal t n h => [.literal t n h]
  | node l o r => .plain ['('] :: (l.pieces ++ .plain [o.symbol] :: (r.pieces ++ [.plain [')']]))

theorem spelled_pieces (e : RawExpr) : spelled e.pieces = e.text := by
  induction e with
  | element => exact List.append_nil _
  | literal t n h => exact List.append_nil _
  | node l o r ihl ihr => simp [pieces, text, ihl, ihr, Piece.text]

theorem inRange_iff (e : RawExpr) : e.InRange ↔ ∀ p ∈ e.pieces, p.InRange := by
  induction e with
  | element => simp [pieces, InRange, Piece.InRange]
  | literal t n h => simp [pieces, InRange, Piece.InRange]
  | node l o r ihl ihr =>
    rw [InRange, ihl, ihr, pieces]
    simp only [List.forall_mem_cons, List.forall_mem_append, Piece.inRange_plain, List.not_mem_nil,
      IsEmpty.forall_iff, implies_true, true_and, and_true]

end RawExpr

namespace RawCall

def pieces (d : RawCall) : List Piece :=
  .plain (d.kind.word ++ ['{']) :: (d.body.pieces ++ [.plain ['}']])

theorem spelled_pieces (d : RawCall) : spelled d.pieces = d.text := by
  simp [pieces, text, d.body.spelled_pieces, Piece.text]

theorem inRange_iff (d : RawCall) : d.body.InRange ↔ ∀ p ∈ d.pieces, p.InRange := by
  rw [d.body.inRange_iff, pieces]
  simp only [List.forall_mem_cons, List.forall_mem_append, Piece.inRange_plain, List.not_mem_nil,
    IsEmpty.forall_iff, implies_true, true_and, and_true]

/-- The pieces of calls with separators between them. -/
def chainPieces (l : List RawCall) : List Piece :=
  List.intercalate [.plain Chain.separator] (l.map pieces)

theorem chainPieces_singleton (d : RawCall) : chainPieces [d] = d.pieces := by
  rw [chainPieces, List.map_singleton, List.intercalate_singleton]

theorem chainPieces_cons (d : RawCall) {l : List RawCall} (hl : l ≠ []) :
    chainPieces (d :: l) = d.pieces ++ .plain Chain.separator :: chainPieces l := by
  rw [chainPieces, List.map_cons, List.intercalate_cons_of_ne_nil (by simpa using hl)]
  simp [chainPieces]

theorem spelled_chainPieces (l : List RawCall) : spelled (chainPieces l) = chainText l := by
  induction l with
  | nil => rfl
  | cons d l ih =>
    by_cases hl : l = []
    · rw [hl, chainPieces_singleton, chainText_singleton, spelled_pieces]
    · rw [chainPieces_cons d hl, chainText_cons d hl, spelled_append, spelled_cons, spelled_pieces,
        ih]
      rfl

end RawCall

/-! ## The first literal beyond the range -/

/-- The fault of the first literal beyond the range, in pieces that stand at an offset. -/
def firstBeyond : List Piece → Nat → Option ExprFault
  | [], _ => none
  | p :: ps, k =>
    if p.InRange then firstBeyond ps (k + byteLength p.text) else some (.outOfRange ⟨p.text, k⟩)

theorem firstBeyond_plain (s : List Char) (ps : List Piece) (k : Nat) :
    firstBeyond (.plain s :: ps) k = firstBeyond ps (k + byteLength s) := if_pos (Piece.inRange_plain s)

theorem firstBeyond_append (ps qs : List Piece) (k : Nat) : firstBeyond (ps ++ qs) k =
    (firstBeyond ps k).or (firstBeyond qs (k + byteLength (spelled ps))) := by
  induction ps generalizing k with
  | nil => rfl
  | cons p ps ih =>
    rw [List.cons_append, firstBeyond, firstBeyond]
    by_cases hp : p.InRange
    · rw [if_pos hp, if_pos hp, ih, spelled_cons, byteLength_append, Nat.add_assoc]
    · rw [if_neg hp, if_neg hp, Option.some_or]

theorem firstBeyond_eq_none_iff {ps : List Piece} {k : Nat} :
    firstBeyond ps k = none ↔ ∀ p ∈ ps, p.InRange := by
  induction ps generalizing k with
  | nil => simp [firstBeyond]
  | cons p ps ih =>
    rw [firstBeyond, List.forall_mem_cons]
    by_cases hp : p.InRange
    · rw [if_pos hp, ih, and_iff_right hp]
    · simp [hp]

theorem exists_of_firstBeyond {ps : List Piece} {k : Nat} {e : ExprFault}
    (h : firstBeyond ps k = some e) : ∃ before t n ht after, ps = before ++ .literal t n ht :: after ∧
      (∀ p ∈ before, p.InRange) ∧ ¬(Piece.literal t n ht).InRange ∧
      e = .outOfRange ⟨t, k + byteLength (spelled before)⟩ := by
  induction ps generalizing k with
  | nil => cases h
  | cons p ps ih =>
    rw [firstBeyond] at h
    by_cases hp : p.InRange
    · rw [if_pos hp] at h
      obtain ⟨before, t, n, ht, after, rfl, hb, hn, rfl⟩ := ih h
      refine ⟨p :: before, t, n, ht, after, rfl, List.forall_mem_cons.2 ⟨hp, hb⟩, hn, ?_⟩
      rw [spelled_cons, byteLength_append, Nat.add_assoc]
    · rw [if_neg hp] at h
      cases p with
      | plain s => exact absurd (Piece.inRange_plain s) hp
      | literal t n ht =>
        cases h
        exact ⟨[], t, n, ht, ps, rfl, by simp, hp, rfl⟩

/-- The first literal beyond the range is found where the pieces within it end. -/
theorem leftmost_eq {ps before after : List Piece} {p : Piece} (h : ps = before ++ p :: after)
    (hb : ∀ q ∈ before, q.InRange) (hp : ¬p.InRange) :
    before = ps.takeWhile (fun q => decide q.InRange) ∧
      p :: after = ps.dropWhile (fun q => decide q.InRange) := by
  have hb' : ∀ q ∈ before, decide q.InRange = true := fun q hq => decide_eq_true (hb q hq)
  rw [h, List.takeWhile_append_of_pos hb', List.dropWhile_append_of_pos hb']
  simp [hp]

/-! ## The leftmost literal -/

/-- In an expression of the sort that is due, only a literal can be at fault. -/
theorem RawExpr.HasSort.fault?_eq {e : RawExpr} {s : ExprSort} (h : e.HasSort s) (k : Nat) :
    (Term.ofFragment ⟨e.text, k⟩).fault? s = firstBeyond e.pieces k := by
  induction h generalizing k with
  | element =>
    rw [fault?_ofFragment]
    rfl
  | @literal t n h =>
    have hm : (Place.mk (RawExpr.literal t n h) .number k).mismatched = false := rfl
    rw [text, fault?_literal h, Place.fault?, hm, pieces, firstBeyond]
    by_cases hn : -2147483648 ≤ n ∧ n ≤ 2147483647
    · simp [Place.beyond, Piece.InRange, hn, firstBeyond]
    · simp [Place.beyond, Piece.InRange, hn, Place.fragment, text, Piece.text]
  | @node l r o hl hr ihl ihr =>
    have hp : byteLength ['('] = 1 := rfl
    have ho : byteLength [o.symbol] = 1 := by rw [byteLength_cons, o.utf8Size_symbol, byteLength_nil]
    rw [ofFragment_text, Term.fault?_node, if_pos rfl, ihl, ihr, pieces, firstBeyond_plain,
      firstBeyond_append, firstBeyond_plain, firstBeyond_append, firstBeyond_plain, firstBeyond,
      Option.or_none, spelled_pieces, hp, ho]

namespace RawCall

variable {d : RawCall}

theorem fault?_of_wellSorted (h : d.WellSorted) (k : Nat) :
    d.fault? k = (firstBeyond d.pieces k).map (.inBody ⟨d.text, k⟩ d.kind) := by
  have hk : k + byteLength (d.kind.word ++ ['{']) = k + byteLength d.kind.word + 1 := by
    rw [byteLength_append, ← Nat.add_assoc]
    rfl
  rw [fault?, places, ← RawExpr.fault?_ofFragment, h.fault?_eq, pieces, firstBeyond_plain,
    firstBeyond_append, firstBeyond_plain, firstBeyond, Option.or_none, hk]

theorem fault?_eq_none_iff_inRange (h : d.WellSorted) (k : Nat) :
    d.fault? k = none ↔ d.body.InRange := by
  rw [fault?_of_wellSorted h, Option.map_eq_none_iff, firstBeyond_eq_none_iff, d.inRange_iff]

/-- What is reported of a chain is the fault of its first call that has one. -/
theorem verdict_chainText_eq_error_iff {l : List RawCall} (hl : l ≠ []) {g : Diagnostic} :
    (readChain (.whole (chainText l))).verdict = .error g ↔
      ∃ e, firstFault l 0 = some e ∧ e.diagnostic = g := by
  rw [Reading.verdict_eq_error_iff, ← fault?_readCalls_chainText hl, Fragment.whole,
    readChain_of_ne_nil (chainText_ne_nil hl)]

end RawCall

open RawCall

/-- **The leftmost literal that does not fit is reported.** A chain that is well sorted is read
unless a literal has no 32-bit value. Then the first label is on the literal that has only literals
with such a value on its left, in its call and in the calls before it, and the second label is on
its call. -/
theorem verdict_of_wellSorted {l : List RawCall} (hl : l ≠ []) (hs : ∀ d ∈ l, d.WellSorted) :
    ((∃ g, (readChain (.whole (chainText l))).verdict = .error g) ↔ ∃ d ∈ l, ¬d.body.InRange) ∧
      ∀ g, (readChain (.whole (chainText l))).verdict = .error g → g.code = .valueOutOfRange ∧
        ∃ pre d post before t n ht after, l = pre ++ d :: post ∧
          d.pieces = before ++ .literal t n ht :: after ∧ (∀ c ∈ pre, c.body.InRange) ∧
          (∀ p ∈ before, p.InRange) ∧ ¬(Piece.literal t n ht).InRange ∧
          g.labels.map (fun b => (b.role, b.span)) =
            [(.primary, .ofBounds (offsetAfter pre + byteLength (spelled before))
                (offsetAfter pre + byteLength (spelled before) + byteLength t)),
              (.secondary, .ofBounds (offsetAfter pre) (offsetAfter pre + byteLength d.text))] := by
  have hP : ∀ d ∈ l, ∀ k, d.fault? k = none ↔ d.body.InRange := fun d hd =>
    fault?_eq_none_iff_inRange (hs d hd)
  refine ⟨?_, fun g hg => ?_⟩
  · have hn := firstFault_eq_none_iff_forall hP 0
    have he : (∃ d ∈ l, ¬d.body.InRange) ↔ firstFault l 0 ≠ none := by
      rw [ne_eq, hn]
      push Not
      rfl
    rw [he, Option.ne_none_iff_exists']
    simp only [verdict_chainText_eq_error_iff hl]
    exact ⟨fun ⟨_, e, h, _⟩ => ⟨e, h⟩, fun ⟨e, h⟩ => ⟨_, e, h, rfl⟩⟩
  · obtain ⟨e, he, rfl⟩ := (verdict_chainText_eq_error_iff hl).1 hg
    obtain ⟨pre, d, post, rfl, hpre, hd⟩ := exists_first_of_firstFault hP he
    rw [Nat.zero_add, fault?_of_wellSorted (hs d (by simp)), Option.map_eq_some_iff] at hd
    obtain ⟨x, hx, rfl⟩ := hd
    obtain ⟨before, t, n, ht, after, hp, hb, hn, rfl⟩ := exists_of_firstBeyond hx
    refine ⟨rfl, pre, d, post, before, t, n, ht, after, rfl, hp, hpre, hb, hn, ?_⟩
    simp only [Fault.diagnostic, ExprFault.diagnostic, ExprFault.marked, Diagnostic.secondary,
      Fragment.span_eq_ofBounds, List.cons_append, List.nil_append, List.map_cons, List.map_nil]

/-- In `((element-2147483648)<-2147483649)` the first minus is an operator and the second one a sign.
Neither literal fits, and the one on the left is marked, without the operator. -/
theorem verdict_of_wellSorted_two_minuses :
    ∃ g, (readChain (.whole
        "map\x7belement\x7d%>%filter\x7b((element-2147483648)<-2147483649)\x7d".toList)).verdict =
          .error g ∧ g.code = .valueOutOfRange ∧
      g.labels.map (fun b => (b.role, b.span)) =
        [(.primary, .ofBounds 32 42), (.secondary, .ofBounds 15 57)] := by
  have h1 : IntText "2147483648".toList 2147483648 := literal?_eq_some_iff.1 rfl
  have h2 : IntText "-2147483649".toList (-2147483649) := literal?_eq_some_iff.1 rfl
  let d : RawCall := ⟨.filter, .node (.node .element (.arith .minus) (.literal _ _ h1))
    (.rel .lessThan) (.literal _ _ h2)⟩
  have hd : d.WellSorted := .node (.rel .lessThan)
    (.node (.arith .minus) .element (.literal h1)) (.literal h2)
  have hs : ∀ c ∈ [⟨.map, .element⟩, d], c.WellSorted :=
    List.forall_mem_cons.2 ⟨.element, List.forall_mem_singleton.2 hd⟩
  have hb : ¬d.body.InRange := by
    intro h
    exact absurd h.1.2.2 (by decide)
  obtain ⟨hiff, herr⟩ := verdict_of_wellSorted (List.cons_ne_nil _ _) hs
  obtain ⟨g, hg⟩ := hiff.2 ⟨d, by simp, hb⟩
  obtain ⟨hc, pre, d', post, before, t, n, ht, after, hl, hp, hpre, hbefore, hn, hlabels⟩ := herr g hg
  refine ⟨g, hg, hc, hlabels.trans ?_⟩
  rcases pre with _ | ⟨a, _ | ⟨a', pre⟩⟩
  · -- the map has no literal
    cases hl
    have := leftmost_eq hp hbefore hn
    cases this.2
  · cases hl
    obtain ⟨hbe, hde⟩ := leftmost_eq hp hbefore hn
    have ht' : t = "2147483648".toList := (Piece.literal.inj (List.cons.inj hde).1).1
    have hsp : spelled before = "filter\x7b((element-".toList := by rw [hbe]; rfl
    have hdt : d.text = "filter\x7b((element-2147483648)<-2147483649)\x7d".toList := rfl
    rw [hsp, ht', hdt]
    decide +kernel
  · simp at hl

end MapFilter
