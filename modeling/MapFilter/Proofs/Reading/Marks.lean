import MapFilter.Proofs.Reading.Breaks
import MapFilter.Proofs.Sorts.RawChain

/-!
# What a fault marks

The reader of expressions only ever cuts pieces out of a text and keeps where each of them stood.
So what a fault marks is a piece of the text that was to be read.

Offsets count bytes, so not every offset is a place where a text can be cut. A cut inside a
character or behind the end gives nothing, and a span stands for a slice only when it can be cut out.

* `Fragment.Within`: a fragment is a piece of another one;
* `Term.fault?_node_unknown`, `Term.exists_of_fault?_node`: where the fault of a node comes from;
* **`marked_within_of_readBody`**: the fault of a body marks a piece of that body;
* `Fault.marked`, `Fault.call?`: what a fault of a chain marks; `Fault.labels_diagnostic`;
* **`marked_within_of_readCall`**, **`Breaks.marked_within`**: the same for calls and for chains;
* `cutAt?`: a text cut at an offset; `cutAt?_eq_some_iff`: the two parts, by their bytes;
* `Span.slice?`: the characters that a span covers; `Span.slice?_eq_some_iff`;
* **`Fragment.Within.slice?_span`**: a piece of a text is the slice at its own span.
-/

namespace MapFilter

section Marks

/-! ## Pieces of a fragment -/

/-- The text of the fragment occurs in the other one, and the offset is that of the occurrence. -/
def Fragment.Within (g f : Fragment) : Prop :=
  ∃ a b, f.text = a ++ (g.text ++ b) ∧ g.offset = f.offset + byteLength a

namespace Fragment.Within

variable {f g h : Fragment}

theorem refl (f : Fragment) : f.Within f := ⟨[], [], by simp, rfl⟩

theorem trans (hg : h.Within g) (hf : g.Within f) : h.Within f := by
  obtain ⟨a, b, ht, hk⟩ := hf
  obtain ⟨a', b', ht', hk'⟩ := hg
  refine ⟨a ++ a', b' ++ b, ?_, ?_⟩
  · simp only [ht, ht', List.append_assoc]
  · rw [hk', hk, byteLength_append, Nat.add_assoc]

theorem span_le (h : g.Within f) : f.span.start ≤ g.span.start ∧ g.span.stop ≤ f.span.stop := by
  obtain ⟨a, b, ht, hk⟩ := h
  have hl : byteLength f.text = byteLength a + (byteLength g.text + byteLength b) := by
    rw [ht, byteLength_append, byteLength_append]
  simp only [Fragment.span]
  omega

end Fragment.Within

/-! ## Expressions -/

variable {f : Fragment} {e : ExprFault}

theorem marked_of_firstOperand (h : firstOperand f = .error e) : e.marked = f := by
  unfold firstOperand at h
  split at h
  · cases h
    rfl
  · split at h
    · split at h <;> cases h
      rfl
    · split at h
      · split at h <;> cases h
        rfl
      · split at h <;> cases h
        rfl

theorem marked_of_operands (h : operands f = .error e) : e.marked = f := by
  unfold operands at h
  split at h
  · rename_i e' ho
    cases h
    exact marked_of_firstOperand ho
  · cases h
    rfl
  · cases h

namespace Term

variable {l r : Term} {c : Char} {k : Nat} {s : ExprSort}

theorem marked_of_atomNumber (h : atomNumber f = .error e) : e.marked = f := by
  unfold atomNumber at h
  split at h
  · cases h
  · split at h
    · cases h
      rfl
    · split at h <;> cases h
      rfl

theorem marked_of_fault?_atom (h : (atom f).fault? s = some e) : e.marked = f := by
  cases s with
  | number => exact marked_of_atomNumber (faultOf?_eq_some_iff.1 h)
  | condition =>
    rw [fault?, faultOf?_eq_some_iff, boolean] at h
    split at h <;> cases h <;> rfl

/-- A character that is no operator is the fault of the node, whatever the operands are. -/
theorem fault?_node_unknown (hc : ∀ o : Operator, c ≠ o.symbol) (s : ExprSort) :
    (node f l c k r).fault? s = some (.unknownOperator c k) := by
  have ha : ArithOp.ofSymbol? c = none := Option.eq_none_iff_forall_ne_some.2 fun o ho =>
    hc (.arith o) (ArithOp.ofSymbol?_eq_some_iff.1 ho)
  have hr : RelOp.ofSymbol? c = none := Option.eq_none_iff_forall_ne_some.2 fun o ho =>
    hc (.rel o) (RelOp.ofSymbol?_eq_some_iff.1 ho)
  have hb : BoolOp.ofSymbol? c = none := Option.eq_none_iff_forall_ne_some.2 fun o ho =>
    hc (.bool o) (BoolOp.ofSymbol?_eq_some_iff.1 ho)
  cases s with
  | number =>
    rw [fault?, number, ha, hr, hb]
    rfl
  | condition =>
    rw [fault?, boolean, ha, hr, hb]
    rfl

/-- The fault of a node marks the operator, unless it is the fault of an operand. -/
theorem exists_of_fault?_node (h : (node f l c k r).fault? s = some e) :
    (∃ s', l.fault? s' = some e) ∨ (∃ s', r.fault? s' = some e) ∨ e.marked = ⟨[c], k⟩ := by
  by_cases hc : ∃ o : Operator, c = o.symbol
  · obtain ⟨o, rfl⟩ := hc
    rw [fault?_node] at h
    split at h
    · obtain h | ⟨-, h⟩ := Option.or_eq_some_iff.1 h
      · exact .inl ⟨_, h⟩
      · exact .inr (.inl ⟨_, h⟩)
    · cases h
      exact .inr (.inr (o.marked_clash k f s))
  · rw [fault?_node_unknown (not_exists.1 hc)] at h
    cases h
    exact .inr (.inr rfl)

theorem marked_within (h : (ofFragment f).fault? s = some e) : e.marked.Within f := by
  fun_induction ofFragment f generalizing s with
  | case1 f hi =>
    rw [marked_of_fault?_atom h]
    exact .refl f
  | case2 f t hi e' ho =>
    -- the content lies between the two parentheses
    have he : e' = e := by cases s <;> exact Option.some.inj h
    rw [← he, marked_of_operands ho]
    exact ⟨['('], [')'], eq_of_inner? hi, rfl⟩
  | case3 f t hi a c b ho k iha =>
    -- the hypothesis for the second operand comes without a name
    rename_i ihb
    have ht := eq_of_operands hi ho
    have hp : '('.utf8Size = 1 := rfl
    obtain ⟨s', h⟩ | ⟨s', h⟩ | h := exists_of_fault?_node h
    · exact (iha h).trans ⟨['('], c :: (b ++ [')']), ht, rfl⟩
    · refine (ihb h).trans ⟨'(' :: (a ++ [c]), [')'], by simpa using ht, ?_⟩
      simp only [byteLength_cons, byteLength_append, byteLength_nil, k]
      omega
    · rw [h]
      refine ⟨'(' :: a, b ++ [')'], ht, ?_⟩
      simp only [byteLength_cons, k]
      omega

end Term

/-- **The fault of a body marks a piece of it.** -/
theorem marked_within_of_readBody {kind : Call.Kind} (h : readBody kind f = .error e) :
    e.marked.Within f := by
  rw [← faultOf?_eq_some_iff, RawCall.faultOf?_readBody] at h
  exact Term.marked_within h

/-! ## Calls and chains -/

namespace Fault

/-- The fragment that the fault itself is marked on. -/
def marked : Fault → Fragment
  | empty f | unclosedCall f | unendedCall f | strayText f _ | danglingSeparator f | missingBody f
  | unknownKeyword f => f
  | inBody _ _ e => e.marked

/-- The call that is marked with it: the one around the fault or the one before it. -/
def call? : Fault → Option Fragment
  | strayText _ call | inBody call _ _ => some call
  | _ => none

theorem labels_diagnostic (e : Fault) : e.diagnostic.labels.map (fun l => (l.role, l.span)) =
    (.primary, e.marked.span) :: (e.call?.map fun g => (.secondary, g.span)).toList := by
  cases e <;> rfl

theorem primarySpan?_diagnostic (e : Fault) : e.diagnostic.primarySpan? = some e.marked.span := by
  cases e <;> rfl

end Fault

theorem Fragment.within_whole (p s q : List Char) :
    Fragment.Within ⟨s, byteLength p⟩ (.whole (p ++ (s ++ q))) :=
  ⟨p, q, rfl, (Nat.zero_add _).symm⟩

theorem Fragment.within_end (p s : List Char) :
    Fragment.Within ⟨s, byteLength p⟩ (.whole (p ++ s)) := by
  simpa using within_whole p s []

/-- The body of a call is a piece of the call and of what follows it. -/
theorem body_within (kind : Call.Kind) (b r : List Char) (k : Nat) :
    Fragment.Within ⟨b, k + byteLength kind.word + 1⟩ ⟨kind.word ++ '{' :: (b ++ r), k⟩ := by
  refine ⟨kind.word ++ ['{'], r, by simp, ?_⟩
  rw [byteLength_append, Nat.add_assoc]
  rfl

/-- **The fault of a single call marks a piece of it.** -/
theorem marked_within_of_readCall {w : List Char} {k : Nat} {e : Fault}
    (h : readCall ⟨w ++ ['}'], k⟩ = .error e) : e.marked.Within ⟨w ++ ['}'], k⟩ := by
  obtain ⟨-, hr⟩ | ⟨v, b, rfl, -, -, hr⟩ | ⟨kind, b, rfl, hr⟩ := readCall_cases w k
  · rw [hr] at h
    cases h
    exact .refl _
  · rw [hr] at h
    cases h
    exact ⟨[], '{' :: (b ++ ['}']), by simp [Fault.marked], rfl⟩
  · rw [hr] at h
    obtain ⟨e', hb, rfl⟩ := mapError_eq_error_iff.1 h
    rw [List.append_assoc, List.cons_append]
    exact (marked_within_of_readBody hb).trans (body_within kind b ['}'] k)

/-- **The fault of a text marks a piece of it.** -/
theorem Breaks.marked_within {t : List Char} {e : Fault} (h : Breaks t e) :
    e.marked.Within (.whole t) := by
  cases h with
  | empty => exact .refl _
  | @unclosedCall p g hp hg h => exact Fragment.within_end p g
  | @missingBody p w hp ho hc q => simpa [Fault.marked] using Fragment.within_whole p (w ++ ['}']) q
  | @unknownKeyword p w b hp ho hc hw q => exact Fragment.within_whole p w _
  | @inBody p b kind e hp hb he q =>
    have hw := (marked_within_of_readBody he).trans (body_within kind b ('}' :: q) _)
    exact hw.trans (Fragment.within_end p _)
  | @strayText p u g d hp hu hg hs =>
    simpa [Fault.marked] using Fragment.within_end (p ++ u) g
  | @danglingSeparator p u d hp hu =>
    simpa [Fault.marked] using Fragment.within_end (p ++ u) Chain.separator

end Marks

/-! ## Slices of a text -/

/-- The text before a byte offset and the text from there on. -/
def cutAt? : Nat → List Char → Option (List Char × List Char)
  | 0, s => some ([], s)
  | _ + 1, [] => none
  | n + 1, c :: s =>
    if c.utf8Size ≤ n + 1 then (cutAt? (n + 1 - c.utf8Size) s).map fun p => (c :: p.1, p.2)
    else none

/-- The characters that the span covers in a text, unless it cuts one or reaches beyond the end. -/
def Span.slice? (m : Span) (t : List Char) : Option (List Char) :=
  (cutAt? m.start t).bind fun p => (cutAt? m.size p.2).map Prod.fst

theorem cutAt?_byteLength (a b : List Char) : cutAt? (byteLength a) (a ++ b) = some (a, b) := by
  induction a with
  | nil => rw [byteLength_nil, List.nil_append, cutAt?]
  | cons c a ih =>
    obtain ⟨n, hn⟩ : ∃ n, byteLength (c :: a) = n + 1 :=
      Nat.exists_eq_add_one.2 (Nat.add_pos_left c.utf8Size_pos _)
    have hc : n + 1 = c.utf8Size + byteLength a := hn.symm.trans (byteLength_cons c a)
    have hr : n + 1 - c.utf8Size = byteLength a := by omega
    rw [hn, List.cons_append, cutAt?, if_pos (by omega), hr, ih]
    rfl

theorem append_of_cutAt? {n : Nat} {s : List Char} {p : List Char × List Char}
    (h : cutAt? n s = some p) : p.1 ++ p.2 = s ∧ byteLength p.1 = n := by
  fun_induction cutAt? n s generalizing p with
  | case1 s =>
    cases h
    exact ⟨rfl, rfl⟩
  | case2 => cases h
  | case3 n c s hc ih =>
    obtain ⟨q, hq, rfl⟩ := Option.map_eq_some_iff.1 h
    obtain ⟨hs, hn⟩ := ih hq
    refine ⟨by rw [List.cons_append, hs], ?_⟩
    rw [byteLength_cons, hn]
    omega
  | case4 => cases h

theorem cutAt?_eq_some_iff {n : Nat} {s a b : List Char} :
    cutAt? n s = some (a, b) ↔ s = a ++ b ∧ byteLength a = n := by
  constructor
  · intro h
    obtain ⟨hs, hn⟩ := append_of_cutAt? h
    exact ⟨hs.symm, hn⟩
  · rintro ⟨rfl, rfl⟩
    exact cutAt?_byteLength a b

theorem Span.slice?_eq_some_iff {m : Span} {t s : List Char} : m.slice? t = some s ↔
    ∃ a b, t = a ++ (s ++ b) ∧ byteLength a = m.start ∧ byteLength s = m.size := by
  unfold slice?
  rw [Option.bind_eq_some_iff]
  constructor
  · rintro ⟨⟨a, r⟩, ha, hs⟩
    obtain ⟨⟨s', b⟩, hs', rfl⟩ := Option.map_eq_some_iff.1 hs
    obtain ⟨rfl, hm⟩ := cutAt?_eq_some_iff.1 ha
    obtain ⟨rfl, hz⟩ := cutAt?_eq_some_iff.1 hs'
    exact ⟨a, b, rfl, hm, hz⟩
  · rintro ⟨a, b, rfl, ha, hs⟩
    refine ⟨(a, s ++ b), cutAt?_eq_some_iff.2 ⟨rfl, ha⟩, ?_⟩
    rw [cutAt?_eq_some_iff.2 ⟨rfl, hs⟩]
    rfl

/-- **A piece of a text is the slice at its own span.** -/
theorem Fragment.Within.slice?_span {g : Fragment} {t : List Char} (h : g.Within (.whole t)) :
    g.span.slice? t = some g.text := by
  obtain ⟨a, b, ht, hk⟩ := h
  have hs : g.span.start = byteLength a := hk.trans (Nat.zero_add _)
  exact Span.slice?_eq_some_iff.2 ⟨a, b, ht, hs.symm, g.size_span.symm⟩

end MapFilter
