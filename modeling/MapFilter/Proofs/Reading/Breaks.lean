import MapFilter.Proofs.Reading.Concatenation

/-!
# Where a text breaks off

The text of a chain is calls with separators between them. Any other text is like that up to some
place where a call is due, and there something is wrong with the call or with what follows it.

* `LeadsIn`: the beginning of a text before a place where a call is due;
* `Breaks`: what is wrong with a text, one constructor for each kind of fault;
* `breaks_of_readCalls`: one turn of the reader after the other;
* **`fault?_readChain_iff`**: the reader finds a fault exactly when the text breaks off with it.
-/

namespace MapFilter

/-! ## Where a call is due -/

/-- A call is due after the text: at the start and after a chain and a separator. -/
inductive LeadsIn : List Char → Prop
  | start : LeadsIn []
  | after {s : List Char} {c : Chain} (h : ChainText s c) : LeadsIn (s ++ Chain.separator)

theorem ChainText.append_call {s u : List Char} {c : Chain} {d : Call} (h : ChainText s c)
    (hu : CallText u d) : ChainText (s ++ (Chain.separator ++ u)) (c ++ [d]) := by
  induction h with
  | single h => exact .cons h (.single hu)
  | cons h hr ih =>
    simp only [List.append_assoc]
    exact .cons h ih

theorem LeadsIn.call {p u : List Char} {d : Call} (hp : LeadsIn p) (hu : CallText u d) :
    LeadsIn (p ++ (u ++ Chain.separator)) := by
  cases hp with
  | start => exact .after (.single hu)
  | after h =>
    have ht := LeadsIn.after (h.append_call hu)
    simpa only [List.append_assoc] using ht

/-- What comes where a call is due decides the fault. -/
theorem LeadsIn.fault?_readChain {p : List Char} (hp : LeadsIn p) {s : List Char} (hs : s ≠ []) :
    (readChain (.whole (p ++ s))).fault? = (readCalls ⟨s, byteLength p⟩).fault? := by
  rw [Fragment.whole, readChain_of_ne_nil (by simp [hs])]
  cases hp with
  | start => rfl
  | after h =>
    rw [List.append_assoc, h.readCalls_separator hs, byteLength_append, Nat.zero_add]
    rfl

/-! ## What can be wrong there -/

/-- The text is that of a chain up to a place where a call is due, and has the fault there. -/
inductive Breaks : List Char → Fault → Prop
  | empty : Breaks [] (.empty ⟨[], 0⟩)
  | unclosedCall {p g : List Char} (hp : LeadsIn p) (hg : g ≠ []) (h : '}' ∉ g) :
    Breaks (p ++ g) (.unclosedCall ⟨g, byteLength p⟩)
  | missingBody {p w : List Char} (hp : LeadsIn p) (ho : '{' ∉ w) (hc : '}' ∉ w) (q : List Char) :
    Breaks (p ++ (w ++ '}' :: q)) (.missingBody ⟨w ++ ['}'], byteLength p⟩)
  | unknownKeyword {p w b : List Char} (hp : LeadsIn p) (ho : '{' ∉ w) (hc : '}' ∉ w ++ b)
    (hw : Call.Kind.ofWord? w = none) (q : List Char) :
    Breaks (p ++ (w ++ '{' :: (b ++ '}' :: q))) (.unknownKeyword ⟨w, byteLength p⟩)
  | inBody {p b : List Char} {kind : Call.Kind} {e : ExprFault} (hp : LeadsIn p) (hb : '}' ∉ b)
    (he : readBody kind ⟨b, byteLength p + byteLength kind.word + 1⟩ = .error e) (q : List Char) :
    Breaks (p ++ (kind.word ++ '{' :: (b ++ '}' :: q)))
      (.inBody ⟨kind.word ++ '{' :: (b ++ ['}']), byteLength p⟩ kind e)
  | strayText {p u g : List Char} {d : Call} (hp : LeadsIn p) (hu : CallText u d) (hg : g ≠ [])
    (hs : ¬Chain.separator <+: g) :
    Breaks (p ++ (u ++ g)) (.strayText ⟨g, byteLength p + byteLength u⟩ ⟨u, byteLength p⟩)
  | danglingSeparator {p u : List Char} {d : Call} (hp : LeadsIn p) (hu : CallText u d) :
    Breaks (p ++ (u ++ Chain.separator))
      (.danglingSeparator ⟨Chain.separator, byteLength p + byteLength u⟩)

variable {p w t : List Char} {e : Fault}

/-- A call of `map` without a body, and whatever follows it. -/
theorem Breaks.emptyMap (hp : LeadsIn p) (q : List Char) :
    Breaks (p ++ (Call.Kind.map.word ++ '{' :: '}' :: q))
      (.inBody ⟨Call.Kind.map.word ++ ['{', '}'], byteLength p⟩ .map
        (.notNumber ⟨[], byteLength p + 4⟩)) := by
  refine .inBody hp List.not_mem_nil ?_ q
  rw [readBody, readNumber, Term.ofFragment_atom (by rintro s ⟨⟩)]
  rfl

theorem breaks_of_readCall (hp : LeadsIn p) (hw : '}' ∉ w)
    (h : readCall ⟨w ++ ['}'], byteLength p⟩ = .error e) (q : List Char) :
    Breaks (p ++ (w ++ '}' :: q)) e := by
  obtain ⟨ho, hr⟩ | ⟨v, b, rfl, hv, hk, hr⟩ | ⟨kind, b, rfl, hr⟩ :=
    readCall_cases w (byteLength p)
  · rw [hr] at h
    cases h
    exact .missingBody hp ho hw q
  · rw [hr] at h
    cases h
    have hvb : '}' ∉ v ++ b := by simpa using hw
    simpa using Breaks.unknownKeyword hp hv hvb hk q
  · rw [hr] at h
    obtain ⟨e', hb, rfl⟩ := mapError_eq_error_iff.1 h
    have hwb : '}' ∉ b := fun hm => hw (by simp [hm])
    simpa using Breaks.inBody hp hwb hb q

theorem breaks_of_readCalls {f : Fragment} (h : (readCalls f).fault? = some e) :
    ∀ {p}, LeadsIn p → f.offset = byteLength p → f.text ≠ [] → Breaks (p ++ f.text) e := by
  fun_induction readCalls f with
  | case1 f hu =>
    intro p hp hk hf
    obtain ⟨g, k⟩ := f
    obtain rfl : k = byteLength p := hk
    cases h
    exact .unclosedCall hp hf (upTo?_eq_none_iff.1 hu)
  | case2 f t g hu call e' hc =>
    intro p hp hk hf
    obtain ⟨s, k⟩ := f
    obtain rfl : k = byteLength p := hk
    obtain rfl : t ++ g = s := append_of_upTo? hu
    obtain ⟨w, hw, rfl⟩ := exists_of_upTo? hu
    cases h
    have hb := breaks_of_readCall hp hw hc g
    simpa using hb
  | case3 => cases h
  | case4 f t g hu call rest c hc hne =>
    -- here and below the last hypothesis comes without a name
    rename_i hw
    intro p hp hk hf
    obtain ⟨s, k⟩ := f
    obtain rfl : k = byteLength p := hk
    obtain rfl : t ++ g = s := append_of_upTo? hu
    cases h
    exact .strayText hp (callText_of_upTo? hu hc) hne (word?_eq_none_iff.1 hw)
  | case5 f t g hu call rest c hc hne sep =>
    rename_i hw
    intro p hp hk hf
    obtain ⟨s, k⟩ := f
    obtain rfl : k = byteLength p := hk
    obtain rfl : t ++ g = s := append_of_upTo? hu
    obtain rfl : sep = Chain.separator := fst_of_word? hw
    obtain rfl : Chain.separator ++ [] = g := append_of_word? hw
    cases h
    exact .danglingSeparator hp (callText_of_upTo? hu hc)
  | case6 f t g hu call rest c hc hne sep d next hw =>
    rename_i ih
    intro p hp hk hf
    obtain ⟨s, k⟩ := f
    obtain rfl : k = byteLength p := hk
    obtain rfl : t ++ g = s := append_of_upTo? hu
    obtain rfl : sep = Chain.separator := fst_of_word? hw
    obtain rfl : Chain.separator ++ d :: next = g := append_of_word? hw
    -- the next call is due behind this one and the separator
    have hl := hp.call (callText_of_upTo? hu hc)
    have hk : byteLength p + byteLength t + byteLength Chain.separator =
        byteLength (p ++ (t ++ Chain.separator)) := by
      rw [byteLength_append, byteLength_append, Nat.add_assoc]
    have hb := ih h hl hk (List.cons_ne_nil _ _)
    simpa [rest, Fragment.after] using hb

/-! ## What the reader says -/

/-- A call without a fault before it is read alone, whatever comes after it. -/
theorem LeadsIn.fault?_of_readCall (hp : LeadsIn p) (hw : '}' ∉ w)
    (h : readCall ⟨w ++ ['}'], byteLength p⟩ = .error e) (q : List Char) :
    (readChain (.whole (p ++ (w ++ '}' :: q)))).fault? = some e := by
  rw [hp.fault?_readChain (by simp), readCalls_turn]
  simp only [upTo?_append hw, h]

theorem Breaks.fault?_eq (h : Breaks t e) : (readChain (.whole t)).fault? = some e := by
  cases h with
  | empty => rfl
  | unclosedCall hp hg h =>
    rw [hp.fault?_readChain hg, readCalls_turn]
    simp only [upTo?_eq_none_iff.2 h]
  | missingBody hp ho hc q =>
    exact hp.fault?_of_readCall hc (readCall_of_not_mem (by simp [ho]) _) q
  | @unknownKeyword p w b hp ho hc hw q =>
    have hr : readCall ⟨(w ++ '{' :: b) ++ ['}'], byteLength p⟩ =
        .error (.unknownKeyword ⟨w, byteLength p⟩) := by
      rw [List.append_assoc, List.cons_append, readCall_append_brace ho, hw]
    have hf := hp.fault?_of_readCall (by simpa using hc) hr q
    simpa using hf
  | @inBody p b kind e hp hb he q =>
    have hw : '}' ∉ kind.word := kind.not_mem_word rfl
    have hr : readCall ⟨(kind.word ++ '{' :: b) ++ ['}'], byteLength p⟩ =
        .error (.inBody ⟨kind.word ++ '{' :: (b ++ ['}']), byteLength p⟩ kind e) := by
      rw [List.append_assoc, List.cons_append, readCall_append, he]
      rfl
    have hf := hp.fault?_of_readCall (by simp [hw, hb]) hr q
    simpa using hf
  | strayText hp hu hg hs =>
    rw [hp.fault?_readChain (by simp [hg]), hu.readCalls_append, if_neg hg, word?_eq_none_iff.2 hs]
  | danglingSeparator hp hu =>
    have hw := word?_append Chain.separator []
    rw [List.append_nil] at hw
    have hne : Chain.separator ≠ [] := List.cons_ne_nil _ _
    rw [hp.fault?_readChain (by simp [hne]), hu.readCalls_append, if_neg hne, hw]

/-- **A fault is where the text breaks off.** The reader finds a fault exactly when the text is that
of a chain up to there and has this fault then. -/
theorem fault?_readChain_iff : (readChain (.whole t)).fault? = some e ↔ Breaks t e := by
  refine ⟨fun h => ?_, Breaks.fault?_eq⟩
  by_cases ht : t = []
  · subst ht
    cases h
    exact .empty
  · rw [Fragment.whole, readChain_of_ne_nil ht] at h
    exact breaks_of_readCalls h .start rfl ht

end MapFilter
