import MapFilter.Proofs.Processing.Labels

/-!
# Cuts at byte offsets

The readers split lists of characters, where nothing can go wrong. A reader that counts bytes and
cuts where its counts say so has steps that are not always possible. They are guarded here: a step
that is not possible ends in a mishap.

* `Mishap`, `Guarded`: what can go wrong, and results that may also be a fault;
* `minus`, `Fragment.cut`, `Fragment.divide`, `Fragment.shorter`, `offsetOf?`: the guarded steps;
* **`exists_cut_iff`**: a cut is possible exactly between two boundaries in order;
* `cut_eq`, `divide_eq`, `shorter_eq`, `offsetOf?_eq`: the steps where they are possible.
-/

namespace MapFilter

/-- What must not happen to a reader that counts bytes. -/
inductive Mishap where
  /-- A cut behind the end of a text or within a character, or of a part that ends before it
  begins. -/
  | badCut
  /-- A difference below zero. -/
  | belowZero
  /-- A text to go on with that is no shorter than the one before it. -/
  | noProgress
  /-- A case that was held to be impossible. -/
  | ruledOut
deriving DecidableEq

/-- A result, unless there is a fault in the text or a mishap in reading it. -/
abbrev Guarded (ε α : Type) : Type := Except (Mishap ⊕ ε) α

namespace Guarded

variable {ε α β : Type}

/-- A mishap ends a reading like a fault does. -/
instance : MonadLift (Except Mishap) (Except (Mishap ⊕ ε)) := ⟨fun r => r.mapError .inl⟩

/-- The end of a reading with a fault in the text. -/
def fault (e : ε) : Guarded ε α := .error (.inr e)

/-- A result that no mishap comes before. -/
def safe (r : Except ε α) : Guarded ε α := r.mapError .inr

theorem ok_bind (a : α) (k : α → Except ε β) : (Except.ok a >>= k) = k a := rfl

theorem safe_bind (r : Except ε α) (k : α → Except ε β) :
    safe (r >>= k) = safe r >>= fun a => safe (k a) := by
  cases r <;> rfl

theorem map_safe (g : α → β) (r : Except ε α) : (safe r).map g = safe (r.map g) := by
  cases r <;> rfl

theorem lift_ok_bind (a : α) (k : α → Guarded ε β) :
    ((liftM (Except.ok a : Except Mishap α) : Guarded ε α) >>= k) = k a := rfl

end Guarded

/-- The difference of two counts of bytes. -/
def minus (m n : Nat) : Except Mishap Nat := if n ≤ m then .ok (m - n) else .error .belowZero

theorem minus_eq {m n k : Nat} (h : m = n + k) : minus m n = .ok k := by
  rw [minus, if_pos (by omega)]
  congr
  omega

/-- The offset of the first `c` in a text. -/
def offsetOf? (c : Char) : List Char → Option Nat
  | [] => none
  | d :: s => if d = c then some 0 else (offsetOf? c s).map (d.utf8Size + ·)

theorem offsetOf?_eq_none_iff {c : Char} {s : List Char} : offsetOf? c s = none ↔ c ∉ s := by
  induction s with
  | nil => simp [offsetOf?]
  | cons d s ih =>
    by_cases hd : d = c
    · simp [offsetOf?, hd]
    · simp [offsetOf?, hd, Ne.symm hd, ih]

theorem offsetOf?_eq {c : Char} {s : List Char} (h : c ∉ s) (r : List Char) :
    offsetOf? c (s ++ c :: r) = some (byteLength s) := by
  induction s with
  | nil => simp [offsetOf?]
  | cons d s ih =>
    have hd : d ≠ c := fun he => h (he ▸ List.mem_cons_self)
    rw [List.cons_append, offsetOf?, if_neg hd, ih fun hc => h (List.mem_cons_of_mem d hc)]
    rfl

theorem byteLength_pos {s : List Char} (h : s ≠ []) : 0 < byteLength s := by
  obtain ⟨c, s, rfl⟩ := List.exists_cons_of_ne_nil h
  rw [byteLength_cons]
  exact Nat.add_pos_left c.utf8Size_pos _

/-- Of two beginnings of a text, the one that is not longer in bytes begins the other one. -/
theorem prefix_of_byteLength_le {p q t : List Char} (hp : p <+: t) (hq : q <+: t)
    (h : byteLength p ≤ byteLength q) : p <+: q := by
  rcases List.prefix_or_prefix_of_prefix hp hq with hpq | ⟨s, rfl⟩
  · exact hpq
  · by_cases hs : s = []
    · simp [hs]
    · have hz := byteLength_pos hs
      rw [byteLength_append] at h
      omega

namespace Fragment

variable {f g : Fragment}

/-- The number of bytes of the fragment. -/
def size (f : Fragment) : Nat := byteLength f.text

/-- The part of the fragment from byte `a` to byte `b`. -/
def cut (f : Fragment) (a b : Nat) : Except Mishap Fragment :=
  if h : a ≤ b then
    match Span.slice? ⟨a, b, h⟩ f.text with
    | some s => .ok ⟨s, f.offset + a⟩
    | none => .error .badCut
  else .error .badCut

/-- The two parts of the fragment before and after byte `k`. -/
def divide (f : Fragment) (k : Nat) : Except Mishap (Fragment × Fragment) := do
  let left ← f.cut 0 k
  let right ← f.cut k f.size
  return (left, right)

/-- A fragment to go on with after `f`. -/
def shorter (f g : Fragment) : Except Mishap { g : Fragment // g.size < f.size } :=
  if h : g.size < f.size then .ok ⟨g, h⟩ else .error .noProgress

theorem cut_eq {p s q : List Char} (h : f.text = p ++ (s ++ q)) :
    f.cut (byteLength p) (byteLength p + byteLength s) = .ok ⟨s, f.offset + byteLength p⟩ := by
  have hs : Span.slice? ⟨byteLength p, byteLength p + byteLength s, Nat.le_add_right _ _⟩ f.text =
      some s :=
    Span.slice?_eq_some_iff.2 ⟨p, q, h, rfl, (Nat.add_sub_cancel_left _ _).symm⟩
  rw [cut, dif_pos (Nat.le_add_right _ _), hs]

/-- **A cut is possible exactly between two boundaries in order.** -/
theorem exists_cut_iff {a b : Nat} :
    (∃ g, f.cut a b = .ok g) ↔ a ≤ b ∧ IsBoundary f.text a ∧ IsBoundary f.text b := by
  constructor
  · rintro ⟨g, h⟩
    unfold cut at h
    split at h
    · rename_i hab
      split at h
      · rename_i s hs
        obtain ⟨p, q, ht, rfl, hz⟩ := Span.slice?_eq_some_iff.1 hs
        have hb : byteLength (p ++ s) = b := by
          rw [byteLength_append, hz]
          exact Nat.add_sub_cancel' hab
        exact ⟨hab, ⟨p, s ++ q, ht, rfl⟩, ⟨p ++ s, q, by rw [ht, List.append_assoc], hb⟩⟩
      · cases h
    · cases h
  · rintro ⟨hab, ⟨p, r, hp, rfl⟩, ⟨u, q, hu, rfl⟩⟩
    obtain ⟨s, rfl⟩ := prefix_of_byteLength_le ⟨r, hp.symm⟩ ⟨q, hu.symm⟩ hab
    rw [List.append_assoc] at hu
    rw [byteLength_append]
    exact ⟨_, cut_eq hu⟩

example : Fragment.cut ⟨['ж'], 0⟩ 0 1 = .error .badCut := rfl

theorem divide_eq {s r : List Char} (h : f.text = s ++ r) :
    f.divide (byteLength s) = .ok (⟨s, f.offset⟩, f.after s r) := by
  have hl := cut_eq (f := f) (p := []) (s := s) (q := r) h
  have hr := cut_eq (f := f) (p := s) (s := r) (q := []) (by rw [h, List.append_nil])
  have hz : f.size = byteLength s + byteLength r := by rw [size, h, byteLength_append]
  rw [byteLength_nil, Nat.zero_add] at hl
  rw [divide, hz, hl, hr]
  rfl

theorem shorter_eq (h : g.size < f.size) : f.shorter g = .ok ⟨g, h⟩ := dif_pos h

end Fragment

end MapFilter
