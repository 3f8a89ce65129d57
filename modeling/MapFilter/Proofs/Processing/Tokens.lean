import MapFilter.Proofs.Processing.FixedPoint
import Mathlib.Tactic.IntervalCases
import Mathlib.Tactic.SplitIfs

/-!
# Tokens

The encoding of a character is one piece, whatever comes after it. So a text comes back from its
bytes, and bytes that follow it are decoded as they would be alone.

The text of a chain is the first word of some bytes. A chain has no blank in it and begins where the
blanks end, so it comes out whole, whatever the bytes behind it are. Bytes that are no text leave a
mark in the word, and no chain has that.

* `Utf8.lead?_two`, `Utf8.lead?_three`, `Utf8.lead?_four`: what the first byte of an encoding
  announces; `Utf8.tails_cons`: one byte that continues a character;
* `Utf8.exists_piece_encode`: the encoding of a character;
* `Utf8.decode_encode_append`, **`Utf8.decodeLossy_encode_append`**: the encoding of a text;
* `IsToken`, `firstWord_eq_iff`: the first word, by what stands around it;
* `toNat_of_inAlphabet`, `not_isBlank_of_inAlphabet`: no character of a chain is a blank;
* `ChainText.isToken`: a chain between blanks is one word;
* **`firstWord_decodeLossy`**: what is read as a token from any bytes.
-/

namespace MapFilter

namespace Utf8

/-! ## First bytes -/

theorem lead?_one {n : ℕ} (h : n < 0x80) : lead? (UInt8.ofNat n) = some ⟨0, 0x80, 0xbf, n⟩ := by
  have hb : (UInt8.ofNat n).toNat = n := UInt8.toNat_ofNat_of_lt' (by change n < 256; omega)
  have hl : UInt8.ofNat n < 0x80 := UInt8.lt_iff_toNat_lt.2 (by rw [hb]; exact h)
  rw [lead?, if_pos hl, hb]

theorem lead?_two {n : ℕ} (hl : 2 ≤ n) (hh : n < 0x20) :
    lead? (UInt8.ofNat (n + 0xc0)) = some ⟨1, 0x80, 0xbf, n⟩ := by
  interval_cases n <;> rfl

theorem lead?_three {n : ℕ} (h : n < 0x10) : lead? (UInt8.ofNat (n + 0xe0)) =
    some ⟨2, if n = 0 then 0xa0 else 0x80, if n = 0xd then 0x9f else 0xbf, n⟩ := by
  interval_cases n <;> rfl

theorem lead?_four {n : ℕ} (h : n < 5) : lead? (UInt8.ofNat (n + 0xf0)) =
    some ⟨3, if n = 0 then 0x90 else 0x80, if n = 4 then 0x8f else 0xbf, n⟩ := by
  interval_cases n <;> rfl

/-! ## The bytes that follow -/

variable {n k bits : ℕ} {low high : UInt8}

theorem tails_cons (hl : low.toNat ≤ k % 0x40 + 0x80) (hh : k % 0x40 + 0x80 ≤ high.toNat)
    (s : List UInt8) : tails (n + 1) low high bits (UInt8.ofNat (k % 0x40 + 0x80) :: s) =
      tails n 0x80 0xbf (bits * 64 + k % 0x40) s := by
  have hb : (UInt8.ofNat (k % 0x40 + 0x80)).toNat = k % 0x40 + 0x80 :=
    UInt8.toNat_ofNat_of_lt' (by change _ < 256; omega)
  have hk : low ≤ UInt8.ofNat (k % 0x40 + 0x80) ∧ UInt8.ofNat (k % 0x40 + 0x80) ≤ high :=
    ⟨UInt8.le_iff_toNat_le.2 (by rwa [hb]), UInt8.le_iff_toNat_le.2 (by rwa [hb])⟩
  rw [tails, if_pos hk, hb, Nat.add_sub_cancel]

theorem tails_cons_any (s : List UInt8) :
    tails (n + 1) 0x80 0xbf bits (UInt8.ofNat (k % 0x40 + 0x80) :: s) =
      tails n 0x80 0xbf (bits * 64 + k % 0x40) s :=
  tails_cons (Nat.le_add_left _ _) (by change _ ≤ 0xbf; omega) s

theorem tails_zero {c : Char} (h : bits = c.toNat) (s : List UInt8) :
    tails 0 low high bits s = (some c, s) := by
  rw [tails, h, Char.ofNat_toNat]

/-- The encoding of a character is a piece, whatever follows. -/
theorem exists_piece_encode (c : Char) :
    ∃ b r, String.utf8EncodeChar c = b :: r ∧ ∀ s, piece b (r ++ s) = (some c, s) := by
  obtain ⟨n, hn⟩ : ∃ n, c.toNat = n := ⟨_, rfl⟩
  have hv : n < 0xd800 ∨ 0xdfff < n ∧ n < 0x110000 := hn ▸ c.valid
  have hc : c.val.toNat = n := hn
  rw [String.utf8EncodeChar, hc]
  split_ifs with h1 h2 h3
  · refine ⟨_, _, rfl, fun s => ?_⟩
    rw [piece, lead?_one (by omega)]
    exact tails_zero hn.symm s
  · refine ⟨_, _, rfl, fun s => ?_⟩
    rw [piece, lead?_two (by omega) (by omega)]
    dsimp only [List.cons_append, List.nil_append]
    rw [tails_cons_any]
    exact tails_zero (by omega) s
  · refine ⟨_, _, rfl, fun s => ?_⟩
    rw [piece, lead?_three (by omega)]
    dsimp only [List.cons_append, List.nil_append]
    rw [tails_cons, tails_cons_any]
    · exact tails_zero (by omega) s
    · split_ifs <;> simp
      omega
    · split_ifs <;> simp <;> omega
  · refine ⟨_, _, rfl, fun s => ?_⟩
    rw [piece, Nat.mod_eq_of_lt (by omega : n / 262144 < 8), lead?_four (by omega)]
    dsimp only [List.cons_append, List.nil_append]
    rw [tails_cons, tails_cons_any, tails_cons_any]
    · exact tails_zero (by omega) s
    · split_ifs <;> simp
      omega
    · split_ifs <;> simp <;> omega

/-! ## Texts -/

theorem decode_cons (b : UInt8) (s : List UInt8) :
    decode (b :: s) = (piece b s).1 :: decode (piece b s).2 := by
  rw [decode]

/-- The encoding of a text is decoded to its characters, and what follows as it would be alone. -/
theorem decode_encode_append (s : List Char) (r : List UInt8) :
    decode (encode s ++ r) = s.map some ++ decode r := by
  induction s with
  | nil => rfl
  | cons c s ih =>
    obtain ⟨b, t, hb, hp⟩ := exists_piece_encode c
    rw [encode, List.flatMap_cons, ← encode, hb, List.append_assoc, List.cons_append, decode_cons,
      hp, ih]
    rfl

/-- **A text comes back from its bytes**, and the bytes behind it do not matter to it. -/
theorem decodeLossy_encode_append (s : List Char) (r : List UInt8) :
    decodeLossy (encode s ++ r) = s ++ decodeLossy r := by
  rw [decodeLossy, decode_encode_append, List.map_append, List.map_map, decodeLossy]
  congr 1
  exact List.map_id s

end Utf8

open Utf8

variable {s t w r : List Char} {c : Chain}

/-! ## First words -/

/-- `t` is what stands in `s` behind blanks and before a blank or the end, and it is empty only when
there are only blanks. -/
def IsToken (s t : List Char) : Prop :=
  ∃ w r, s = w ++ (t ++ r) ∧ (∀ a ∈ w, isBlank a) ∧ (∀ a ∈ t, isBlank a = false) ∧
    (∀ a ∈ r.head?, isBlank a) ∧ (t = [] → ∀ a ∈ s, isBlank a)

theorem firstWord_append (hw : ∀ a ∈ w, isBlank a) (s : List Char) :
    firstWord (w ++ s) = firstWord s := by
  rw [firstWord, List.dropWhile_append_of_pos hw, firstWord]

theorem firstWord_cons {b : Char} (hb : isBlank b = false) (s : List Char) :
    firstWord (b :: s) = b :: s.takeWhile fun a => !isBlank a := by
  have hn : ¬isBlank b = true := Bool.eq_false_iff.1 hb
  rw [firstWord, List.dropWhile_cons_of_neg hn, List.takeWhile_cons_of_pos (by simp [hb])]

theorem isToken_firstWord (s : List Char) : IsToken s (firstWord s) := by
  induction s with
  | nil => exact ⟨[], [], rfl, by simp, by simp [firstWord], by simp, by simp⟩
  | cons b s ih =>
    by_cases hb : isBlank b
    · have hf : firstWord (b :: s) = firstWord s :=
        firstWord_append (List.forall_mem_singleton.2 hb) s
      rw [hf]
      obtain ⟨w, r, hs, hw, ht, hr, h0⟩ := ih
      refine ⟨b :: w, r, congrArg (List.cons b) hs, ?_, ht, hr, fun hn => ?_⟩
      · simpa using ⟨hb, hw⟩
      · simpa using ⟨hb, h0 hn⟩
    · rw [Bool.not_eq_true] at hb
      rw [firstWord_cons hb]
      refine ⟨[], s.dropWhile fun a => !isBlank a, ?_, by simp, ?_, fun a ha => ?_, by simp⟩
      · rw [List.nil_append, List.cons_append, List.takeWhile_append_dropWhile]
      · intro a ha
        rcases List.mem_cons.1 ha with rfl | ha
        · exact hb
        · simpa using List.all_eq_true.1 List.all_takeWhile a ha
      · have hd := List.head?_dropWhile_not (fun a => !isBlank a) s
        rw [ha] at hd
        simpa using hd

/-- A word between blanks, or between blanks and the end, is the first one. -/
theorem firstWord_of_isToken (h : IsToken s t) : firstWord s = t := by
  obtain ⟨w, r, rfl, hw, ht, hr, h0⟩ := h
  rw [firstWord_append hw]
  cases t with
  | nil =>
    have hb : ∀ a ∈ r, isBlank a := fun a ha => h0 rfl a (by simp [ha])
    simpa [firstWord] using firstWord_append hb []
  | cons b t =>
    have hn : ∀ a ∈ t, (!isBlank a) = true := fun a ha => by simp [ht a (by simp [ha])]
    have hend : r.takeWhile (fun a => !isBlank a) = [] := by
      cases r with
      | nil => rfl
      | cons a r => simp [hr a rfl]
    rw [List.cons_append, firstWord_cons (ht b (by simp)), List.takeWhile_append_of_pos hn, hend,
      List.append_nil]

theorem firstWord_eq_iff : firstWord s = t ↔ IsToken s t := by
  constructor
  · rintro rfl
    exact isToken_firstWord s
  · exact firstWord_of_isToken

/-! ## Chains as words -/

theorem toNat_of_isAlpha {a : Char} (h : a.isAlpha) : 0x41 ≤ a.toNat ∧ a.toNat ≤ 0x7a := by
  have hv : (decide (0x41 ≤ a.val ∧ a.val ≤ 0x5a) ||
      (decide (0x61 ≤ a.val) && decide (a.val ≤ 0x7a))) = true := h
  simp [UInt32.le_iff_toNat_le] at hv
  omega

/-- The characters of a chain are printable ASCII characters other than a space. -/
theorem toNat_of_inAlphabet {a : Char} (h : inAlphabet a) : 0x20 < a.toNat ∧ a.toNat < 0x7f := by
  have hs : ['{', '}', '(', ')', '%', '+', '-', '*', '=', '>', '<', '&', '|'].all
      (fun b => 0x20 < b.toNat ∧ b.toNat < 0x7f) = true := rfl
  rw [inAlphabet, Bool.or_eq_true, Char.isAlphanum, Bool.or_eq_true] at h
  rcases h with (h | h) | h
  · obtain ⟨hl, hh⟩ := toNat_of_isAlpha h
    omega
  · obtain ⟨hl, hh⟩ : 0x30 ≤ a.toNat ∧ a.toNat ≤ 0x39 := Char.isDigit_iff_toNat.1 h
    omega
  · exact of_decide_eq_true (List.all_eq_true.1 hs a (List.contains_iff_mem.1 h))

theorem not_isBlank_of_inAlphabet {a : Char} (h : inAlphabet a) : isBlank a = false := by
  obtain ⟨hl, hh⟩ := toNat_of_inAlphabet h
  simp only [isBlank, Bool.or_eq_false_iff, beq_eq_false_iff_ne, decide_eq_false_iff_not]
  omega

/-- A chain is one word. -/
theorem ChainText.not_isBlank (h : ChainText t c) : ∀ a ∈ t, isBlank a = false := fun a ha =>
  not_isBlank_of_inAlphabet (List.all_eq_true.1 h.all_inAlphabet a ha)

/-- Between blanks, or blanks and the end, a chain is the first word. -/
theorem ChainText.isToken (h : ChainText t c) (hw : ∀ a ∈ w, isBlank a)
    (hr : ∀ a ∈ r.head?, isBlank a) : IsToken (w ++ (t ++ r)) t :=
  ⟨w, r, rfl, hw, h.not_isBlank, hr, fun h0 => absurd h0 h.ne_nil⟩

/-! ## Bytes -/

/-- **What is read as a token.** From any bytes it is what stands between blanks in their text. A
chain behind blanks comes out whole when the bytes end there or go on with a blank, whatever they
are then. A token with the mark of an ill-formed piece is rejected. -/
theorem firstWord_decodeLossy :
    (∀ (bytes : List UInt8) (t : List Char),
        firstWord (decodeLossy bytes) = t ↔ IsToken (decodeLossy bytes) t) ∧
      (∀ (w t : List Char) (r : List UInt8) (c : Chain), (readChain (.whole t)).verdict = .ok c →
        (∀ a ∈ w, isBlank a) → (r = [] ∨ ∃ b q, isBlank b ∧ r = encode [b] ++ q) →
          firstWord (decodeLossy (encode (w ++ t) ++ r)) = t) ∧
      ∀ bytes : List UInt8, '\ufffd' ∈ firstWord (decodeLossy bytes) →
        ∀ s, ∃ d, process s (firstWord (decodeLossy bytes)) =
          .error (.parse d (firstWord (decodeLossy bytes))) := by
  refine ⟨fun bytes t => firstWord_eq_iff, fun w t r c h hw hr => ?_, fun bytes hm s => ?_⟩
  · have ht := result_readChain_eq_ok_iff.1 (Reading.verdict_eq_ok_iff.1 h)
    rw [decodeLossy_encode_append, List.append_assoc]
    refine firstWord_of_isToken (ht.isToken hw ?_)
    obtain rfl | ⟨b, q, hb, rfl⟩ := hr
    · simp [decodeLossy, decode]
    · rw [decodeLossy_encode_append]
      simpa using hb
  · cases hr : (readChain (.whole (firstWord (decodeLossy bytes)))).result with
    | ok c => exact absurd hm ((result_readChain_eq_ok_iff.1 hr).not_mem rfl)
    | error e => exact ⟨_, process_eq_error hr s⟩

/-- A chain behind a no-break space, with a byte that is no text behind the end of its line; and a
chain with such a byte in it. -/
theorem firstWord_decodeLossy_map_element :
    let t := "map\x7belement\x7d".toList
    firstWord (decodeLossy (encode ('\u00a0' :: t) ++ [0x0a, 0xff])) = t ∧
      ∃ d, process {} (firstWord (decodeLossy (encode t ++ [0xff]))) =
        .error (.parse d (t ++ ['\ufffd'])) := by
  intro t
  have ht : (readChain (.whole t)).verdict = .ok [Call.noOpMap] :=
    Reading.verdict_eq_ok_iff.2 (result_readChain_eq_ok_iff.2 (.single (.map .element)))
  have hm : firstWord (decodeLossy (encode t ++ [0xff])) = t ++ ['\ufffd'] := by
    have hd : decodeLossy [0xff] = ['\ufffd'] := by
      rw [decodeLossy, decode_cons]
      simp [piece, lead?, decode]
    rw [decodeLossy_encode_append, hd]
    rfl
  constructor
  · exact firstWord_decodeLossy.2.1 ['\u00a0'] t _ _ ht
      (List.forall_mem_singleton.2 rfl) (.inr ⟨'\n', [0xff], rfl, rfl⟩)
  · have hp := firstWord_decodeLossy.2.2 (encode t ++ [0xff]) (by simp [hm]) {}
    rwa [hm] at hp ⊢

end MapFilter
