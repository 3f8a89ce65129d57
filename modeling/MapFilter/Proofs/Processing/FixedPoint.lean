import MapFilter.Process
import MapFilter.Proofs.Grammar.Reading
import MapFilter.Proofs.Rewriting.Walk

/-!
# Outputs are fixed points

The output for a text that is read is itself read, as the chain that was printed, and comes out
unchanged when it is processed again. A text that is not read comes back with its diagnostic, under
all settings.

* `Chain.under`: the chain that is printed under the given settings;
* `Chain.under_under`: it is printed as it is the second time;
* `process_eq_ok`, `process_eq_error`: processing by the outcome of reading;
* `process_render_under`: the fixed point;
* **`process_cases`**: from a text to its output and once more through.
-/

namespace MapFilter

/-! ## The chain that is printed -/

namespace Chain

/-- The chain that is printed for `c`: its canonical form if the settings ask for it. -/
def under (s : Settings) (c : Chain) : Chain := if s.refactor then c.refactor.chain else c

theorem under_refactor (c : Chain) : c.under { refactor := true } = c.refactor.chain := rfl

theorem under_ne_nil (s : Settings) {c : Chain} (h : c ≠ []) : c.under s ≠ [] := by
  unfold under
  by_cases hs : s.refactor
  · rw [if_pos hs, refactor_chain]
    exact List.cons_ne_nil _ _
  · rw [if_neg hs]
    exact h

theorem under_under (s : Settings) (c : Chain) : (c.under s).under s = c.under s := by
  unfold under
  by_cases hs : s.refactor
  · rw [if_pos hs, if_pos hs, refactor_chain c, refactor_filter_map]
  · rw [if_neg hs, if_neg hs]

theorem render_under (s : Settings) (c : Chain) :
    (c.under s).render = if s.refactor then c.refactor.chain.render else c.render := by
  unfold under
  split <;> rfl

end Chain

/-! ## From a text to its output -/

variable {t : List Char} {c : Chain}

theorem process_eq_ok (h : (readChain (.whole t)).result = .ok c) (s : Settings) :
    process s t = .ok (c.under s).render := by
  rw [process, readText, h, Chain.render_under]

/-- The failure holds the diagnostic of the fault and the text, whatever the settings. -/
theorem process_eq_error {e : Fault} (h : (readChain (.whole t)).result = .error e) (s : Settings) :
    process s t = .error (.parse e.diagnostic t) := by
  rw [process, readText, h]

theorem result_readChain_render (h : c ≠ []) : (readChain (.whole c.render)).result = .ok c :=
  result_readChain_eq_ok_iff.2 (chainText_render h)

/-- **A printed chain is a fixed point** of the settings that it was printed under. -/
theorem process_render_under (s : Settings) (h : c ≠ []) :
    process s (c.under s).render = .ok (c.under s).render := by
  have hr := result_readChain_render (Chain.under_ne_nil s h)
  rw [process_eq_ok hr, Chain.under_under]

/-- **From a text to its output and once more through.** When the text is read, the canonical output
is read as one filter and one map that together act as the chain, the plain output is read as the
chain itself, and each comes out unchanged the second time. When it is not, all settings give the
same failure. -/
theorem process_cases (t : List Char) :
    match (readChain (.whole t)).result with
    | .ok c =>
      (∃ out p e, process { refactor := true } t = .ok out ∧
          (readChain (.whole out)).result = .ok [.filter p, .map e] ∧
          (∀ x, Chain.apply [.filter p, .map e] x = c.apply x) ∧
          process { refactor := true } out = .ok out) ∧
        ∃ out, process { refactor := false } t = .ok out ∧
          (readChain (.whole out)).result = .ok c ∧ process { refactor := false } out = .ok out
    | .error e => ∀ s, process s t = .error (.parse e.diagnostic t) := by
  cases h : (readChain (.whole t)).result with
  | error e => exact process_eq_error h
  | ok c =>
    have hne : c ≠ [] := (result_readChain_eq_ok_iff.1 h).chain_ne_nil
    refine ⟨⟨_, c.predicate, c.body, process_eq_ok h _, ?_, fun x => ?_,
      process_render_under _ hne⟩, _, process_eq_ok h _, ?_, process_render_under _ hne⟩
    · rw [Chain.under_refactor, ← Chain.refactor_chain]
      exact result_readChain_render (Chain.under_ne_nil { refactor := true } hne)
    · rw [← Chain.refactor_chain, Chain.apply_refactor]
    · exact result_readChain_render hne

end MapFilter
