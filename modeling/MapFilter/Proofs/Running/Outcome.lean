import MapFilter.Proofs.Files.Writing
import MapFilter.Proofs.Processing.FixedPoint
import MapFilter.Run
import MapFilter.Toml.Document

/-!
# Runs are all or nothing

A run looks at the configuration, then at the source, then at the text. Only when it has a line does
it write, and then that line is all that is new. The line that stands for a fault is not a chain, so
the output tells whether the text was read.

* `Readable`, `not_readable_line`: what can be read, and that no line that stands for a fault can;
* `plan_of_config`, `plan_of_source`, `plan_of_text`: the order in which a run looks at things;
* `Outcome.Delivers`, `Outcome.Writes`: what is new after a run that has a line to write;
* `run_of_error`, `run_of_refusal`, `run_of_delivery`, `run_of_line`: a run by its plan;
* `PlanOf`, `planOf_plan`: how far a run gets;
* `Outcome.AllOrNothing`, **`run_all_or_nothing`**.
-/

namespace MapFilter

open CommandLine

variable {o : Options} {w : World} {env : Environment} {s : Settings} {t line : List Char}
  {c : Chain} {e : Fault} {f : Failure}

/-! ## Lines -/

/-- The text can be read as a chain. -/
def Readable (t : List Char) : Prop := ∃ c, (readChain (.whole t)).result = .ok c

theorem Readable.not_mem (h : Readable t) {d : Char} (hd : inAlphabet d = false) : d ∉ t := by
  obtain ⟨c, hc⟩ := h
  exact (result_readChain_eq_ok_iff.1 hc).not_mem hd

theorem readable_render_under (h : (readChain (.whole t)).result = .ok c) (s : Settings) :
    Readable (c.under s).render :=
  ⟨_, result_readChain_render (Chain.under_ne_nil s (result_readChain_eq_ok_iff.1 h).chain_ne_nil)⟩

theorem not_readable_of_error (h : (readChain (.whole t)).result = .error e) : ¬Readable t := by
  rintro ⟨c, hc⟩
  rw [h] at hc
  cases hc

/-- A line that stands for a fault has a blank in it, which no chain has. -/
theorem not_readable_line (k : Diagnostic.Kind) : ¬Readable k.line.toList := fun h =>
  h.not_mem (d := ' ') rfl (by cases k <;> decide)

theorem newline_not_mem_line (k : Diagnostic.Kind) : '\n' ∉ k.line.toList := by
  cases k <;> decide

/-! ## The order of the stages -/

theorem exists_of_loadSettings_error (h : loadSettings o env = .error f) :
    ∃ m, f = .config m := by
  unfold loadSettings at h
  split at h
  · exact ⟨_, (Except.error.inj h).symm⟩
  · cases h

theorem exists_of_sourceText_error (h : sourceText o env = .error f) : ∃ g, f = .io g := by
  unfold sourceText at h
  split at h
  · cases h
  · split at h
    · exact ⟨_, (Except.error.inj h).symm⟩
    · cases h

theorem plan_of_config (h : loadSettings o env = .error f) : plan o env = .error f := by
  rw [plan, h]

theorem plan_of_source (hs : loadSettings o env = .ok s) (h : sourceText o env = .error f) :
    plan o env = .error f := by
  rw [plan, hs]
  simp only [h]

theorem plan_of_text (hs : loadSettings o env = .ok s) (ht : sourceText o env = .ok t) :
    plan o env = resultLine o s t := by
  rw [plan, hs]
  simp only [ht]

theorem resultLine_of_ok (h : (readChain (.whole t)).result = .ok c) :
    resultLine o s t = .ok (c.under s).render := by
  rw [resultLine, process_eq_ok h]

theorem resultLine_of_error (h : (readChain (.whole t)).result = .error e) :
    resultLine o s t = if o.diagnostics then .error (.parse e.diagnostic t)
      else .ok e.diagnostic.kind.line.toList := by
  rw [resultLine, process_eq_error h]
  rfl

/-! ## Writing -/

/-- All that is new is the line, in the place that the options name. -/
def Outcome.Delivers (r : Outcome) (o : Options) (w : World) (line : List Char) : Prop :=
  match o.output with
  | none => r.stdout = line ++ ['\n'] ∧ r.tree = w.tree
  | some path => r.stdout = [] ∧ w.tree.Overwrites r.tree path (Utf8.encode (line ++ ['\n']))

/-- A run that has a line to write does so, or ends with the fault that keeps it from that. -/
def Outcome.Writes (r : Outcome) (o : Options) (w : World) (line : List Char) : Prop :=
  (r.result = .ok () ∧ r.Delivers o w line) ∨
    ∃ g, w.deliver o line = .error g ∧ r.result = .error (.io g)

theorem eq_ok_of_ask {α : Type} {q : Request} {x : Except FileFault α} {a : α}
    (h : w.ask q x = .ok a) : x = .ok a := by
  unfold World.ask at h
  split at h
  · cases h
  · exact h

theorem delivers_of_deliver {p : List Char × FileTree} (h : w.deliver o line = .ok p) :
    Outcome.Delivers ⟨.ok (), p.1, p.2⟩ o w line := by
  unfold World.deliver at h
  unfold Outcome.Delivers
  cases ho : o.output with
  | none =>
    rw [ho] at h
    cases eq_ok_of_ask h
    exact ⟨rfl, rfl⟩
  | some path =>
    rw [ho] at h
    dsimp only at h
    split at h
    · cases h
    · rename_i u hu
      cases h
      exact ⟨rfl, FileTree.overwrites_of_write (eq_ok_of_ask hu)⟩

theorem run_of_error (h : plan o w.environment = .error f) : run o w = ⟨.error f, [], w.tree⟩ := by
  rw [run, h]

theorem run_of_refusal {g : FileFault} (h : plan o w.environment = .ok line)
    (hd : w.deliver o line = .error g) : run o w = ⟨.error (.io g), [], w.tree⟩ := by
  rw [run, h]
  dsimp only
  rw [hd]

theorem run_of_delivery {p : List Char × FileTree} (h : plan o w.environment = .ok line)
    (hd : w.deliver o line = .ok p) : (run o w).result = .ok () ∧ (run o w).Delivers o w line := by
  rw [run, h]
  dsimp only
  rw [hd]
  exact ⟨rfl, delivers_of_deliver hd⟩

theorem run_of_line (h : plan o w.environment = .ok line) : (run o w).Writes o w line := by
  cases hd : w.deliver o line with
  | error g => exact .inr ⟨g, hd, by rw [run_of_refusal h hd]⟩
  | ok p => exact .inl (run_of_delivery h hd)

/-- A run that fails has written nothing. -/
theorem run_eq_of_error (h : (run o w).result = .error f) : run o w = ⟨.error f, [], w.tree⟩ := by
  unfold run at h ⊢
  split at h
  · cases h
    rfl
  · split at h
    · cases h
      rfl
    · cases h

/-! ## From the options to the outcome -/

/-- What a run plans, by how far it gets: to the configuration, to the source, or to the text. -/
inductive PlanOf (o : Options) (env : Environment) : Except Failure (List Char) → Prop
  | config {m : String} (h : loadSettings o env = .error (.config m)) :
    PlanOf o env (.error (.config m))
  | source {s : Settings} {g : FileFault} (hs : loadSettings o env = .ok s)
    (h : sourceText o env = .error (.io g)) : PlanOf o env (.error (.io g))
  | fault {s : Settings} {t : List Char} {e : Fault} (hs : loadSettings o env = .ok s)
    (ht : sourceText o env = .ok t) (h : (readChain (.whole t)).result = .error e)
    (hd : o.diagnostics = true) : PlanOf o env (.error (.parse e.diagnostic t))
  | label {s : Settings} {t : List Char} {e : Fault} (hs : loadSettings o env = .ok s)
    (ht : sourceText o env = .ok t) (h : (readChain (.whole t)).result = .error e)
    (hd : o.diagnostics = false) : PlanOf o env (.ok e.diagnostic.kind.line.toList)
  | chain {s : Settings} {t : List Char} {c : Chain} (hs : loadSettings o env = .ok s)
    (ht : sourceText o env = .ok t) (h : (readChain (.whole t)).result = .ok c) :
    PlanOf o env (.ok (c.under s).render)

theorem planOf_plan (o : Options) (env : Environment) : PlanOf o env (plan o env) := by
  cases hs : loadSettings o env with
  | error f =>
    obtain ⟨m, rfl⟩ := exists_of_loadSettings_error hs
    rw [plan_of_config hs]
    exact .config hs
  | ok s =>
    cases ht : sourceText o env with
    | error f =>
      obtain ⟨g, rfl⟩ := exists_of_sourceText_error ht
      rw [plan_of_source hs ht]
      exact .source hs ht
    | ok t =>
      rw [plan_of_text hs ht]
      cases hc : (readChain (.whole t)).result with
      | ok c =>
        rw [resultLine_of_ok hc]
        exact .chain hs ht hc
      | error e =>
        rw [resultLine_of_error hc]
        split_ifs with hd
        · exact .fault hs ht hc hd
        · exact .label hs ht hc (Bool.eq_false_iff.2 hd)

/-- A planned line is one line, and tells whether the text was read. -/
theorem exists_text_of_plan (h : plan o env = .ok line) :
    ∃ t, sourceText o env = .ok t ∧ '\n' ∉ line ∧ (Readable line ↔ Readable t) := by
  have hp := planOf_plan o env
  rw [h] at hp
  cases hp with
  | label hs ht he hd =>
    exact ⟨_, ht, newline_not_mem_line _,
      iff_of_false (not_readable_line _) (not_readable_of_error he)⟩
  | @chain s t c hs ht hc =>
    have hr := readable_render_under hc s
    exact ⟨_, ht, hr.not_mem rfl, iff_of_true hr ⟨_, hc⟩⟩

theorem plan_eq_parse_iff {d : Diagnostic} :
    plan o env = .error (.parse d t) ↔ (∃ s, loadSettings o env = .ok s) ∧
      sourceText o env = .ok t ∧ (∃ e, (readChain (.whole t)).result = .error e ∧
        e.diagnostic = d) ∧ o.diagnostics = true := by
  constructor
  · intro h
    have hp := planOf_plan o env
    rw [h] at hp
    cases hp with
    | fault hs ht he hd => exact ⟨⟨_, hs⟩, ht, ⟨_, he, rfl⟩, hd⟩
  · rintro ⟨⟨s, hs⟩, ht, ⟨e, he, rfl⟩, hd⟩
    rw [plan_of_text hs ht, resultLine_of_error he, if_pos hd]

/-- A run that fails with a fault of the chain has planned to. -/
theorem result_eq_parse_iff {d : Diagnostic} :
    (run o w).result = .error (.parse d t) ↔ plan o w.environment = .error (.parse d t) := by
  cases h : plan o w.environment with
  | error f => rw [run_of_error h]; simp
  | ok line =>
    obtain ⟨hr, -⟩ | ⟨g, -, hr⟩ := run_of_line h
    · simp [hr]
    · simp [hr]

/-- What holds of the outcome of every run. -/
structure Outcome.AllOrNothing (r : Outcome) (o : Options) (w : World) : Prop where
  /-- A run that fails leaves nothing behind. -/
  failed {f : Failure} (h : r.result = .error f) : r.stdout = [] ∧ r.tree = w.tree
  /-- A run that succeeds leaves one line, which is a chain if and only if the text was. -/
  succeeded (h : r.result = .ok ()) : ∃ t line, sourceText o w.environment = .ok t ∧
    '\n' ∉ line ∧ (Readable line ↔ Readable t) ∧ r.Delivers o w line
  /-- A fault of the configuration comes before everything else. -/
  config {f : Failure} (h : loadSettings o w.environment = .error f) :
    r.result = .error f ∧ ∃ m, f = .config m
  /-- A fault of the source comes before every fault of the chain. -/
  source {s : Settings} {f : Failure} (hs : loadSettings o w.environment = .ok s)
    (h : sourceText o w.environment = .error f) : r.result = .error f ∧ ∃ g, f = .io g
  /-- A fault of the chain is reported just when its diagnostic is wanted. -/
  parse {d : Diagnostic} {t : List Char} : r.result = .error (.parse d t) ↔
    (∃ s, loadSettings o w.environment = .ok s) ∧ sourceText o w.environment = .ok t ∧
      (∃ e, (readChain (.whole t)).result = .error e ∧ e.diagnostic = d) ∧ o.diagnostics = true
  /-- Otherwise the line that stands for its kind is written. -/
  rejected {s : Settings} {t : List Char} {e : Fault} (hs : loadSettings o w.environment = .ok s)
    (ht : sourceText o w.environment = .ok t) (h : (readChain (.whole t)).result = .error e)
    (hd : o.diagnostics = false) : r.Writes o w (match e.diagnostic.kind with
      | .syntactic => "SYNTAX ERROR".toList
      | .typing => "TYPE ERROR".toList)
  /-- The chain of a text that is read is written as the settings ask for it. -/
  accepted {s : Settings} {t : List Char} {c : Chain} (hs : loadSettings o w.environment = .ok s)
    (ht : sourceText o w.environment = .ok t) (h : (readChain (.whole t)).result = .ok c) :
    r.Writes o w (c.under s).render

/-- **Runs are all or nothing.** -/
theorem run_all_or_nothing (o : Options) (w : World) : (run o w).AllOrNothing o w where
  failed h := by
    rw [run_eq_of_error h]
    exact ⟨rfl, rfl⟩
  succeeded h := by
    cases hp : plan o w.environment with
    | error f =>
      rw [run_of_error hp] at h
      cases h
    | ok line =>
      obtain ⟨-, hd⟩ | ⟨g, -, hg⟩ := run_of_line hp
      · obtain ⟨t, ht, hn, hr⟩ := exists_text_of_plan hp
        exact ⟨t, line, ht, hn, hr, hd⟩
      · rw [h] at hg
        cases hg
  config h := by
    rw [run_of_error (plan_of_config h)]
    exact ⟨rfl, exists_of_loadSettings_error h⟩
  source hs h := by
    rw [run_of_error (plan_of_source hs h)]
    exact ⟨rfl, exists_of_sourceText_error h⟩
  parse := result_eq_parse_iff.trans plan_eq_parse_iff
  rejected {_ _ e} hs ht h hd := by
    have hp := plan_of_text hs ht
    rw [resultLine_of_error h, if_neg (Bool.eq_false_iff.1 hd)] at hp
    have hw := run_of_line hp
    cases hk : e.diagnostic.kind with
    | syntactic => rwa [hk] at hw
    | typing => rwa [hk] at hw
  accepted hs ht h := run_of_line ((plan_of_text hs ht).trans (resultLine_of_ok h))

/-- A predicate that is a number, with and without its diagnostic wanted, and a configuration and a
source that both are missing. -/
theorem run_all_or_nothing_type_error :
    let t := "filter\x7belement\x7d"
    let w : World := { decode := Settings.ofText }
    (run { chain := some t } w).stdout = "TYPE ERROR\n".toList ∧
      (∃ d, (run { chain := some t, diagnostics := true } w).result =
        .error (.parse d t.toList)) ∧
      (run { config := some "c", input := some "i" } w).result =
        .error (.config "Missing configuration file: c") := by
  intro t w
  have he : (readChain (.whole t.toList)).result =
      .error (.inBody (.whole t.toList) .filter (.numberAsPredicate ⟨"element".toList, 7⟩)) := by
    decide +kernel
  refine ⟨?_, ⟨_, (run_all_or_nothing { chain := some t, diagnostics := true } w).parse.2
    ⟨⟨_, rfl⟩, rfl, ⟨_, he, rfl⟩, rfl⟩⟩,
    ((run_all_or_nothing { config := some "c", input := some "i" } w).config rfl).1⟩
  obtain ⟨-, hs, -⟩ | ⟨g, hg, -⟩ :=
    (run_all_or_nothing { chain := some t } w).rejected rfl rfl he rfl
  · exact hs
  · cases hg

end MapFilter
