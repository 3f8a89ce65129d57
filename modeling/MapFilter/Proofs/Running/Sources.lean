import MapFilter.Proofs.Running.Outcome

/-!
# Sources that do not matter

A run takes its configuration from one place and its text from one place. Two worlds that agree on
these two, and on whether the output can be written, are the same to it, whatever else they hold.

* `World.Alike`, `World.SameConfig`: two worlds that agree on what a run looks at;
* `settingsIn_congr`, `World.SameConfig.loadSettings_eq`, `World.Alike.sourceText_eq`: the stages of
  a run;
* `SameOutcome`, `sameOutcome_of_plan`: two runs with one plan;
* **`sameOutcome_of_alike`**: no other source has a part in the outcome.
-/

namespace MapFilter

open CommandLine

variable {o : Options} {env env' : Environment} {w v : World} {s : Settings}

/-! ## Two worlds -/

/-- The worlds agree on the file that is named for the text, on the standard input if the text comes
from there, and on what can be written. -/
structure World.Alike (o : Options) (w v : World) : Prop where
  file {path : String} (hc : o.chain = none) (hi : o.input = some path) :
    w.environment.read path = v.environment.read path
  input (hc : o.chain = none) (hi : o.input = none) : w.environment.input = v.environment.input
  write (line : List Char) (g : FileFault) :
    w.deliver o line = .error g ↔ v.deliver o line = .error g

/-- The worlds agree on the configuration, as far as it is looked at. -/
inductive World.SameConfig (o : Options) (w v : World) : Prop
  /-- They agree on the file named on the command line, and decode it alike. -/
  | named {path : String} (h : o.config = some path)
    (hr : w.environment.read path = v.environment.read path) (hd : w.decode = v.decode)
  /-- They agree on the file of the project, which is there in both. -/
  | project (h : o.config = none) (hw : w.environment.isFile projectConfig)
    (hv : v.environment.isFile projectConfig)
    (hr : w.environment.read projectConfig = v.environment.read projectConfig)
    (hd : w.decode = v.decode)
  /-- They agree on the file of the platform, since the project has none. -/
  | platform (h : o.config = none) (hw : w.environment.isFile projectConfig = false)
    (hv : v.environment.isFile projectConfig = false)
    (hp : w.environment.platform = v.environment.platform) (hd : w.decode = v.decode)
  /-- The command line forbids refactoring, and some configuration loads in each. -/
  | overruled {s s' : Settings} (h : o.noRefactor) (hw : loadSettings o w.environment = .ok s)
    (hv : loadSettings o v.environment = .ok s')

/-! ## The stages of a run -/

theorem loadSettings_congr
    (h : (locate o.config env).settings env = (locate o.config env').settings env') :
    loadSettings o env = loadSettings o env' := by
  rw [loadSettings, h, loadSettings]

/-- The command line has the last word. -/
theorem loadSettings_of_noRefactor (ho : o.noRefactor) (h : loadSettings o env = .ok s) :
    s = { refactor := false } := by
  unfold loadSettings at h
  split at h
  · cases h
  · rw [if_pos ho] at h
    exact (Except.ok.inj h).symm

/-- What is in a configuration file depends on how it is decoded, and not on the world around it. -/
theorem settingsIn_congr (h : env.decode = env'.decode) (path : String)
    (content : Except FileFault (List UInt8)) :
    env.settingsIn path content = env'.settingsIn path content := by
  rw [Environment.settingsIn, h, Environment.settingsIn]

theorem World.SameConfig.loadSettings_eq (h : World.SameConfig o w v) :
    loadSettings o w.environment = loadSettings o v.environment := by
  cases h with
  | named h hr hd =>
    refine loadSettings_congr ?_
    rw [h]
    simp only [locate, ConfigSource.settings, hr]
    exact settingsIn_congr hd _ _
  | project h hw hv hr hd =>
    refine loadSettings_congr ?_
    rw [h]
    simp only [locate, hw, hv, if_true, ConfigSource.settings, hr]
    exact settingsIn_congr hd _ _
  | platform h hw hv hp hd =>
    refine loadSettings_congr ?_
    rw [h]
    simp only [locate, hw, hv, hp]
    cases v.environment.platform with
    | none => rfl
    | some p => exact settingsIn_congr hd _ _
  | overruled h hw hv =>
    rw [hw, hv, loadSettings_of_noRefactor h hw, loadSettings_of_noRefactor h hv]

theorem World.Alike.sourceText_eq (h : World.Alike o w v) :
    sourceText o w.environment = sourceText o v.environment := by
  unfold sourceText
  cases hc : o.chain with
  | some chain => rfl
  | none =>
    cases hi : o.input with
    | some path =>
      dsimp only [Option.elim]
      rw [h.file hc hi]
    | none =>
      dsimp only [Option.elim]
      rw [h.input hc hi]

/-! ## Two runs -/

/-- The two runs fail alike and leave nothing behind, or succeed and leave the same line behind. -/
def SameOutcome (o : Options) (w v : World) : Prop :=
  (∃ f, run o w = ⟨.error f, [], w.tree⟩ ∧ run o v = ⟨.error f, [], v.tree⟩) ∨
    ∃ line, ((run o w).result = .ok () ∧ (run o w).Delivers o w line) ∧
      (run o v).result = .ok () ∧ (run o v).Delivers o v line

theorem sameOutcome_of_plan (ha : World.Alike o w v)
    (h : plan o w.environment = plan o v.environment) : SameOutcome o w v := by
  cases hp : plan o v.environment with
  | error f => exact .inl ⟨f, run_of_error (h.trans hp), run_of_error hp⟩
  | ok line =>
    cases hd : v.deliver o line with
    | error g =>
      have hw := (ha.write line g).2 hd
      exact .inl ⟨_, run_of_refusal (h.trans hp) hw, run_of_refusal hp hd⟩
    | ok q =>
      cases hw : w.deliver o line with
      | error g => cases ((ha.write line g).1 hw).symm.trans hd
      | ok p => exact .inr ⟨line, run_of_delivery (h.trans hp) hw, run_of_delivery hp hd⟩

/-- **No other source has a part in the outcome.** Worlds that agree on the source of the text, on
the configuration and on what can be written give the same outcome. When the command line forbids
refactoring, every configuration that loads will do, and the line for a text that is read is the
plain one. -/
theorem sameOutcome_of_alike (ha : World.Alike o w v) (hc : World.SameConfig o w v) :
    SameOutcome o w v ∧
      (o.noRefactor → ∀ s t c, loadSettings o w.environment = .ok s →
        sourceText o w.environment = .ok t → (readChain (.whole t)).verdict = .ok c →
          (run o w).Writes o w c.render) := by
  refine ⟨sameOutcome_of_plan ha ?_, fun ho s t c hs ht hr => run_of_line ?_⟩
  · rw [plan, plan, hc.loadSettings_eq, ha.sourceText_eq]
  · rw [plan_of_text hs ht, resultLine_of_ok (Reading.verdict_eq_ok_iff.1 hr),
      loadSettings_of_noRefactor ho hs]
    rfl

/-- With a configuration named on the command line, files of the project and of the platform that
are no text and a standard input that is none do not matter. -/
theorem sameOutcome_of_alike_named :
    let o : Options := {
      chain := some "map\x7belement\x7d"
      config := some "c"
      noRefactor := true }
    let w : World := { tree := .ofEntries [("c", [])] [], decode := Settings.ofText }
    let v : World := {
      tree := .ofEntries [("c", []), (projectConfig, [0xff])] []
      platform := some ("p", [0xff])
      input := [0xff]
      decode := Settings.ofText }
    SameOutcome o w v ∧ (run o w).Writes o w "map\x7belement\x7d".toList := by
  intro o w v
  have ha : World.Alike o w v := ⟨by rintro path ⟨⟩, by rintro ⟨⟩, fun line g => by
    simp [World.deliver, World.ask, o, w, v]⟩
  have hc : World.SameConfig o w v := .named rfl rfl rfl
  have hr : (readChain (.whole "map\x7belement\x7d".toList)).verdict = .ok [Call.noOpMap] :=
    Reading.verdict_eq_ok_iff.2 (result_readChain_eq_ok_iff.2 (.single (.map .element)))
  have hs : loadSettings o w.environment = .ok { refactor := false } := by decide +kernel
  obtain ⟨hsame, hplain⟩ := sameOutcome_of_alike ha hc
  exact ⟨hsame, hplain rfl _ _ _ hs rfl hr⟩

end MapFilter
