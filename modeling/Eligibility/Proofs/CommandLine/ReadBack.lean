import Eligibility.CommandLine.Run
import Eligibility.Proofs.RoundTrip.JsonText
import Eligibility.Proofs.Service.FlatRule
/-!
# Printed rules on the command line

The commands `compile` and `combine` print a rule as JSON, and `evaluate --ast` reads one from a
file. A rule that was printed and written to a file is read and judged as the rule itself is, or is
no JSON to the reader, which keeps at most 127 objects open (`run_readBack`). The limits of the
settings do not see to that: under the default ones a flat rule of 128 conditions is printed, and
the service judges it, but it is not read from its file (`not_readBack_flatRule`).
-/

namespace Eligibility.CommandLine

open RuleTree (flatRule)

variable {limits : Limits} {file : String → Option String} {vars : Variables}

/-! ## Printing a rule -/

/-- `Prints limits command tree`: the command prints the rule `tree`. -/
inductive Prints (limits : Limits) : Command → RuleTree → Prop
  | compile {rule : String} {tree : RuleTree} (h : Service.compile limits rule = .ok tree) :
    Prints limits (.compile rule) tree
  | combine {operator : String} {rules : List String} {tree : RuleTree}
    (h : Service.combineTexts limits operator rules = .ok tree) :
    Prints limits (.combine operator rules) tree

/-- Whether a command is to print a rule. -/
def Command.isPrinting : Command → Bool
  | .compile _ | .combine .. => true
  | .evaluate .. => false

theorem Prints.admits {command : Command} {tree : RuleTree} (h : Prints limits command tree) :
    limits.Admits tree := by
  cases h with
  | compile h => exact Service.admits_of_compile h
  | combine h => exact Service.admits_of_combineTexts h

theorem Prints.compile_eq {rule : String} {tree : RuleTree}
    (h : Prints limits (.compile rule) tree) : Service.compile limits rule = .ok tree := by
  cases h with
  | compile h => exact h

theorem Outcome.output_ofResult {result : Except CommandFailure Json} {value : Json}
    (h : (ofResult result).output = some value) : result = .ok value := by
  cases result with
  | ok other => exact congrArg Except.ok (Option.some.inj h)
  | error failure => cases failure <;> exact nomatch h

theorem exists_prints_of_perform {command : Command} {printed : Json}
    (hprinting : command.isPrinting = true) (h : perform limits file command = .ok printed) :
    ∃ tree, Prints limits command tree ∧ printed = tree.toJson := by
  cases command with
  | compile rule =>
    obtain ⟨tree, htree, rfl⟩ := Except.map_eq_ok_iff.1 h
    exact ⟨tree, .compile (Except.mapError_eq_ok_iff.1 htree), rfl⟩
  | combine operator rules =>
    obtain ⟨tree, htree, rfl⟩ := Except.map_eq_ok_iff.1 h
    exact ⟨tree, .combine (Except.mapError_eq_ok_iff.1 htree), rfl⟩
  | evaluate source facts explain => exact nomatch hprinting

/-! ## Judging a rule -/

/-- The outcome of the service's judgement of a rule that is at hand. -/
def judged (limits : Limits) (tree : RuleTree) (facts : Facts) : Outcome :=
  .ofResult (((Service.evaluate limits tree facts).mapError .rule).map fun eligible =>
    .object [("eligible", .bool eligible)])

/-- The outcome of a rule that no JSON reader takes. -/
def notJson : Outcome := .failed 2 "INVALID_JSON" none

/-- The service never says of a rule at hand that it is no JSON. -/
theorem judged_ne_notJson (tree : RuleTree) (facts : Facts) :
    judged limits tree facts ≠ notJson := by
  rcases Nat.lt_or_ge limits.maxTreeDepth tree.depth with hdepth | hdepth
  · rw [judged, Service.evaluate_of_lt hdepth]
    simp [Outcome.ofResult, Outcome.failed, notJson, Except.map, Limits.tooDeep, Failure.code]
  · rw [judged, Service.evaluate_of_le hdepth]
    cases tree.evaluate limits.missingPolicy facts with
    | ok eligible => simp [Outcome.ofResult, Outcome.failed, notJson, Except.map]
    | error cause => simp [Outcome.ofResult, Outcome.failed, notJson, Except.map, Failure.code]

/-- An evaluation judges the rule of its source. -/
theorem ofResult_perform_of_ruleOf {source : RuleSource} {tree : RuleTree} {text : String}
    {facts : Facts} (hrule : ruleOf limits file source = .ok tree)
    (hfacts : Facts.read text = .ok facts) :
    .ofResult (perform limits file (.evaluate source text false)) = judged limits tree facts := by
  simp only [perform, hrule, hfacts, Except.ok_bind, Except.mapError_ok, judged]
  cases Service.evaluate limits tree facts <;> rfl

/-- An evaluation fails as the reading of its source does. -/
theorem perform_of_ruleOf_error {source : RuleSource} {failure : CommandFailure} (text : String)
    (hrule : ruleOf limits file source = .error failure) :
    perform limits file (.evaluate source text false) = .error failure := by
  rw [perform, hrule]
  rfl

/-! ## Reading a printed rule -/

section
variable {path text : String} {tree : RuleTree} {facts : Facts}

theorem ofResult_perform_readBack (hfile : file path = some tree.render)
    (hadmits : limits.Admits tree) (hfacts : Facts.read text = .ok facts) :
    .ofResult (perform limits file (.evaluate (.file path) text false)) =
      if tree.depth ≤ Json.nestingLimit then judged limits tree facts else notJson := by
  by_cases hnesting : tree.depth ≤ Json.nestingLimit
  · have hread : Json.read? tree.render = some tree.toJson := by
      rw [RuleTree.read?_render, if_pos hnesting]
    rw [if_pos hnesting]
    rcases Nat.lt_or_ge limits.maxTreeDepth tree.depth with hdepth | hdepth
    · -- the file and the evaluation are refused for the same reason
      have hrule : ruleOf limits file (.file path) = .error (.rule (limits.tooDeep tree)) := by
        simp [ruleOf, hfile, hread, Service.decode_toJson_of_lt hadmits hdepth]
      rw [perform_of_ruleOf_error text hrule, judged, Service.evaluate_of_lt hdepth]
      rfl
    · refine ofResult_perform_of_ruleOf ?_ hfacts
      simp [ruleOf, hfile, hread, Service.decode_toJson_of_le hadmits hdepth]
  · have hread : Json.read? tree.render = none := by
      rw [RuleTree.read?_render, if_neg hnesting]
    have hrule : ruleOf limits file (.file path) = .error (.rule .invalidJson) := by
      simp [ruleOf, hfile, hread]
    rw [if_neg hnesting, perform_of_ruleOf_error text hrule]
    rfl

end

theorem run_of_read {args : List String} {command : Command} (h : read args = .ok command) :
    run args vars file = .ofResult (perform (settingsOf vars file).limits file command) := by
  rw [run, h]

/-! ## Flat rules in a directory without settings -/

/-- The files of a directory that holds a rule and no settings. -/
def ruleFile (content path : String) : Option String :=
  if path = "rule.json" then some content else none

theorem ruleFile_ruleJson (content : String) : ruleFile content "rule.json" = some content := rfl

theorem limits_settingsOf_nil (h : ∀ name, file (configPath [] name) = none) :
    (settingsOf [] file).limits = .default := by
  have hlayer : ∀ name,
      Settings.fileLayer? (fun name => file (configPath [] name)) name = some [] := by
    simp [Settings.fileLayer?, Settings.filesOf, h]
  have hlayers : Settings.layers? serviceName [] (fun name => file (configPath [] name)) =
      some [[("service_name", .text serviceName), ("environment", .text "development")],
        [], [], [], []] := by
    simp only [Settings.layers?, hlayer, List.mapM_cons, List.mapM_nil]
    rfl
  rw [settingsOf, Settings.load?, hlayers]
  decide +kernel

theorem limits_settingsOf_ruleFile (content : String) :
    (settingsOf [] (ruleFile content)).limits = .default := by
  refine limits_settingsOf_nil fun name => if_neg fun h => ?_
  have hchars := congrArg String.toList h
  simp [configPath, Variables.get?] at hchars

theorem Argument.of_eq_plain {known : List Flag} {text : String} {c : Char} {cs : List Char}
    (htext : text.toList = c :: cs) (hdash : c ≠ '-') : Argument.of known text = .plain := by
  unfold Argument.of
  rw [htext]
  split <;> simp_all

/-- A rule that does not start with a dash is compiled as it stands. -/
theorem read_compile {rule : String} {c : Char} {cs : List Char} (hrule : rule.toList = c :: cs)
    (hdash : c ≠ '-') : read ["compile", rule] = .ok (.compile rule) := by
  have hskip : skipLeadingOptions .empty ["compile", rule] = .ok ["compile", rule] := rfl
  have hgiven : readArguments Flag.everywhere (some 1) .empty [rule] = .ok ⟨[], [rule]⟩ := by
    rw [readArguments, Argument.of_eq_plain hrule hdash]
    rfl
  rw [read, hskip]
  simp only [Except.ok_bind, readCompile, hgiven, Except.pure_eq_ok]

theorem read_compile_flatRule (joins : Nat) :
    read ["compile", (flatRule joins).display] = .ok (.compile (flatRule joins).display) := by
  obtain ⟨cs, hcs⟩ := RuleTree.exists_toList_display_flatRule joins
  exact read_compile hcs (by decide)

theorem run_compile_flatRule (joins : Nat) (hlength : 9 * joins + 5 ≤ 4096) (content : String) :
    run ["compile", (flatRule joins).display] [] (ruleFile content) =
      ⟨0, some (flatRule joins).toJson, none⟩ := by
  rw [run_of_read (read_compile_flatRule joins), limits_settingsOf_ruleFile, perform,
    Service.compile_flatRule .default joins hlength rfl]
  rfl

theorem read_evaluateFile : read ["evaluate", "--ast", "rule.json", "--facts", "\x7b\x7d"] =
    .ok (.evaluate (.file "rule.json") "\x7b\x7d" false) := by decide +kernel

theorem read_noFacts : Facts.read "\x7b\x7d" = .ok .empty := by
  have hnumberless : Json.Numberless (.object []) := .object (by simp)
  rw [Facts.read, Json.read?, ← show Json.render (.object []) = "\x7b\x7d" from rfl,
    Json.readWithin?_render hnumberless]
  rfl

/-! ## Printing a rule and reading it back -/

/-- **A printed rule is read back and judged as the rule itself, up to depth 127.** Let a run with
`compile` or `combine` print a value, and let a later run with the same limits evaluate the file
that holds this value, on any facts. The value is that of a rule, and

* the later run ends as the judgement of this rule by the service exactly if the rule has at most
  127 levels; otherwise it fails because the file is no JSON to the reader;
* a run that evaluates the text that was compiled always ends as that judgement. -/
theorem run_readBack (args evalArgs : List String) (vars evalVars : Variables)
    (file evalFile : String → Option String) (command : Command) (printed : Json)
    (path text : String) (facts : Facts) (hread : read args = .ok command)
    (hprinting : command.isPrinting = true) (hprinted : (run args vars file).output = some printed)
    (hevaluate : read evalArgs = .ok (.evaluate (.file path) text false))
    (hlimits : (settingsOf evalVars evalFile).limits = (settingsOf vars file).limits)
    (hfile : evalFile path = some printed.render) (hfacts : Facts.read text = .ok facts) :
    ∃ tree, Prints (settingsOf vars file).limits command tree ∧ printed = tree.toJson ∧
      (run evalArgs evalVars evalFile = judged (settingsOf vars file).limits tree facts ↔
        tree.depth ≤ 127) ∧
      (127 < tree.depth → run evalArgs evalVars evalFile = .failed 2 "INVALID_JSON" none) ∧
      ∀ rule textArgs, command = .compile rule →
        read textArgs = .ok (.evaluate (.text rule) text false) →
          run textArgs vars file = judged (settingsOf vars file).limits tree facts := by
  rw [run_of_read hread] at hprinted
  obtain ⟨tree, hprints, rfl⟩ :=
    exists_prints_of_perform hprinting (Outcome.output_ofResult hprinted)
  have hrun := ofResult_perform_readBack hfile hprints.admits hfacts
  rw [← hlimits] at hprints ⊢
  rw [← hlimits, ← run_of_read hevaluate, Json.nestingLimit] at hrun
  refine ⟨tree, hprints, rfl, ⟨fun h => ?_, fun h => ?_⟩, fun h => ?_, ?_⟩
  · refine Decidable.byContradiction fun hdepth => ?_
    rw [hrun, if_neg hdepth] at h
    exact judged_ne_notJson _ _ h.symm
  · rw [hrun, if_pos h]
  · rw [hrun, if_neg (Nat.not_le.2 h), notJson]
  · rintro rule textArgs rfl htext
    cases hprints with
    | compile hcompile =>
      rw [run_of_read htext, ← hlimits]
      refine ofResult_perform_of_ruleOf ?_ hfacts
      rw [ruleOf, hcompile, Except.mapError_ok]

/-- A flat rule of 127 conditions is printed and read back. -/
theorem run_readBack_flatRule :
    (run ["compile", (flatRule 126).display] [] (ruleFile (flatRule 126).render)).output =
        some (flatRule 126).toJson ∧
      run ["evaluate", "--ast", "rule.json", "--facts", "\x7b\x7d"] []
          (ruleFile (flatRule 126).render) = judged .default (flatRule 126) .empty := by
  have hprinted := congrArg Outcome.output
    (run_compile_flatRule 126 (by decide) (flatRule 126).render)
  obtain ⟨tree, hprints, -, hback, -⟩ := run_readBack _ _ [] [] _ _ _ _ _ _ _
    (read_compile_flatRule 126) rfl hprinted read_evaluateFile rfl
    (ruleFile_ruleJson _) read_noFacts
  rw [limits_settingsOf_ruleFile] at hprints hback
  obtain rfl := Except.ok.inj
    (hprints.compile_eq.symm.trans (Service.compile_flatRule .default 126 (by decide) rfl))
  exact ⟨hprinted, hback.2 (Nat.le_of_eq (RuleTree.depth_flatRule 126))⟩

/-- **Not every printed rule is read back**: a flat rule of 128 conditions is printed under the
default limits, and the file with what was printed is no JSON to the reader, although the service
judges the rule itself. -/
theorem not_readBack_flatRule :
    run ["compile", (flatRule 127).display] [] (ruleFile (flatRule 127).render) =
        ⟨0, some (flatRule 127).toJson, none⟩ ∧
      run ["evaluate", "--ast", "rule.json", "--facts", "\x7b\x7d"] []
          (ruleFile (flatRule 127).render) = .failed 2 "INVALID_JSON" none ∧
      judged .default (flatRule 127) .empty =
        ⟨0, some (.object [("eligible", .bool false)]), none⟩ := by
  refine ⟨run_compile_flatRule 127 (by decide) _, ?_, ?_⟩
  · have hadmits := Service.admits_of_compile
      (Service.compile_flatRule .default 127 (by decide) rfl)
    rw [run_of_read read_evaluateFile, limits_settingsOf_ruleFile,
      ofResult_perform_readBack (ruleFile_ruleJson _) hadmits read_noFacts,
      RuleTree.depth_flatRule, if_neg (by decide), notJson]
  · rw [judged, Service.evaluate_of_le (by rw [RuleTree.depth_flatRule]; decide)]
    have hmissing : Limits.default.missingPolicy = .noMatch := rfl
    rw [hmissing, RuleTree.evaluate_flatRule]
    rfl

end Eligibility.CommandLine
