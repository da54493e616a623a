import Eligibility.Proofs.Service.Admission
import Eligibility.Proofs.Text.ByteOrder
/-!
# What the limits take away from compiling

A service compiles what the language compiles, cut down by its limits. As long as a text is admitted
(`Limits.AdmitsText`) the service goes the way of `RuleTree.compile` and then looks at the fields
(`compile_of_admitsText`); a text that is not admitted fails for its length or for its nesting
(`compile_of_not_admitsText`). What the service answers in any case can be read off these two.

Of several fields that are not allowed, the one with the smallest bytes is reported
(`Limits.FirstBarred`), wherever it stands in the rule. A service with looser limits admits what a
stricter one does (`Limits.Loosens`).
-/

namespace Eligibility

open Text

namespace Limits

variable {limits looser : Limits} {text : String} {fields : List String} {field : String}
  {tree : RuleTree}

theorem checkNesting_of_lt {tokens : List Token}
    (h : limits.maxNestingDepth < Token.nestingDepth tokens) : limits.checkNesting tokens =
      .error (.nestingTooDeep (Token.nestingDepth tokens) limits.maxNestingDepth) :=
  if_pos h

theorem checkFields_eq_ok_iff_fields :
    limits.checkFields tree = .ok () ↔ ∀ field ∈ tree.fields, limits.allows field = true := by
  simp [checkFields_eq_ok_iff, RuleTree.mem_fields]

/-! ## Texts -/

/-- A text is short enough, and its tokens, if it has any, nest no deeper than they may. -/
structure AdmitsText (limits : Limits) (text : String) : Prop where
  length_le : text.utf8ByteSize ≤ limits.maxRuleLength
  nesting_le : ∀ tokens, Token.scan text = .ok tokens →
    Token.nestingDepth tokens ≤ limits.maxNestingDepth

theorem admitsText_iff : limits.AdmitsText text ↔ text.utf8ByteSize ≤ limits.maxRuleLength ∧
    ∀ tokens ∈ (Token.scan text).toOption,
      Token.nestingDepth tokens ≤ limits.maxNestingDepth := by
  simp only [Except.mem_toOption_iff]
  exact ⟨fun h => ⟨h.length_le, h.nesting_le⟩, fun h => ⟨h.1, h.2⟩⟩

instance (limits : Limits) (text : String) : Decidable (limits.AdmitsText text) :=
  decidable_of_iff _ admitsText_iff.symm

/-! ## Fields -/

/-- Of some fields, this is the one with the smallest bytes that a service does not allow. -/
structure FirstBarred (limits : Limits) (fields : List String) (field : String) : Prop where
  mem : field ∈ fields
  barred : limits.allows field = false
  least : ∀ other ∈ fields, limits.allows other = false → field = other ∨ utf8 field < utf8 other

theorem FirstBarred.unique {other : String} (h : limits.FirstBarred fields field)
    (h' : limits.FirstBarred fields other) : field = other := by
  obtain heq | hlt := h.least other h'.mem h'.barred
  · exact heq
  · obtain heq | hgt := h'.least field h.mem h.barred
    · exact heq.symm
    · exact absurd hgt (List.lt_asymm hlt)

/-- Only the set of the fields matters. -/
theorem FirstBarred.congr {fields' : List String}
    (hfields : ∀ other, other ∈ fields ↔ other ∈ fields')
    (h : limits.FirstBarred fields field) : limits.FirstBarred fields' field where
  mem := (hfields field).1 h.mem
  barred := h.barred
  least other hother := h.least other ((hfields other).2 hother)

theorem firstBarred_of_find? (hsorted : fields.Pairwise (· < ·))
    (h : (fields.find? fun field => !limits.allows field) = some field) :
    limits.FirstBarred fields field := by
  obtain ⟨hbarred, before, after, rfl, hbefore⟩ := List.find?_eq_some_iff_append.1 h
  refine ⟨by simp, by simpa using hbarred, fun other hother hother' => ?_⟩
  obtain hother | hother := List.mem_append.1 hother
  · have hallowed := hbefore other hother
    simp [hother'] at hallowed
  · obtain rfl | hother := List.mem_cons.1 hother
    · exact .inl rfl
    · have hafter := List.rel_of_pairwise_cons (List.pairwise_append.1 hsorted).2.1 hother
      exact .inr (lt_iff_utf8_lt.1 hafter)

/-- **The field that is reported** is the first one that is not allowed. -/
theorem checkFields_eq_error_iff {cause : ValidationError} :
    limits.checkFields tree = .error cause ↔
      ∃ field, limits.FirstBarred tree.fields field ∧ cause = .unknownAttribute field := by
  unfold checkFields
  split
  · rename_i found hfound
    have hfirst := firstBarred_of_find? tree.pairwise_fields hfound
    constructor
    · intro h
      exact ⟨found, hfirst, (Except.error.inj h).symm⟩
    · rintro ⟨field, hfield, rfl⟩
      rw [hfirst.unique hfield]
  · rename_i hnone
    constructor
    · intro h
      cases h
    · rintro ⟨field, hfield, -⟩
      have hallowed := List.find?_eq_none.1 hnone field hfield.mem
      simp [hfield.barred] at hallowed

/-! ## Looser limits -/

/-- `limits.Loosens looser`: the second limits refuse no text and no field that the first accept. -/
structure Loosens (limits looser : Limits) : Prop where
  length_le : limits.maxRuleLength ≤ looser.maxRuleLength
  nesting_le : limits.maxNestingDepth ≤ looser.maxNestingDepth
  allows : ∀ field, limits.allows field = true → looser.allows field = true

theorem AdmitsText.loosen (h : limits.AdmitsText text) (hloose : limits.Loosens looser) :
    looser.AdmitsText text where
  length_le := Nat.le_trans h.length_le hloose.length_le
  nesting_le tokens hscan := Nat.le_trans (h.nesting_le tokens hscan) hloose.nesting_le

end Limits

namespace Service

variable {limits looser : Limits} {text : String} {tree : RuleTree} {field : String}

/-- **A text that is admitted** is compiled as the language does it, and then its fields are
looked at. -/
theorem compile_of_admitsText (h : limits.AdmitsText text) :
    compile limits text = do
      let tree ← (RuleTree.compile text).mapError .parse
      (limits.checkFields tree).mapError .validation
      return tree := by
  rw [compile, Limits.checkLength_eq_ok_iff.2 h.length_le, RuleTree.compile]
  cases hscan : Token.scan text with
  | error cause => rfl
  | ok tokens =>
    have hnesting := Limits.checkNesting_eq_ok_iff.2 (h.nesting_le tokens hscan)
    simp only [Except.mapError_ok, Except.ok_bind, hnesting]

/-- A text that is not admitted is too long, or else it nests too deep. -/
theorem compile_of_not_admitsText (h : ¬ limits.AdmitsText text) :
    compile limits text =
        .error (.validation (.ruleTooLong text.utf8ByteSize limits.maxRuleLength)) ∨
      ∃ depth, compile limits text =
        .error (.validation (.nestingTooDeep depth limits.maxNestingDepth)) := by
  by_cases hlength : text.utf8ByteSize ≤ limits.maxRuleLength
  · have hnesting : ∃ tokens, Token.scan text = .ok tokens ∧
        limits.maxNestingDepth < Token.nestingDepth tokens := by
      refine Classical.byContradiction fun hnone => h ⟨hlength, fun tokens hscan => ?_⟩
      exact Nat.le_of_not_lt fun hlt => hnone ⟨tokens, hscan, hlt⟩
    obtain ⟨tokens, hscan, hlt⟩ := hnesting
    refine .inr ⟨Token.nestingDepth tokens, ?_⟩
    have hcheck := Limits.checkNesting_of_lt hlt
    simp only [compile, Limits.checkLength_eq_ok_iff.2 hlength, hscan, hcheck, Except.mapError_ok,
      Except.mapError_error, Except.ok_bind, Except.error_bind]
  · refine .inl ?_
    rw [compile, Limits.checkLength, if_pos (Nat.lt_of_not_le hlength)]
    rfl

/-- A text with any other outcome is admitted. -/
theorem admitsText_of_outcome
    (h : ∀ cause, compile limits text = .error (.validation cause) →
      ∃ field, cause = .unknownAttribute field) : limits.AdmitsText text := by
  refine Classical.byContradiction fun hnot => ?_
  obtain hlong | ⟨depth, hdeep⟩ := compile_of_not_admitsText hnot
  · obtain ⟨field, hcause⟩ := h _ hlong
    cases hcause
  · obtain ⟨field, hcause⟩ := h _ hdeep
    cases hcause

/-- **The rules that a service compiles.** -/
theorem compile_eq_ok_iff_core : compile limits text = .ok tree ↔
    RuleTree.compile text = .ok tree ∧ limits.AdmitsText text ∧
      ∀ field ∈ tree.fields, limits.allows field = true := by
  constructor
  · intro h
    have hadmits : limits.AdmitsText text := admitsText_of_outcome (by simp [h])
    rw [compile_of_admitsText hadmits] at h
    obtain ⟨hread, hfields⟩ := by simpa using h
    exact ⟨hread, hadmits, Limits.checkFields_eq_ok_iff_fields.1 hfields⟩
  · rintro ⟨hread, hadmits, hallowed⟩
    simp [compile_of_admitsText hadmits, hread, Limits.checkFields_eq_ok_iff_fields.2 hallowed]

/-- **A text that the language refuses** is refused for the same reason, if it is admitted. -/
theorem compile_of_core_error {cause : ParseError} (h : limits.AdmitsText text)
    (herror : RuleTree.compile text = .error cause) :
    compile limits text = .error (.parse cause) := by
  rw [compile_of_admitsText h, herror]
  rfl

/-- **The field that a service reports** is the first of the fields of the rule, by their bytes,
that it does not allow. -/
theorem compile_eq_unknownAttribute_iff :
    compile limits text = .error (.validation (.unknownAttribute field)) ↔
      limits.AdmitsText text ∧ ∃ tree, RuleTree.compile text = .ok tree ∧
        limits.FirstBarred tree.fields field := by
  constructor
  · intro h
    have hadmits : limits.AdmitsText text := admitsText_of_outcome (by simp [h])
    rw [compile_of_admitsText hadmits] at h
    cases hread : RuleTree.compile text with
    | error cause => simp [hread] at h
    | ok tree =>
      cases hcheck : limits.checkFields tree with
      | ok => simp [hread, hcheck] at h
      | error cause =>
        obtain ⟨reported, hfirst, rfl⟩ := Limits.checkFields_eq_error_iff.1 hcheck
        obtain rfl : reported = field := by simpa [hread, hcheck] using h
        exact ⟨hadmits, tree, rfl, hfirst⟩
  · rintro ⟨hadmits, tree, hread, hfirst⟩
    have hcheck := Limits.checkFields_eq_error_iff.2 ⟨field, hfirst, rfl⟩
    simp [compile_of_admitsText hadmits, hread, hcheck]

/-- **A service compiles what the language compiles**, cut down by its limits, and to the same
rules. An admitted text that is no rule fails as it does in the language. Of the fields that are not
allowed the first by its bytes is reported, so that rules with the same fields are reported alike.
And looser limits take nothing away. -/
theorem compile_cut_down (limits : Limits) (text : String) :
    (∀ tree, compile limits text = .ok tree ↔ RuleTree.compile text = .ok tree ∧
      limits.AdmitsText text ∧ ∀ field ∈ tree.fields, limits.allows field = true) ∧
    (∀ cause, limits.AdmitsText text → RuleTree.compile text = .error cause →
      compile limits text = .error (.parse cause)) ∧
    (∀ field, compile limits text = .error (.validation (.unknownAttribute field)) ↔
      limits.AdmitsText text ∧ ∃ tree, RuleTree.compile text = .ok tree ∧
        limits.FirstBarred tree.fields field) ∧
    (∀ other tree tree', limits.AdmitsText text → limits.AdmitsText other →
      RuleTree.compile text = .ok tree → RuleTree.compile other = .ok tree' →
        (∀ field, field ∈ tree.fields ↔ field ∈ tree'.fields) → ∀ field,
          compile limits text = .error (.validation (.unknownAttribute field)) ↔
            compile limits other = .error (.validation (.unknownAttribute field))) ∧
    ∀ looser, limits.Loosens looser → ∀ tree, compile limits text = .ok tree →
      compile looser text = .ok tree := by
  refine ⟨fun tree => compile_eq_ok_iff_core, fun cause => compile_of_core_error,
    fun field => compile_eq_unknownAttribute_iff,
    fun other tree tree' hadmits hadmits' hread hread' hfields field => ?_,
    fun looser hloose tree h => ?_⟩
  · simp only [compile_eq_unknownAttribute_iff, hadmits, hadmits', hread, hread', true_and,
      Except.ok.injEq, exists_eq_left']
    exact ⟨.congr hfields, .congr fun other => (hfields other).symm⟩
  · obtain ⟨hread, hadmits, hallowed⟩ := compile_eq_ok_iff_core.1 h
    exact compile_eq_ok_iff_core.2
      ⟨hread, hadmits.loosen hloose,
        fun field hfield => hloose.allows field (hallowed field hfield)⟩

/-- The limits of a service that allows the field `a` and one level of parentheses in 24 bytes. -/
def narrowLimits : Limits := ⟨24, 1, 256, ["a"], false⟩

/-- Under narrow limits one rule is compiled, as it is under looser ones; a text that stops short
is reported as such; and of the fields `é` and `b` the second is reported, in whatever rule they
are. -/
theorem compile_cut_down_narrow :
    let tree : RuleTree :=
      .join .or (.condition ⟨"a", .greater, .bare "1"⟩) (.condition ⟨"a", .less, .bare "0"⟩)
    compile narrowLimits "(a > 1) OR a < 0" = .ok tree ∧
      compile .default "(a > 1) OR a < 0" = .ok tree ∧
      compile narrowLimits "a > 1 OR" = .error (.parse (.missingOperand 8)) ∧
      compile narrowLimits "é > 1 OR b > 1" = .error (.validation (.unknownAttribute "b")) ∧
      compile narrowLimits "b = '' AND (é < 2)" = .error (.validation (.unknownAttribute "b")) := by
  intro tree
  have hloose : narrowLimits.Loosens .default := ⟨by decide, by decide, fun _ _ => rfl⟩
  obtain ⟨hok, -, -, -, hlooser⟩ := compile_cut_down narrowLimits "(a > 1) OR a < 0"
  have hcompiled := (hok tree).2 ⟨by decide +kernel, by decide +kernel, by decide +kernel⟩
  obtain ⟨-, herror, -⟩ := compile_cut_down narrowLimits "a > 1 OR"
  obtain ⟨-, -, hunknown, hshape, -⟩ := compile_cut_down narrowLimits "é > 1 OR b > 1"
  have hadmits : narrowLimits.AdmitsText "é > 1 OR b > 1" := by decide +kernel
  have hread : RuleTree.compile "é > 1 OR b > 1" = .ok (.join .or
      (.condition ⟨"é", .greater, .bare "1"⟩) (.condition ⟨"b", .greater, .bare "1"⟩)) := by
    decide +kernel
  have hread' : RuleTree.compile "b = '' AND (é < 2)" = .ok (.join .and
      (.condition ⟨"b", .equal, .quoted ""⟩) (.condition ⟨"é", .less, .bare "2"⟩)) := by
    decide +kernel
  have hreported := (hunknown "b").2
    ⟨hadmits, _, hread, by decide +kernel, by decide +kernel, by decide +kernel⟩
  refine ⟨hcompiled, hlooser _ hloose tree hcompiled,
    herror _ (by decide +kernel) (by decide +kernel), hreported, ?_⟩
  exact (hshape _ _ _ hadmits (by decide +kernel) hread hread' (fun _ => Iff.rfl) "b").1 hreported

end Service

end Eligibility
