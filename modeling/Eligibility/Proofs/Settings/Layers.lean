import Eligibility.Proofs.Settings.Edits
/-!
# Settings loaded from layers

A setting that is loaded is the one that the last layer to set its key gives it, and its default if
no layer does (`DecidedBy`, `load?_decidedBy`). A setting that is a list is decided so if the last
layer that sets it addresses none of its items, and not otherwise (`allowedAttributes_itemFile`).

A layer is a map: `load?` takes its entries in the order of the file, and `Loads` in any order.
-/

namespace Eligibility

namespace Settings

open Setting

/-! ## Loading -/

/-- The layers that set sections: the files and the variables. -/
def sources? (service : String) (vars : Variables) (file : String → Option String) :
    Option (List Layer) := do
  let files ← ["default", environmentOf vars, service].mapM (fileLayer? file)
  return files ++ [variableLayer vars]

/-- The value of a setting by what it is given: as its reader takes it, and a default without. -/
def orDefault {α : Type} (reader : Setting → Option α) (default : α) : Option Setting → Option α
  | some value => reader value
  | none => some default

/-- What settings are when the last layer that sets a key decides each of them. -/
structure DecidedBy (settings : Settings) (layers : List Layer) : Prop where
  maxRuleLength : orDefault toNatural? default.limits.maxRuleLength
    (lastGiven "engine" "max_rule_length" layers) = some settings.limits.maxRuleLength
  maxNestingDepth : orDefault toNatural? default.limits.maxNestingDepth
    (lastGiven "engine" "max_nesting_depth" layers) = some settings.limits.maxNestingDepth
  maxTreeDepth : orDefault toNatural? default.limits.maxTreeDepth
    (lastGiven "engine" "max_tree_depth" layers) = some settings.limits.maxTreeDepth
  /-- The list is decided by a layer that addresses none of its items. -/
  allowedAttributes :
    (∀ layer, lastSetter "engine" "allowed_attributes" layers = some layer →
      ∀ entry ∈ layer, addressesItem "engine" "allowed_attributes" entry = false) →
    orDefault toTexts? default.limits.allowedAttributes
      (lastGiven "engine" "allowed_attributes" layers) = some settings.limits.allowedAttributes
  strictMissingFields : orDefault toBool? default.limits.strictMissingFields
    (lastGiven "engine" "strict_missing_fields" layers) = some settings.limits.strictMissingFields
  serviceName : orDefault toText? default.logging.serviceName
    (lastGiven "observability" "service_name" layers) = some settings.logging.serviceName
  level : orDefault toText? default.logging.level
    (lastGiven "observability" "log_level" layers) = some settings.logging.level
  json : orDefault toBool? default.logging.json
    (lastGiven "observability" "json_logs" layers) = some settings.logging.json

section

variable {α : Type} {reader : Setting → Option α} {default value : α} {sectionName key : String}
variable {base : Setting} {layers : List Layer} {settings : Settings}

theorem read?_eq_orDefault (reader : Setting → Option α) (default : α) (key : String)
    (members : List (String × Setting)) :
    read? reader default key members = orDefault reader default (lookup key members) := by
  rw [read?]
  cases lookup key members <;> rfl

/-- A setting of a plain value is decided by the last layer that sets its key, and so is one of
another value if this layer addresses no item at the key. -/
theorem orDefault_lastGiven
    (h : ∀ layer ∈ layers, ∀ entry ∈ layer, givesTable sectionName entry = true)
    (hbase : valueAt sectionName key base = none)
    (htable : ∀ members, reader (.table members) = none)
    (hitem : ∀ items layer, reader (.list items) ≠ none →
      lastSetter sectionName key layers = some layer →
      ∀ entry ∈ layer, addressesItem sectionName key entry = false)
    (hvalue : orDefault reader default (valueAt sectionName key (layers.foldl addLayer base)) =
      some value) :
    orDefault reader default (lastGiven sectionName key layers) = some value := by
  rw [← valueAt_eq_lastGiven h hbase (fun members heq => ?_) fun items layer heq => ?_]
  · exact hvalue
  · rw [heq, orDefault, htable] at hvalue
    cases hvalue
  · refine hitem items layer ?_
    rw [heq, orDefault] at hvalue
    rw [hvalue]
    exact Option.some_ne_none value

theorem hasTable_foldl_addLayer
    (h : ∀ layer ∈ layers, ∀ entry ∈ layer, givesTable sectionName entry = true)
    (hbase : hasTable sectionName base = true) :
    hasTable sectionName (layers.foldl addLayer base) = true := by
  induction layers generalizing base with
  | nil => exact hbase
  | cons layer rest ih =>
    obtain ⟨hlayer, hrest⟩ := List.forall_mem_cons.1 h
    exact ih hrest (hasTable_addLayer hlayer hbase)

/-- A setting of a section that is a table or not there. -/
theorem orDefault_valueAt {β : Type} {sectionReader : Setting → Option β} {sectionDefault part : β}
    (field : β → α) (htable : hasTable sectionName base = true)
    (hfield : ∀ fields, sectionReader (.table fields) = some part →
      read? reader (field sectionDefault) key fields = some (field part))
    (h : orDefault sectionReader sectionDefault (lookup sectionName base.members) = some part) :
    orDefault reader (field sectionDefault) (valueAt sectionName key base) = some (field part) := by
  rw [hasTable] at htable
  rw [valueAt]
  split at htable
  next hnone =>
    rw [hnone] at h ⊢
    exact congrArg (some ∘ field) (Option.some.inj h)
  next fields hfields =>
    rw [hfields] at h ⊢
    rw [Option.bind_some, Setting.members, ← read?_eq_orDefault]
    exact hfield fields h
  next => cases htable

theorem read?_of_limits {fields : List (String × Setting)} {limits : Limits}
    (h : Limits.ofSetting? (.table fields) = some limits) :
    read? toNatural? 4096 "max_rule_length" fields = some limits.maxRuleLength ∧
    read? toNatural? 32 "max_nesting_depth" fields = some limits.maxNestingDepth ∧
    read? toNatural? 256 "max_tree_depth" fields = some limits.maxTreeDepth ∧
    read? toTexts? [] "allowed_attributes" fields = some limits.allowedAttributes ∧
    read? toBool? false "strict_missing_fields" fields = some limits.strictMissingFields := by
  simp only [Limits.ofSetting?, fields?, Option.bind_eq_bind, Option.bind_some,
    Option.bind_eq_some_iff] at h
  obtain ⟨_, hlength, _, hnesting, _, hdepth, _, hallowed, _, hstrict, h⟩ := h
  cases h
  exact ⟨hlength, hnesting, hdepth, hallowed, hstrict⟩

theorem read?_of_logging {fields : List (String × Setting)} {logging : LogSettings}
    (h : LogSettings.ofSetting? (.table fields) = some logging) :
    read? toText? "unknown-service" "service_name" fields = some logging.serviceName ∧
    read? toText? LogSettings.defaultLevel "log_level" fields = some logging.level ∧
    read? toBool? false "json_logs" fields = some logging.json := by
  simp only [LogSettings.ofSetting?, fields?, Option.bind_eq_bind, Option.bind_some,
    Option.bind_eq_some_iff] at h
  obtain ⟨_, hname, _, hlevel, _, hjson, h⟩ := h
  cases h
  exact ⟨hname, hlevel, hjson⟩

/-- The sections of settings are read from a table. -/
theorem sections_of_ofMembers? {members : List (String × Setting)}
    (h : ofMembers? members = some settings) :
    orDefault Limits.ofSetting? Settings.default.limits (lookup "engine" members) =
        some settings.limits ∧
      orDefault LogSettings.ofSetting? Settings.default.logging (lookup "observability" members) =
        some settings.logging := by
  simp only [ofMembers?, Option.bind_eq_bind, Option.bind_eq_some_iff] at h
  obtain ⟨_, -, _, -, _, hlimits, _, hlogging, h⟩ := h
  cases h
  rw [← read?_eq_orDefault, ← read?_eq_orDefault]
  exact ⟨hlimits, hlogging⟩

/-- **A setting of a section** read from layers laid over a base without this section is decided by
the last layer that sets its key. -/
theorem orDefault_field {β : Type} {sectionReader : Setting → Option β} {sectionDefault part : β}
    (field : β → α) (h : ∀ layer ∈ layers, ∀ entry ∈ layer, givesTable sectionName entry = true)
    (hbase : lookup sectionName base.members = none)
    (hsection : orDefault sectionReader sectionDefault
      (lookup sectionName (layers.foldl addLayer base).members) = some part)
    (hfield : ∀ fields, sectionReader (.table fields) = some part →
      read? reader (field sectionDefault) key fields = some (field part))
    (htable : ∀ members, reader (.table members) = none)
    (hitem : ∀ items layer, reader (.list items) ≠ none →
      lastSetter sectionName key layers = some layer →
      ∀ entry ∈ layer, addressesItem sectionName key entry = false) :
    orDefault reader (field sectionDefault) (lastGiven sectionName key layers) =
      some (field part) := by
  have hvalue : valueAt sectionName key base = none := by
    rw [valueAt, hbase]
    rfl
  have hbasetable : hasTable sectionName base = true := by
    rw [hasTable, hbase]
  exact orDefault_lastGiven h hvalue htable hitem
    (orDefault_valueAt field (hasTable_foldl_addLayer h hbasetable) hfield hsection)

/-- Settings read from layers laid over a base without sections are decided by the layers. -/
theorem decidedBy_of_ofMembers?
    (hengine : ∀ layer ∈ layers, ∀ entry ∈ layer, givesTable "engine" entry = true)
    (hobservability : ∀ layer ∈ layers, ∀ entry ∈ layer, givesTable "observability" entry = true)
    (hbase : lookup "engine" base.members = none ∧ lookup "observability" base.members = none)
    (h : ofMembers? (layers.foldl addLayer base).members = some settings) :
    settings.DecidedBy layers := by
  obtain ⟨hlimits, hlogging⟩ := sections_of_ofMembers? h
  exact {
    maxRuleLength := orDefault_field Limits.maxRuleLength hengine hbase.1 hlimits
      (fun _ h => (read?_of_limits h).1) (fun _ => rfl) fun _ _ hlist => absurd rfl hlist
    maxNestingDepth := orDefault_field Limits.maxNestingDepth hengine hbase.1 hlimits
      (fun _ h => (read?_of_limits h).2.1) (fun _ => rfl) fun _ _ hlist => absurd rfl hlist
    maxTreeDepth := orDefault_field Limits.maxTreeDepth hengine hbase.1 hlimits
      (fun _ h => (read?_of_limits h).2.2.1) (fun _ => rfl) fun _ _ hlist => absurd rfl hlist
    allowedAttributes := fun hitem =>
      orDefault_field Limits.allowedAttributes hengine hbase.1 hlimits
        (fun _ h => (read?_of_limits h).2.2.2.1) (fun _ => rfl) fun _ layer _ => hitem layer
    strictMissingFields := orDefault_field Limits.strictMissingFields hengine hbase.1 hlimits
      (fun _ h => (read?_of_limits h).2.2.2.2) (fun _ => rfl) fun _ _ hlist => absurd rfl hlist
    serviceName := orDefault_field LogSettings.serviceName hobservability hbase.2 hlogging
      (fun _ h => (read?_of_logging h).1) (fun _ => rfl) fun _ _ hlist => absurd rfl hlist
    level := orDefault_field LogSettings.level hobservability hbase.2 hlogging
      (fun _ h => (read?_of_logging h).2.1) (fun _ => rfl) fun _ _ hlist => absurd rfl hlist
    json := orDefault_field LogSettings.json hobservability hbase.2 hlogging
      (fun _ h => (read?_of_logging h).2.2) (fun _ => rfl) fun _ _ hlist => absurd rfl hlist }

end

/-! ## Orders of the entries -/

/-- The settings that the program sets itself: the names of the service and the environment. -/
def named (service : String) (vars : Variables) : Setting :=
  .table [("service_name", .text service), ("environment", .text (environmentOf vars))]

/-- `Loads service vars file sources layers settings`: the settings come out of the files and the
variables when the entries of each of these sources are taken in the order that `layers` has them
in. -/
structure Loads (service : String) (vars : Variables) (file : String → Option String)
    (sources layers : List Layer) (settings : Settings) : Prop where
  sources_eq : sources? service vars file = some sources
  order : List.Forall₂ List.Perm sources layers
  read : ofMembers? (layers.foldl addLayer (named service vars)).members = some settings

section

variable {service : String} {vars : Variables} {file : String → Option String}
variable {sources layers : List Layer} {settings : Settings}

theorem addLayer_names (service : String) (vars : Variables) :
    addLayer (.table [])
        [("service_name", .text service), ("environment", .text (environmentOf vars))] =
      named service vars := by
  have hservice : pathOfKey "service_name" = [.key "service_name"] :=
    pathOfKey_of_isNameChar (List.all_eq_true.1 (by decide))
  have henvironment : pathOfKey "environment" = [.key "environment"] :=
    pathOfKey_of_isNameChar (List.all_eq_true.1 (by decide))
  simp [addLayer, named, hservice, henvironment, put, overlay, Setting.insert, Setting.members]

theorem load?_eq (service : String) (vars : Variables) (file : String → Option String) :
    load? service vars file = (sources? service vars file).bind fun sources =>
      ofMembers? (sources.foldl addLayer (named service vars)).members := by
  rw [load?, layers?, sources?]
  cases ["default", environmentOf vars, service].mapM (fileLayer? file) with
  | none => rfl
  | some files =>
    simp only [Option.bind_eq_bind, Option.bind_some, Option.pure_def, List.cons_append,
      List.foldl_cons, addLayer_names]

theorem loads_in_order (hsources : sources? service vars file = some sources)
    (hread : ofMembers? (sources.foldl addLayer (named service vars)).members = some settings) :
    Loads service vars file sources sources settings :=
  ⟨hsources, List.forall₂_same.2 fun layer _ => .refl layer, hread⟩

/-- The program takes the entries of a source in the order of the source. -/
theorem load?_eq_some_iff :
    load? service vars file = some settings ↔
      ∃ sources, Loads service vars file sources sources settings := by
  rw [load?_eq, Option.bind_eq_some_iff]
  exact ⟨fun ⟨sources, hsources, hread⟩ => ⟨sources, loads_in_order hsources hread⟩,
    fun ⟨sources, h⟩ => ⟨sources, h.sources_eq, h.read⟩⟩

/-- What is true of all entries of the sources is true in every order of them. -/
theorem Loads.forall_entries (h : Loads service vars file sources layers settings)
    {P : String × Setting → Prop} (hentries : ∀ layer ∈ sources, ∀ entry ∈ layer, P entry) :
    ∀ layer ∈ layers, ∀ entry ∈ layer, P entry := by
  obtain ⟨-, horder, -⟩ := h
  induction horder with
  | nil => exact hentries
  | cons hperm _ ih =>
    obtain ⟨hfirst, hrest⟩ := List.forall_mem_cons.1 hentries
    exact List.forall_mem_cons.2 ⟨fun entry hentry => hfirst entry (hperm.mem_iff.2 hentry),
      ih hrest⟩

/-- **Layers override key by key**, in whatever order the entries of each source are taken. What a
service loads comes from the default file, the file of its environment, its own file and the
variables; if none of them gives a section anything but a table, the last one that sets a key
decides it. The order is no matter to a key that this source sets once. -/
theorem load?_decidedBy (service : String) (vars : Variables) (file : String → Option String) :
    (∀ settings, load? service vars file = some settings ↔
      ∃ sources, Loads service vars file sources sources settings) ∧
    ∀ sources layers settings, Loads service vars file sources layers settings →
      (∀ layer ∈ sources, ∀ entry ∈ layer,
        givesTable "engine" entry = true ∧ givesTable "observability" entry = true) →
      settings.DecidedBy layers ∧
      ∀ sectionName key, (∀ layer, lastSetter sectionName key sources = some layer →
          SetsOnce sectionName key layer) →
        lastGiven sectionName key layers = lastGiven sectionName key sources := by
  refine ⟨fun settings => load?_eq_some_iff, fun sources layers settings h htables => ⟨?_,
    fun sectionName key => lastGiven_eq_of_perm h.order⟩⟩
  have hengine := h.forall_entries fun layer hlayer entry hentry =>
    (htables layer hlayer entry hentry).1
  have hobservability := h.forall_entries fun layer hlayer entry hentry =>
    (htables layer hlayer entry hentry).2
  exact decidedBy_of_ofMembers? hengine hobservability ⟨rfl, rfl⟩ h.read

end

/-- Files of which the second one sets the length of a text twice, once in its section and once by
a path, and replaces a list of the first one. -/
def layeredFile : String → Option String
  | "default.toml" =>
    some "engine.max_tree_depth = 9\nengine.allowed_attributes = [\"a\", \"b\"]\n"
  | "production.toml" => some ("\"engine.max_rule_length\" = 100\n" ++
      "[engine]\nmax_rule_length = 200\nmax_nesting_depth = 4\nallowed_attributes = [\"c\"]\n" ++
      "[observability]\nlog_level = \"debug\"\n")
  | _ => none

/-- Variables that name an environment and set a key that its file sets too. -/
def layeredVars : Variables :=
  [("RULES_ENV", "production"), ("RULES__ENGINE__MAX_NESTING_DEPTH", "16")]

/-- What is loaded from these files when the path of the length comes before the section, and when
it comes behind it. -/
theorem exists_loads_layeredFile :
    ∃ sources settings settings',
      Loads "rule-engine" layeredVars layeredFile sources sources settings ∧
      Loads "rule-engine" layeredVars layeredFile sources (sources.map List.reverse) settings' ∧
      settings.limits = ⟨200, 16, 9, ["c"], false⟩ ∧
      settings.logging = ⟨"unknown-service", "debug", false⟩ ∧
      settings'.limits = ⟨100, 16, 9, ["c"], false⟩ ∧
      ∀ layer ∈ sources, SetsOnce "engine" "allowed_attributes" layer ∧ ∀ entry ∈ layer,
        (givesTable "engine" entry = true ∧ givesTable "observability" entry = true) ∧
          addressesItem "engine" "allowed_attributes" entry = false := by
  have hchecked : (sources? "rule-engine" layeredVars layeredFile).map (fun sources =>
      ((ofMembers? (sources.foldl addLayer (named "rule-engine" layeredVars)).members).map
          fun settings => (settings.limits, settings.logging),
        (ofMembers? ((sources.map List.reverse).foldl addLayer
          (named "rule-engine" layeredVars)).members).map Settings.limits,
        sources.all fun layer => SetsOnce "engine" "allowed_attributes" layer &&
          layer.all fun entry => givesTable "engine" entry && givesTable "observability" entry &&
            !addressesItem "engine" "allowed_attributes" entry)) =
      some (some (⟨200, 16, 9, ["c"], false⟩, ⟨"unknown-service", "debug", false⟩),
        some ⟨100, 16, 9, ["c"], false⟩, true) := by
    decide +kernel
  obtain ⟨sources, hsources, hchecked⟩ := Option.map_eq_some_iff.1 hchecked
  simp only [Prod.mk.injEq, Option.map_eq_some_iff, List.all_eq_true, Bool.and_eq_true,
    Bool.not_eq_true', decide_eq_true_eq] at hchecked
  obtain ⟨⟨settings, hread, hlimits, hlogging⟩, ⟨settings', hread', hlimits'⟩, hlayers⟩ := hchecked
  have horder : List.Forall₂ List.Perm sources (sources.map List.reverse) := by
    rw [List.forall₂_map_right_iff, List.forall₂_same]
    exact fun layer _ => layer.reverse_perm.symm
  exact ⟨sources, settings, settings', loads_in_order hsources hread, ⟨hsources, horder, hread'⟩,
    hlimits, hlogging, hlimits', hlayers⟩

/-- With the section behind the path the file allows texts of 200 bytes, and with the path behind
the section those of 100. All else is the same in both orders. -/
theorem load?_decidedBy_layeredFile :
    ∃ settings sources, load? "rule-engine" layeredVars layeredFile = some settings ∧
      Loads "rule-engine" layeredVars layeredFile sources sources settings ∧
      (∀ layer ∈ sources, ∀ entry ∈ layer,
        givesTable "engine" entry = true ∧ givesTable "observability" entry = true) ∧
      settings.DecidedBy sources ∧
      settings.limits = ⟨200, 16, 9, ["c"], false⟩ ∧
      settings.logging = ⟨"unknown-service", "debug", false⟩ ∧
      (∃ value, lastGiven "engine" "allowed_attributes" sources = some value ∧
        toTexts? value = some ["c"]) ∧
      ∃ settings', Loads "rule-engine" layeredVars layeredFile sources (sources.map List.reverse)
          settings' ∧
        settings'.DecidedBy (sources.map List.reverse) ∧
        settings'.limits = ⟨100, 16, 9, ["c"], false⟩ ∧
        lastGiven "engine" "allowed_attributes" (sources.map List.reverse) =
          lastGiven "engine" "allowed_attributes" sources := by
  obtain ⟨hloads, hdecided⟩ := load?_decidedBy "rule-engine" layeredVars layeredFile
  obtain ⟨sources, settings, settings', h, h', hlimits, hlogging, hlimits', hlayers⟩ :=
    exists_loads_layeredFile
  have htables := fun layer hlayer entry hentry => ((hlayers layer hlayer).2 entry hentry).1
  obtain ⟨hfirst, -⟩ := hdecided _ _ _ h htables
  obtain ⟨hsecond, hsame⟩ := hdecided _ _ _ h' htables
  -- no key of the layers addresses an item of the list, and each layer sets it once
  have hlist := hfirst.allowedAttributes fun layer hlast entry hentry =>
    ((hlayers layer (mem_of_lastSetter hlast)).2 entry hentry).2
  have hgiven : ∃ value, lastGiven "engine" "allowed_attributes" sources = some value ∧
      toTexts? value = some ["c"] := by
    rw [hlimits] at hlist
    cases hvalue : lastGiven "engine" "allowed_attributes" sources with
    | none =>
      rw [hvalue] at hlist
      exact absurd hlist (by decide)
    | some value =>
      rw [hvalue] at hlist
      exact ⟨value, rfl, hlist⟩
  exact ⟨settings, sources, (hloads settings).2 ⟨sources, h⟩, h, htables, hfirst, hlimits, hlogging,
    hgiven, settings', h', hsecond, hlimits',
    hsame _ _ fun layer hlast => (hlayers layer (mem_of_lastSetter hlast)).1⟩

/-- Files of which the last one addresses an item of a list that the first one sets. -/
def itemFile : String → Option String
  | "default.toml" => some "[engine]\nallowed_attributes = [\"a\", \"b\"]\n"
  | "rule-engine.toml" => some "\"engine.allowed_attributes[0]\" = \"x\"\n"
  | _ => none

/-- A layer that addresses an item of a list keeps the others: the list is none that a layer
gives. -/
theorem allowedAttributes_itemFile :
    ∃ settings layers, load? "rule-engine" [] itemFile = some settings ∧
      sources? "rule-engine" [] itemFile = some layers ∧
      (∀ layer ∈ layers, ∀ entry ∈ layer,
        givesTable "engine" entry = true ∧ givesTable "observability" entry = true) ∧
      (lastGiven "engine" "allowed_attributes" layers).bind toTexts? = some ["x"] ∧
      settings.limits.allowedAttributes = ["x", "b"] := by
  obtain ⟨settings, hload, hallowed⟩ := Option.map_eq_some_iff.1 (show
    (load? "rule-engine" [] itemFile).map (·.limits.allowedAttributes) = some ["x", "b"] by
    decide +kernel)
  have hall : (sources? "rule-engine" [] itemFile).map (fun layers =>
      (layers.all (·.all fun entry =>
        givesTable "engine" entry && givesTable "observability" entry),
        (lastGiven "engine" "allowed_attributes" layers).bind toTexts?)) =
      some (true, some ["x"]) := by
    decide +kernel
  obtain ⟨layers, hlayers, hboth⟩ := Option.map_eq_some_iff.1 hall
  obtain ⟨htables, hgiven⟩ := Prod.mk.inj hboth
  exact ⟨settings, layers, hload, hlayers, by simpa using htables, hgiven, hallowed⟩

end Settings

end Eligibility
