import Eligibility.Proofs.Service.Run
/-!
# Serving a request step by step

A catalog is two things that are changed one at a time: the rules, and the id of the latest one. An
`Access` reads and writes them and may fail on the way, and what it has written before it fails
stays written. `serve` serves a request as such a computation, in the order in which a service makes
its checks and accesses.

So it is not by definition that `serve` leaves a catalog alone when it fails. It has the outcome
of `respond` nevertheless (`on_serve`), except that a `Fallback` decides which rule is the latest
one after the latest one has been removed (`on_serve_remove`). Whatever that is, the catalog
afterwards is one that `Serves` allows (`serves_serve`).
-/

namespace Eligibility.Service

/-! ## Access to a catalog -/

/-- A computation on a catalog, with failures that do not undo what has been written. -/
abbrev Access (α : Type) := ExceptT Failure (StateM Catalog) α

namespace Access

variable {α β : Type}

/-- The outcome of an access to a catalog, and the catalog afterwards. -/
def on (access : Access α) (catalog : Catalog) : Except Failure α × Catalog :=
  StateT.run (ExceptT.run access) catalog

@[simp] theorem on_pure (a : α) (catalog : Catalog) :
    on (pure a) catalog = (.ok a, catalog) := rfl

@[simp] theorem on_throw (failure : Failure) (catalog : Catalog) :
    on (throw failure : Access α) catalog = (.error failure, catalog) := rfl

@[simp] theorem on_get (catalog : Catalog) : on get catalog = (.ok catalog, catalog) := rfl

@[simp] theorem on_modify (f : Catalog → Catalog) (catalog : Catalog) :
    on (modify f) catalog = (.ok ⟨⟩, f catalog) := rfl

/-- The second part of a computation runs on what the first one has left, if that has not failed. -/
theorem on_bind (access : Access α) (f : α → Access β) (catalog : Catalog) :
    on (access >>= f) catalog =
      match on access catalog with
      | (.ok a, next) => on (f a) next
      | (.error failure, next) => (.error failure, next) := by
  change (ExceptT.bindCont f (on access catalog).1).run (on access catalog).2 = _
  obtain ⟨outcome, next⟩ := on access catalog
  cases outcome <;> rfl

theorem on_map (access : Access α) (f : α → β) (catalog : Catalog) :
    on (f <$> access) catalog = ((on access catalog).1.map f, (on access catalog).2) := by
  rw [map_eq_pure_bind, on_bind]
  obtain ⟨outcome, next⟩ := on access catalog
  cases outcome <;> rfl

/-- `Reads access catalog outcome`: the access leaves the catalog alone, and ends so. -/
def Reads (access : Access α) (catalog : Catalog) (outcome : Except Failure α) : Prop :=
  on access catalog = (outcome, catalog)

variable {catalog : Catalog} {access : Access α} {outcome : Except Failure α}

theorem reads_ofExcept (outcome : Except Failure α) (catalog : Catalog) :
    Reads (ofExcept outcome) catalog outcome := by
  cases outcome <;> rfl

/-- One access after another reads if both do. -/
theorem Reads.bind {f : α → Access β} {g : α → Except Failure β} (h : Reads access catalog outcome)
    (hf : ∀ a, Reads (f a) catalog (g a)) : Reads (access >>= f) catalog (outcome >>= g) := by
  rw [Reads, on_bind, h]
  cases outcome with
  | error failure => rfl
  | ok a => exact hf a

theorem Reads.map (h : Reads access catalog outcome) (f : α → β) :
    Reads (f <$> access) catalog (outcome.map f) := by
  rw [Reads, on_map, h]

theorem Reads.mapM {f : α → Access β} {g : α → Except Failure β}
    (hf : ∀ a, Reads (f a) catalog (g a)) (as : List α) :
    Reads (as.mapM f) catalog (as.mapM g) := by
  induction as with
  | nil => rfl
  | cons a as ih =>
    rw [List.mapM_cons, List.mapM_cons]
    exact (hf a).bind fun b => ih.bind fun bs => rfl

/-! ## The accesses that a service makes -/

/-- Look a rule up, which need not be there. -/
def lookUp (id : String) : Access (Option StoredRule) := do
  return (← get).get? id

/-- Look a rule up, which must be there. -/
def require (id : String) : Access StoredRule := do
  match ← lookUp id with
  | some rule => return rule
  | none => throw (.ruleNotFound id)

/-- Store a rule, and then note that it is the latest. -/
def store (rule : StoredRule) : Access Unit := do
  modify fun catalog => { catalog with rules := catalog.without rule.id ++ [rule] }
  modify fun catalog => { catalog with latestId := some rule.id }

/-- Look up the latest rule. -/
def latest : Access (Option StoredRule) := do
  match (← get).latestId with
  | some id => lookUp id
  | none => return none

/-- Drop all rules, and then the note of the latest. -/
def clear : Access Unit := do
  modify fun catalog => { catalog with rules := [] }
  modify fun catalog => { catalog with latestId := none }

theorem reads_lookUp (id : String) (catalog : Catalog) :
    Reads (lookUp id) catalog (.ok (catalog.get? id)) := rfl

theorem reads_require (id : String) (catalog : Catalog) :
    Reads (require id) catalog (catalog.require id) := by
  rw [Reads, require, on_bind, reads_lookUp id catalog, Catalog.require]
  cases h : catalog.get? id <;> simp

theorem reads_latest (catalog : Catalog) : Reads latest catalog (.ok catalog.latest?) := by
  obtain ⟨rules, latestId⟩ := catalog
  cases latestId <;> rfl

theorem on_store (rule : StoredRule) (catalog : Catalog) :
    on (store rule) catalog = (.ok (), catalog.insert rule) := rfl

theorem on_clear (catalog : Catalog) : on clear catalog = (.ok (), .empty) := rfl

end Access

/-! ## The rule to fall back to -/

/-- A choice of the rule that is the latest one after the latest one has been removed. It may be any
of those that were created last. -/
structure Fallback where
  choose : List StoredRule → Option StoredRule
  choose_nil : choose [] = none
  newest : ∀ {rules : List StoredRule}, rules ≠ [] →
    ∃ last ∈ rules, choose rules = some last ∧
      ∀ rule ∈ rules, rule.createdAt.le last.createdAt = true

/-- The last rule of the listing. -/
def Fallback.lastListed : Fallback where
  choose rules := (Catalog.sorted rules).getLast?
  choose_nil := by simp [Catalog.sorted]
  newest := Catalog.exists_getLast?_sorted

namespace Access

/-- Take a rule out, which must be there, and then let another one be the latest if it was. -/
def takeOut (fallback : Fallback) (id : String) : Access StoredRule := do
  let rule ← require id
  modify fun catalog => { catalog with rules := catalog.without id }
  let catalog ← get
  if catalog.latestId = some id then
    modify fun catalog =>
      { catalog with latestId := (fallback.choose catalog.rules).map StoredRule.id }
  return rule

theorem on_takeOut (fallback : Fallback) (id : String) (catalog : Catalog) :
    on (takeOut fallback id) catalog =
      match catalog.get? id with
      | some rule => (.ok rule, ⟨catalog.without id,
          if catalog.latestId = some id then
            (fallback.choose (catalog.without id)).map StoredRule.id
          else catalog.latestId⟩)
      | none => (.error (.ruleNotFound id), catalog) := by
  rw [takeOut, on_bind, reads_require id catalog, Catalog.require]
  cases catalog.get? id with
  | none => rfl
  | some rule =>
    simp only [on_bind, on_modify, on_get]
    split <;> rfl

/-! ## The operations of a service -/

/-- Combine the rules that some texts write. -/
def combineTexts (limits : Limits) (connective : String) (texts : List String) :
    Access RuleTree := do
  let trees ← texts.mapM fun text => ofExcept (compile limits text)
  ofExcept (combine limits connective trees)

/-- Combine the rules with some ids. -/
def combineRules (limits : Limits) (connective : String) (ids : List String) :
    Access RuleTree := do
  let rules ← ids.mapM require
  ofExcept (combine limits connective (rules.map StoredRule.tree))

/-- Evaluate the rule with an id. -/
def evaluateRule (limits : Limits) (id : String) (facts : Facts) : Access Bool := do
  let rule ← require id
  ofExcept (evaluate limits rule.tree facts)

/-- Store the rule that a text writes. -/
def createRule (limits : Limits) (id : String) (now : Timestamp) (text : String) :
    Access StoredRule := do
  let tree ← ofExcept (compile limits text)
  let rule : StoredRule := ⟨id, text, tree, now⟩
  store rule
  return rule

variable (limits : Limits) (catalog : Catalog)

theorem reads_combineTexts (connective : String) (texts : List String) :
    Reads (combineTexts limits connective texts) catalog
      (Service.combineTexts limits connective texts) :=
  (Reads.mapM (fun _ => reads_ofExcept _ catalog) texts).bind fun _ => reads_ofExcept _ catalog

theorem reads_combineRules (connective : String) (ids : List String) :
    Reads (combineRules limits connective ids) catalog
      (Service.combineRules limits catalog connective ids) :=
  (Reads.mapM (reads_require · catalog) ids).bind fun _ => reads_ofExcept _ catalog

theorem reads_evaluateRule (id : String) (facts : Facts) :
    Reads (evaluateRule limits id facts) catalog (Service.evaluateRule limits catalog id facts) :=
  (reads_require id catalog).bind fun _ => reads_ofExcept _ catalog

/-- Nothing is stored before the text has been compiled. -/
theorem on_createRule (id : String) (now : Timestamp) (text : String) :
    on (createRule limits id now text) catalog =
      match compile limits text with
      | .ok tree => (.ok ⟨id, text, tree, now⟩, catalog.insert ⟨id, text, tree, now⟩)
      | .error failure => (.error failure, catalog) := by
  rw [createRule, on_bind, reads_ofExcept (compile limits text) catalog]
  cases compile limits text with
  | error failure => rfl
  | ok tree => simp only [on_bind, on_store, on_pure]

end Access

/-! ## Serving -/

open Access (reads_ofExcept)

/-- A request served step by step. -/
def serve (fallback : Fallback) (limits : Limits) : Request → Access Answer
  | .compile text => .tree <$> ofExcept (compile limits text)
  | .decode tree => .tree <$> ofExcept (decode limits tree)
  | .combineTexts connective texts => .tree <$> Access.combineTexts limits connective texts
  | .combineRules connective ids => .tree <$> Access.combineRules limits connective ids
  | .evaluate tree facts => .verdict <$> ofExcept (evaluate limits tree facts)
  | .explain tree facts => .report <$> ofExcept (explain limits tree facts)
  | .evaluateRule id facts => .verdict <$> Access.evaluateRule limits id facts
  | .evaluateJson tree facts => .verdict <$> ofExcept (evaluateJson limits tree facts)
  | .create id now text => .rule <$> Access.createRule limits id now text
  | .insert rule => do
    Access.store rule
    return .done
  | .get id => .found <$> Access.lookUp id
  | .require id => .rule <$> Access.require id
  | .contains id => do return .verdict (← Access.lookUp id).isSome
  | .remove id => .rule <$> Access.takeOut fallback id
  | .latest => .found <$> Access.latest
  | .list => do return .rules (← get).list
  | .clear => do
    Access.clear
    return .done
  | .statistics => do return .statistics (← get).statistics

theorem on_serve_create (fallback : Fallback) (limits : Limits) (catalog : Catalog) (id : String)
    (now : Timestamp) (text : String) :
    (serve fallback limits (.create id now text)).on catalog =
      match compile limits text with
      | .ok tree => (.ok (.rule ⟨id, text, tree, now⟩), catalog.insert ⟨id, text, tree, now⟩)
      | .error failure => (.error failure, catalog) := by
  rw [serve, Access.on_map, Access.on_createRule]
  cases compile limits text <;> rfl

theorem on_serve_remove (fallback : Fallback) (limits : Limits) (catalog : Catalog) (id : String) :
    (serve fallback limits (.remove id)).on catalog =
      match catalog.get? id with
      | some rule => (.ok (.rule rule), ⟨catalog.without id,
          if catalog.latestId = some id then
            (fallback.choose (catalog.without id)).map StoredRule.id
          else catalog.latestId⟩)
      | none => (.error (.ruleNotFound id), catalog) := by
  rw [serve, Access.on_map, Access.on_takeOut]
  cases catalog.get? id <;> rfl

/-- **Served step by step, a request ends as `respond` has it**, unless it removes a rule. -/
theorem on_serve (fallback : Fallback) (limits : Limits) (catalog : Catalog) {request : Request}
    (hrequest : ∀ id, request ≠ .remove id) :
    (serve fallback limits request).on catalog = respond limits catalog request := by
  cases request with
  | compile _ | decode _ | evaluate _ _ | explain _ _ | evaluateJson _ _ =>
    exact (reads_ofExcept _ catalog).map _
  | combineTexts connective texts => exact (Access.reads_combineTexts limits catalog _ _).map _
  | combineRules connective ids => exact (Access.reads_combineRules limits catalog _ _).map _
  | evaluateRule id facts => exact (Access.reads_evaluateRule limits catalog _ _).map _
  | get id => exact (Access.reads_lookUp id catalog).map _
  | require id => exact (Access.reads_require id catalog).map _
  | latest => exact (Access.reads_latest catalog).map _
  | contains _ | list | statistics => rfl
  | insert rule =>
    rw [serve, Access.on_bind, Access.on_store]
    rfl
  | clear =>
    rw [serve, Access.on_bind, Access.on_clear]
    rfl
  | create id now text =>
    rw [on_serve_create, respond, createRule]
    cases compile limits text <;> rfl
  | remove id => exact absurd rfl (hrequest id)

/-- **`respond` is one way to serve a request**, that of falling back to the last listed rule. -/
theorem on_serve_lastListed (limits : Limits) (catalog : Catalog) (request : Request) :
    (serve .lastListed limits request).on catalog = respond limits catalog request := by
  by_cases hremove : ∃ id, request = .remove id
  · obtain ⟨id, rfl⟩ := hremove
    rw [on_serve_remove, respond]
    cases h : catalog.get? id with
    | some rule => rw [Catalog.remove_of_get? h]; rfl
    | none => rw [Catalog.remove_of_get?_eq_none h]; rfl
  · exact on_serve .lastListed limits catalog (not_exists.1 hremove)

/-- **A request is served as `Serves` allows**, whatever rule is fallen back to. -/
theorem serves_serve (fallback : Fallback) (limits : Limits) (catalog : Catalog)
    (request : Request) :
    Serves limits catalog request ((serve fallback limits request).on catalog).2 := by
  by_cases hremove : ∃ id, request = .remove id
  · obtain ⟨id, rfl⟩ := hremove
    refine .changed rfl ?_
    rw [on_serve_remove]
    cases hget : catalog.get? id with
    | none => exact .missing hget
    | some rule =>
      by_cases hlatest : catalog.latestId = some id
      · refine .fallBack hlatest rfl ?_
        by_cases hrest : catalog.without id = []
        · exact .inl (by simp [hlatest, hrest, fallback.choose_nil, Catalog.empty])
        · obtain ⟨last, hmem, hlast, hnewest⟩ := fallback.newest hrest
          exact .inr ⟨last, hmem, by simp [hlatest, hlast], hnewest⟩
      · simp only [if_neg hlatest]
        exact .keep hlatest
  · rw [on_serve fallback limits catalog (not_exists.1 hremove)]
    exact serves_respond limits catalog request

end Eligibility.Service
