import Eligibility.Proofs.Service.Run
import Eligibility.Proofs.Service.Use
/-!
# A rule by its text, by its id and by its encoding

A service takes a rule as a text, as the id under which the text was stored, or as the JSON value
that encodes the stored rule. The three entries make their checks in different orders and at
different times, and the second depends on a catalog that other services change as well. As long as
no request takes the rule away or stores another one under its id, they come to the same
(`same_by_text_id_and_json`).

What the catalog has to do with it is one fact: the rule that was stored is found as it was
(`Keeps.require_eq`).
-/

namespace Eligibility.Service

variable {limits : Limits} {text : String} {tree : RuleTree} {rule : StoredRule} {catalog : Catalog}

/-! ## Rules that are kept -/

/-- `Keeps limits text rule catalog`: a service with these limits has stored the text as the rule in
some catalog, and requests that spare the rule, to any services, have led from there to this one. A
new id that no stored rule has is not that of the rule, so that to store further texts under such
ids is to spare it. -/
def Keeps (limits : Limits) (text : String) (rule : StoredRule) (catalog : Catalog) : Prop :=
  ∃ start now stored requests,
    createRule limits start rule.id now text = .ok (rule, stored) ∧
      Run stored requests catalog ∧ ∀ entry ∈ requests, entry.2.Spares rule.id

theorem createRule_eq_ok_iff {start stored : Catalog} {id : String} {now : Timestamp} :
    createRule limits start id now text = .ok (rule, stored) ↔
      ∃ tree, compile limits text = .ok tree ∧ rule = ⟨id, text, tree, now⟩ ∧
        stored = start.insert rule := by
  simp only [createRule, Except.bind_eq_ok_iff, Except.pure_eq_ok, Except.ok.injEq, Prod.mk.injEq]
  constructor
  · rintro ⟨tree, hcompile, rfl, rfl⟩
    exact ⟨tree, hcompile, rfl, rfl⟩
  · rintro ⟨tree, hcompile, rfl, rfl⟩
    exact ⟨tree, hcompile, rfl, rfl⟩

theorem keeps_insert (h : compile limits text = .ok tree) (start : Catalog) (id : String)
    (now : Timestamp) :
    Keeps limits text ⟨id, text, tree, now⟩ (start.insert ⟨id, text, tree, now⟩) :=
  ⟨start, now, _, [], createRule_of_compile start id now h, .start, by simp⟩

/-- A rule is kept by every request that spares it. -/
theorem Keeps.respond (h : Keeps limits text rule catalog) (other : Limits) (request : Request)
    (hspares : request.Spares rule.id) :
    Keeps limits text rule (Service.respond other catalog request).2 := by
  obtain ⟨start, now, stored, requests, hcreate, hrun, hbefore⟩ := h
  refine ⟨start, now, stored, requests ++ [(other, request)], hcreate,
    hrun.step (serves_respond other catalog request), ?_⟩
  exact List.forall_mem_append.2 ⟨hbefore, by simpa using hspares⟩

theorem Keeps.compile_eq (h : Keeps limits text rule catalog) :
    compile limits text = .ok rule.tree := by
  obtain ⟨start, now, stored, requests, hcreate, -, -⟩ := h
  obtain ⟨tree, hcompile, hrule, -⟩ := createRule_eq_ok_iff.1 hcreate
  rw [hcompile, hrule]

/-- **A rule that is kept** is found under its id, as it was stored. -/
theorem Keeps.require_eq (h : Keeps limits text rule catalog) :
    catalog.require rule.id = .ok rule := by
  obtain ⟨start, now, stored, requests, hcreate, hrun, hspares⟩ := h
  obtain ⟨-, -, -, rfl⟩ := createRule_eq_ok_iff.1 hcreate
  have hfound : catalog.get? rule.id = some rule := by
    rw [hrun.get?_of_spares hspares, Catalog.get?_insert, if_pos rfl]
  rw [Catalog.require, hfound]

/-! ## One entry like another -/

theorem Keeps.evaluateRule_eq (h : Keeps limits text rule catalog) (facts : Facts) :
    evaluateRule limits catalog rule.id facts = evaluate limits rule.tree facts := by
  rw [evaluateRule, h.require_eq, Except.ok_bind]

/-- The encoding of a rule that was let in is evaluated like the rule. If the rule is too deep, the
first check of two finds it so. -/
theorem evaluateJson_toJson (h : limits.Admits tree) {value : Json} {facts : Facts}
    (hfacts : Facts.ofJson value = .ok facts) :
    evaluateJson limits tree.toJson value = evaluate limits tree facts := by
  by_cases hdepth : tree.depth ≤ limits.maxTreeDepth
  · rw [evaluateJson, decode_toJson_of_le h hdepth, hfacts, Except.ok_bind, Except.ok_bind]
  · have hlt := Nat.lt_of_not_le hdepth
    rw [evaluateJson, decode_toJson_of_lt h hlt, evaluate_of_lt hlt, Except.error_bind]

theorem combineRules_eq_combineTexts {rules : List (String × StoredRule)}
    (h : ∀ entry ∈ rules, Keeps limits entry.1 entry.2 catalog) (connective : String) :
    combineRules limits catalog connective (rules.map fun entry => entry.2.id) =
      combineTexts limits connective (rules.map Prod.fst) := by
  have hstored : (rules.map fun entry => entry.2.id).mapM catalog.require =
      .ok (rules.map Prod.snd) := by
    rw [Except.mapM_eq_ok_iff, List.map_map, List.map_map]
    exact List.map_congr_left fun entry hentry => (h entry hentry).require_eq
  have hcompiled : (rules.map Prod.fst).mapM (compile limits) =
      .ok (rules.map fun entry => entry.2.tree) := by
    rw [Except.mapM_eq_ok_iff, List.map_map, List.map_map]
    exact List.map_congr_left fun entry hentry => (h entry hentry).compile_eq
  rw [combineRules, combineTexts, hstored, hcompiled, Except.ok_bind, Except.ok_bind, List.map_map]
  rfl

/-- **By its text, by its id and by its encoding a rule is evaluated alike**, and texts and ids are
combined alike: with the same result or the same failure, as long as the catalog keeps the rules. -/
theorem same_by_text_id_and_json (limits : Limits) (catalog : Catalog) :
    (∀ text rule, Keeps limits text rule catalog →
      ∀ value facts, Facts.ofJson value = .ok facts →
        (do evaluate limits (← compile limits text) facts) =
            evaluateRule limits catalog rule.id facts ∧
          evaluateJson limits rule.tree.toJson value =
            evaluateRule limits catalog rule.id facts) ∧
    ∀ rules : List (String × StoredRule), (∀ entry ∈ rules, Keeps limits entry.1 entry.2 catalog) →
      ∀ connective, combineRules limits catalog connective (rules.map fun entry => entry.2.id) =
        combineTexts limits connective (rules.map Prod.fst) := by
  refine ⟨fun text rule hkeeps value facts hfacts => ⟨?_, ?_⟩,
    fun _ => combineRules_eq_combineTexts⟩
  · rw [hkeeps.compile_eq, hkeeps.evaluateRule_eq, Except.ok_bind]
  · rw [evaluateJson_toJson (admits_of_compile hkeeps.compile_eq) hfacts, hkeeps.evaluateRule_eq]

/-- The catalog with a flat rule after a guest has come and gone, by way of another service. -/
def afterGuest (joins : Nat) : Catalog :=
  let stored := Catalog.empty.insert (flatStored joins)
  let visited := (respond guardedLimits stored (.create "guest" ⟨1, 0⟩ "b > 1")).2
  (respond guardedLimits visited (.remove "guest")).2

theorem keeps_afterGuest {joins : Nat}
    (h : compile limits (RuleTree.flatRule joins).display = .ok (RuleTree.flatRule joins)) :
    Keeps limits (flatStored joins).ruleText (flatStored joins) (afterGuest joins) := by
  have hstored := keeps_insert h .empty "flat" ⟨0, 0⟩
  refine (hstored.respond _ (.create "guest" _ _) ?_).respond _ (.remove "guest") ?_
  · show "guest" ≠ "flat"
    decide
  · show "guest" ≠ "flat"
    decide

/-- A rule of two conditions is false without facts by each of the three entries, and one of 257 is
too deep by each of them. Twice the one rule is the same by its text and by its id. -/
theorem same_by_text_id_and_json_flatStored :
    Keeps .default (flatStored 1).ruleText (flatStored 1) (afterGuest 1) ∧
      Keeps .default (flatStored 256).ruleText (flatStored 256) (afterGuest 256) ∧
      Facts.ofJson (.object []) = .ok .empty ∧
      evaluateRule .default (afterGuest 1) "flat" .empty = .ok false ∧
      evaluateJson .default (flatStored 1).tree.toJson (.object []) = .ok false ∧
      evaluateRule .default (afterGuest 256) "flat" .empty =
        .error (.validation (.treeTooDeep 257 256)) ∧
      evaluateJson .default (flatStored 256).tree.toJson (.object []) =
        .error (.validation (.treeTooDeep 257 256)) ∧
      combineRules .default (afterGuest 1) "AND" ["flat", "flat"] =
        combineTexts .default "AND" [(flatStored 1).ruleText, (flatStored 1).ruleText] := by
  have hshort := keeps_afterGuest (compile_flatRule .default 1 (by decide) rfl)
  have hlong := keeps_afterGuest (compile_flatRule .default 256 (by decide) rfl)
  obtain ⟨hevaluated, hcombined⟩ := same_by_text_id_and_json .default (afterGuest 1)
  obtain ⟨htext, hjson⟩ := hevaluated _ _ hshort (.object []) .empty rfl
  obtain ⟨htextLong, hjsonLong⟩ :=
    (same_by_text_id_and_json .default (afterGuest 256)).1 _ _ hlong (.object []) .empty rfl
  rw [hshort.compile_eq, Except.ok_bind] at htext
  rw [hlong.compile_eq, Except.ok_bind] at htextLong
  have hfalse : evaluateRule .default (afterGuest 1) "flat" .empty = .ok false :=
    htext.symm.trans (evaluate_flatRule_of_lt (by decide))
  have hdeep : evaluateRule .default (afterGuest 256) "flat" .empty =
      .error (.validation (.treeTooDeep 257 256)) :=
    htextLong.symm.trans (evaluate_flatRule_of_le (by decide))
  refine ⟨hshort, hlong, rfl, hfalse, hjson.trans hfalse, hdeep, hjsonLong.trans hdeep, ?_⟩
  refine hcombined [(_, flatStored 1), (_, flatStored 1)] (fun entry hentry => ?_) "AND"
  obtain rfl : entry = (_, flatStored 1) := by simpa using hentry
  exact hshort

end Eligibility.Service
