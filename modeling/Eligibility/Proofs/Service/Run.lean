import Eligibility.Proofs.Catalog.Run
import Eligibility.Service.Request
/-!
# Runs of requests to services that share a catalog

Services with limits of their own are asked one after the other, in any order, and hand the catalog
on. A request makes at most one change of the catalog, and which one it is depends on the limits and
not on the catalog (`Request.change?`); nothing else about a request matters to the rules that are
stored. `Serves` and `Run` leave open, as `Catalog.Step` does, which rule a catalog falls back to as
its latest one, and `respond` takes one of the steps that they allow (`serves_respond`).

Two facts about one step carry what is proved of runs: a rule found after it was found before
it or is inserted by it (`Serves.found`), and a rule that it spares is found after it as before
(`Serves.get?_of_spares`).
-/

namespace Eligibility.Service

variable {limits : Limits} {catalog next start : Catalog} {request : Request} {id : String}

/-! ## One request -/

/-- The change of the catalog that a request makes, if it makes one. -/
def Request.change? (limits : Limits) : Request → Option Catalog.Change
  | .create id now text =>
    match Service.compile limits text with
    | .ok tree => some (.insert ⟨id, text, tree, now⟩)
    | .error _ => none
  | .insert rule => some (.insert rule)
  | .remove id => some (.remove id)
  | .clear => some .clear
  | .compile _ | .decode _ | .combineTexts .. | .combineRules .. | .evaluate .. | .explain ..
  | .evaluateRule .. | .evaluateJson .. | .get _ | .require _ | .contains _ | .latest | .list
  | .statistics => none

/-- `Serves limits catalog request next`: a service with these limits may make `next` out of
`catalog` when it serves the request. -/
inductive Serves (limits : Limits) (catalog : Catalog) (request : Request) : Catalog → Prop
  | unchanged (h : request.change? limits = none) : Serves limits catalog request catalog
  | changed {change : Catalog.Change} {next : Catalog} (h : request.change? limits = some change)
    (hstep : catalog.Step change next) : Serves limits catalog request next

theorem respond_catalog (limits : Limits) (catalog : Catalog) (request : Request) :
    (respond limits catalog request).2 =
      match request.change? limits with
      | some change => catalog.apply change
      | none => catalog := by
  cases request with
  | create id now text =>
    cases h : Service.compile limits text <;>
      simp [respond, respond.storing, createRule, Request.change?, Catalog.apply, h]
  | remove id =>
    cases h : catalog.remove id <;>
      simp [respond, respond.storing, Request.change?, Catalog.apply, h]
  | _ => rfl

/-- **A request is served.** -/
theorem serves_respond (limits : Limits) (catalog : Catalog) (request : Request) :
    Serves limits catalog request (respond limits catalog request).2 := by
  rw [respond_catalog]
  cases h : request.change? limits with
  | none => exact .unchanged h
  | some change => exact .changed h (Catalog.step_apply catalog change)

/-- **A rule that is found after a request** was found before it, or the request inserts it. -/
theorem Serves.found (h : Serves limits catalog request next) {rule : StoredRule}
    (hfound : next.get? id = some rule) :
    catalog.get? id = some rule ∨ request.change? limits = some (.insert rule) ∧ rule.id = id := by
  cases h with
  | unchanged _ => exact .inl hfound
  | @changed change _ hchange hstep =>
    rw [hstep.get?_eq (fun _ => rfl)] at hfound
    cases change with
    | insert other =>
      rw [Catalog.Change.onMap] at hfound
      split at hfound
      · rename_i hid
        obtain rfl := Option.some.inj hfound
        exact .inr ⟨hchange, hid.symm⟩
      · exact .inl hfound
    | remove other =>
      rw [Catalog.Change.onMap] at hfound
      split at hfound
      · cases hfound
      · exact .inl hfound
    | clear => cases hfound

theorem Serves.distinct (h : Serves limits catalog request next) (hdistinct : catalog.Distinct) :
    next.Distinct := by
  cases h with
  | unchanged _ => exact hdistinct
  | changed _ hstep => exact hstep.distinct hdistinct

/-- A request neither stores a rule under an id nor takes the one with that id away. -/
def Request.Spares (id : String) : Request → Prop
  | .create other _ _ => other ≠ id
  | .insert rule => rule.id ≠ id
  | .remove other => other ≠ id
  | .clear => False
  | _ => True

/-- **A rule that is spared** is found as before. -/
theorem Serves.get?_of_spares (h : Serves limits catalog request next)
    (hspares : request.Spares id) : next.get? id = catalog.get? id := by
  cases h with
  | unchanged _ => rfl
  | @changed change _ hchange hstep =>
    rw [hstep.get?_eq (fun _ => rfl)]
    cases request with
    | create other now text =>
      rw [Request.change?] at hchange
      split at hchange
      · obtain rfl := Option.some.inj hchange
        exact if_neg (Ne.symm hspares)
      · cases hchange
    | insert rule =>
      obtain rfl := Option.some.inj hchange
      exact if_neg (Ne.symm hspares)
    | remove other =>
      obtain rfl := Option.some.inj hchange
      exact if_neg (Ne.symm hspares)
    | clear => exact hspares.elim
    | _ => cases hchange

/-! ## Runs -/

/-- `Run start requests catalog`: the requests, each with the limits of the service that is asked,
may make `catalog` out of `start`. -/
inductive Run (start : Catalog) : List (Limits × Request) → Catalog → Prop
  | start : Run start [] start
  | step {requests : List (Limits × Request)} {limits : Limits} {request : Request}
    {catalog next : Catalog} (h : Run start requests catalog)
    (hserves : Serves limits catalog request next) :
    Run start (requests ++ [(limits, request)]) next

theorem Run.distinct {requests : List (Limits × Request)} (h : Run start requests catalog)
    (hstart : start.Distinct) : catalog.Distinct := by
  induction h with
  | start => exact hstart
  | step _ hserves ih => exact hserves.distinct ih

theorem Run.get?_of_spares {requests : List (Limits × Request)} (h : Run start requests catalog)
    (hspares : ∀ entry ∈ requests, entry.2.Spares id) : catalog.get? id = start.get? id := by
  induction h with
  | start => rfl
  | step _ hserves ih =>
    obtain ⟨hbefore, hlast⟩ := List.forall_mem_append.1 hspares
    rw [hserves.get?_of_spares (hlast _ List.mem_cons_self), ih hbefore]

/-- **What is true of every rule that is inserted** is true of every rule that is found. -/
theorem Run.forall_found {requests : List (Limits × Request)} {P : StoredRule → Prop}
    (h : Run start requests catalog) (hstart : ∀ id rule, start.get? id = some rule → P rule)
    (hinserted : ∀ entry ∈ requests, ∀ rule,
      entry.2.change? entry.1 = some (.insert rule) → P rule) :
    ∀ id rule, catalog.get? id = some rule → P rule := by
  induction h with
  | start => exact hstart
  | step _ hserves ih =>
    intro id rule hfound
    obtain ⟨hbefore, hlast⟩ := List.forall_mem_append.1 hinserted
    obtain hfound | ⟨hchange, -⟩ := hserves.found hfound
    · exact ih hbefore id rule hfound
    · exact hlast _ List.mem_cons_self rule hchange

end Eligibility.Service
