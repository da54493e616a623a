import Eligibility.Service
/-!
# Requests to a service

`Service.respond` serves one request on the limits of a service and on the catalog behind it: it
gives the answer or the failure, and the catalog afterwards. Services with limits of their own share
a catalog by handing it on from one request to the next. Only the requests to create, insert, remove
and clear can change it.
-/

namespace Eligibility.Service

/-- What a service and its catalog can be asked. -/
inductive Request
  | compile (text : String)
  | decode (tree : Json)
  | combineTexts (connective : String) (texts : List String)
  | combineRules (connective : String) (ids : List String)
  | evaluate (tree : RuleTree) (facts : Facts)
  | explain (tree : RuleTree) (facts : Facts)
  | evaluateRule (id : String) (facts : Facts)
  | evaluateJson (tree facts : Json)
  /-- Compile a text and store the rule under a new id. -/
  | create (id : String) (now : Timestamp) (text : String)
  /-- Store a rule as it is. -/
  | insert (rule : StoredRule)
  /-- Look a rule up, which need not be there. -/
  | get (id : String)
  /-- Look a rule up, which must be there. -/
  | require (id : String)
  | contains (id : String)
  | remove (id : String)
  | latest
  | list
  | clear
  | statistics

/-- What a request that does not fail is answered with. -/
inductive Answer
  | tree (tree : RuleTree)
  | verdict (holds : Bool)
  | report (report : Report)
  | rule (rule : StoredRule)
  /-- A rule that may not be there. -/
  | found (rule : Option StoredRule)
  | rules (rules : List StoredRule)
  | statistics (statistics : Catalog.Statistics)
  | done
  deriving DecidableEq, Repr

/-- The answer to a request, and the catalog after it. -/
def respond (limits : Limits) (catalog : Catalog) : Request → Except Failure Answer × Catalog
  | .compile text => ((compile limits text).map .tree, catalog)
  | .decode tree => ((decode limits tree).map .tree, catalog)
  | .combineTexts connective texts => ((combineTexts limits connective texts).map .tree, catalog)
  | .combineRules connective ids =>
    ((combineRules limits catalog connective ids).map .tree, catalog)
  | .evaluate tree facts => ((evaluate limits tree facts).map .verdict, catalog)
  | .explain tree facts => ((explain limits tree facts).map .report, catalog)
  | .evaluateRule id facts => ((evaluateRule limits catalog id facts).map .verdict, catalog)
  | .evaluateJson tree facts => ((evaluateJson limits tree facts).map .verdict, catalog)
  | .create id now text => storing catalog (createRule limits catalog id now text)
  | .insert rule => (.ok .done, catalog.insert rule)
  | .get id => (.ok (.found (catalog.get? id)), catalog)
  | .require id => ((catalog.require id).map .rule, catalog)
  | .contains id => (.ok (.verdict (catalog.contains id)), catalog)
  | .remove id => storing catalog (catalog.remove id)
  | .latest => (.ok (.found catalog.latest?), catalog)
  | .list => (.ok (.rules catalog.list), catalog)
  | .clear => (.ok .done, .empty)
  | .statistics => (.ok (.statistics catalog.statistics), catalog)
where
  /-- A change of the catalog that concerns one rule. A failure leaves the catalog as it was. -/
  storing (catalog : Catalog) :
      Except Failure (StoredRule × Catalog) → Except Failure Answer × Catalog
    | .ok (rule, changed) => (.ok (.rule rule), changed)
    | .error failure => (.error failure, catalog)

end Eligibility.Service
