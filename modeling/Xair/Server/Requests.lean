import Xair.Store.Commit
import Xair.Runtime.Validation

/-!
# Commit requests

The arguments with which `POST /v1/intents/{id}/commit` calls the store, and what the
consumer later reads of the bound that is logged.
-/

namespace Xair

open Library

def strElems : List Str → Elems
  | [] => .nil
  | s :: rest => .cons (.str s) (strElems rest)

def Scope.text : Scope → String
  | .readset => "readset"
  | .truth => "truth"

namespace Config

/-- The record the endpoint submits. -/
def authorizationRecord (cfg : Config) (i : ActionIntent) (record : IntentRecord) (scope : Scope) : Members :=
  .cons "action_type".toList (.str i.payload.actionType) <|
  .cons "target_entity".toList (.str i.payload.targetEntity) <|
  .cons "parameters".toList (.obj i.payload.parameters) <|
  .cons "read_set".toList (.arr (strElems record.readSet)) <|
  .cons "read_set_version".toList (.int record.readSetVersion) <|
  .cons "predicates".toList (.arr (strElems record.predicates)) <|
  .cons "predicate_version".toList (.int record.predicateVersion) <|
  .cons "scope".toList (.str scope.text.toList) <|
  .cons "decision_epoch_ms".toList (.float (.fin i.timestampDecision)) <|
  .cons "release_bound_ms".toList (.float (.fin (releaseBound i - cfg.clockUncertaintyMs))) .nil

/-- The arguments of the store's commit. -/
def commitRequest (cfg : Config) (i : ActionIntent) (record : IntentRecord) (scope : Scope) (marginMs : ℚ) : CommitRequest where
  intentId := i.id
  keys := match scope with
    | .truth => record.predicates
    | .readset => record.readSet
  expected := match scope with
    | .truth => record.predicateVersion
    | .readset => record.readSetVersion
  record := cfg.authorizationRecord i record scope
  decisionEpochMs := i.timestampDecision
  ageBoundMs := some (releaseBound i - cfg.clockUncertaintyMs - marginMs)
  maxAheadMs := some cfg.clockUncertaintyMs
  scope := scope

end Config

/-- `record.get(key) is not None`, as a number. -/
def numberAt (record : Members) (key : String) : Option PyFloat := (record.get key.toList).bind Json.number?

/-- The lateness test of `poll`: a record without the two numbers is never late. -/
def late (now : ℚ) (record : Members) : Bool :=
  match numberAt record "decision_epoch_ms", numberAt record "release_bound_ms" with
  | some (.fin decision), some bound => bound.lt (.fin (now - decision))
  | _, _ => false

end Xair
