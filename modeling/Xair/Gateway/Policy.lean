import Xair.Release.Bounds
import Xair.Server.Endpoints

/-!
# The gateway

`_xair_policy` of `actuator_gateway.py`: submit, check at the gate or commit, call the
middleware or the controller, and report. A request may be lost on the way to XAIR or
on the way back, and a call may fail after it has taken effect.
-/

namespace Xair

open Library

/-! ### Actuators -/

/-- `version_scope`. -/
inductive VersionScope where
  | readset | truth | global | predicate
  deriving DecidableEq

/-- `actuator`: the middleware, the emulated controller, or the PLC over Modbus. -/
inductive Actuator where
  | middleware
  | plc (method : CellMethod)
  | openplc (method : CellMethod)
  deriving DecidableEq

structure GatewayQuery where
  atomic : Bool
  scope : VersionScope
  actuator : Actuator
  releaseGuard : Bool
  commitMarginMs : ℚ
  /-- What becomes of the tombstone if the release guard withholds. -/
  append : Fate

/-- The result string of a controller method. -/
def CellAnswer.text : CellAnswer → Str
  | versionChanged version => "refused:version_changed:".toList ++ intText version
  | predicateFalse version => "refused:predicate_false:".toList ++ intText version
  | deadline version => "refused:deadline:".toList ++ intText version
  | executed state version => "executed:".toList ++ state ++ ":".toList ++ intText version

/-- `_effect_of`. -/
def effectOf (cellResult : Option Str) (rosOk : Bool) : EffectStatus × Str :=
  match cellResult with
  | some text =>
    if startsWith "executed".toList text then (.confirmed, text)
    else if startsWith "refused".toList text then (.failed, text)
    else (.unknown, text)
  | none => (.unknown, (if rosOk then "ros_published_no_feedback" else "no_actuator_feedback").toList)

/-- How a gateway run ends. -/
structure GatewayResult where
  outcome : Option DecisionOutcome
  reason : Str
  gatewayReleased : Bool
  deriving DecidableEq

/-- What a release has come to: blocked, or called with the answer and whether ROS published. -/
inductive Release where
  | blocked (reason : Str)
  | called (reason : Str) (cellResult : Option Str) (rosOk : Bool)

section

variable [PyText]

/-- `int(text)`. -/
def parseInt (text : Str) : Option Int :=
  let (neg, digits) := takeSign (strip text)
  match digitPart digits with
  | ([], _) => none
  | (ds, []) => if maxStrDigits < ds.length then none else some (if neg then -(natOfDigits ds : Int) else natOfDigits ds)
  | _ => none

/-- `int(value)`. -/
def toInt : Json → Except PyError Int
  | .bool b => .ok (if b then 1 else 0)
  | .int n => .ok n
  | .float (.fin x) => .ok (truncate x)
  | .float (.inf _) => .error .overflowError
  | .float .nan => .error .valueError
  | .str s => match parseInt s with
    | some n => .ok n
    | none => .error .valueError
  | .null | .arr _ | .obj _ => .error .typeError

/-- The witness of a conditional command; a missing one is -1, which no controller has. -/
def witnessVersion (witness : Option Json) : Except PyError Int :=
  match witness with
  | none | some .null => .ok (-1)
  | some v => toInt v

/-- The command that `_actuate_cell` sends to the emulated controller. -/
def cellCommand (ticket : Nat) (id : Str) (method : CellMethod) (witness : Option Json) (deadlineMs : ℚ) :
    Except PyError CellCommand :=
  match method with
  | .plain => .ok (resume ticket id)
  | .conditional => (witnessVersion witness).map fun expected => conditionalResume ticket id expected deadlineMs
  | .predicate => .ok (predicateResume ticket id deadlineMs)

variable {cfg : SiteConfig}

/-- `_actuate_cell`. -/
def actuateCell (ticket : Nat) (id : Str) (method : CellMethod) (witness : Option Json) (deadlineMs : ℚ) :
    Handler cfg Str :=
  match cellCommand ticket id method witness deadlineMs with
  | .error _ => throw .internal
  | .ok command => do
    step (.actuateCell ticket command)
    let reply : Option CellAnswer ← step (.cellAnswer ticket)
    match reply with
    | some result => return result.text
    | none => throw .internal

/-- `_actuate_cell` for the PLC over Modbus. -/
def actuatePlc (method : CellMethod) (witness : Option Json) : Handler cfg Str :=
  match witness.filter fun v => decide (v ≠ .null) with
  | none => step (.plcCommand none method)
  | some v =>
    match toInt v with
    | .error _ => throw .internal
    | .ok expected => step (.plcCommand (some expected) method)

/-- The middleware or controller call: the controller's answer, and whether ROS published. -/
def callActuator (ticket : Nat) (id : Str) (actuator : Actuator) (witness : Option Json) (deadlineMs : ℚ) :
    Handler cfg (Option Str × Bool) := do
  match actuator with
  | .middleware =>
    let ros : Bool ← step .publish
    return (none, ros)
  | .plc method =>
    let text ← actuateCell ticket id method witness deadlineMs
    return (some text, false)
  | .openplc method =>
    let text ← actuatePlc method witness
    return (some text, false)

/-! ### Requests to XAIR -/

/-- A request: it may not arrive, and its answer may be lost. -/
def http {α : Type} (handler : Handler cfg α) : Handler cfg α := do
  step .send
  let out ← handler
  step .send
  return out

/-- `XAIR.report_release`; what it raises is left to the audit. -/
def sendRelease (ticket : Nat) (id : Str) (released : Bool) (reason : Str) (contextVersion readSetVersion : Option Int)
    (effect : Option (EffectStatus × Str)) : Handler cfg Unit :=
  tryCatch (do
      step (.sendReport ⟨ticket, id, released, effect.map Prod.fst⟩)
      let _ ← http (releaseReport id released reason contextVersion readSetVersion effect)
      return ())
    fun _ => pure ()

/-- `XAIR.withheld`. -/
def sendWithheld (ticket : Nat) (id : Str) (reason : Str) (append : Fate) : Handler cfg Unit :=
  tryCatch (do
      step (.sendReport ⟨ticket, id, false, none⟩)
      let _ ← http (withheldReport id reason append)
      return ())
    fun _ => pure ()

/-! ### The three ways to a release -/

/-- The version that the gate compares with the one at validation. -/
def SubmitAnswer.version (result : SubmitAnswer) : VersionScope → Int
  | .readset => result.readSetVersion
  | .truth => result.predicateVersion
  | .global | .predicate => result.contextVersion

/-- `_gate_version`, and the version of the predicates in the truth scope. -/
def gateVersion (result : SubmitAnswer) (scope : VersionScope) (doc : SnapshotDoc) : Int :=
  match scope with
  | .truth => predicateVersion doc.preds result.predicates
  | .global => doc.snapshot.version
  | .readset | .predicate => readSetVersion doc.snapshot.pathVersions result.readSet

/-- The checks of the optimistic gate; the second component is the reason. -/
def gateCheck (cfg : SiteConfig) (result : SubmitAnswer) (i : ActionIntent) (scope : VersionScope) (doc : SnapshotDoc)
    (state : Option IntentState) (now : ℚ) (timedOut : Nat → Nat → Bool) : Except PyError (Bool × Str) :=
  if !doc.trusted then .ok (false, "context_untrusted_at_publish".toList)
  else if state ≠ some .authorized then .ok (false, "intent_not_authorized_at_gate".toList)
  else if scope ≠ .predicate ∧ (gateVersion result scope doc < 0 ∨ result.version scope < 0 ∨
      gateVersion result scope doc ≠ result.version scope) then .ok (false, "version_changed_at_gate".toList)
  else
    match cfg.config.validateRelease i now with
    | (false, reason) => .ok (false, reason ++ "_at_publish".toList)
    | (true, _) => do
      let (ok, reason) ← evaluatePredicates (timedOut 0) i.safetyConstraints i.preconditions doc.snapshot.context
      if ok then
        let (ok, reason) ← evaluatePredicates (timedOut 1) result.policyPredicates [] doc.snapshot.context
        if ok then .ok (true, "published_after_gate_recheck".toList) else .ok (false, reason ++ "_at_publish".toList)
      else .ok (false, reason ++ "_at_publish".toList)

/-- A stop goes straight to the middleware. -/
def releaseStop (ticket : Nat) (id : Str) : Handler cfg GatewayResult := do
  let reason := "released_risk_reducing_action".toList
  step (.startCall ticket id none)
  let (cellResult, rosOk) ← tryCatch (callActuator ticket id .middleware none 0) fun _ =>
    pure (some "error".toList, false)
  sendRelease ticket id true reason none none (some (effectOf cellResult rosOk))
  return ⟨some .execute, reason, true⟩

/-- The atomic branch up to the report. A call that was started and failed has an unknown effect. -/
def commitAndCall (ticket : Nat) (q : GatewayQuery) (i : ActionIntent) (result : SubmitAnswer) : Handler cfg Release := do
  let act ← http (commitIntent result.id (if q.scope = .truth then .truth else .readset) q.commitMarginMs)
  if act.committed then
    let now : ℚ ← step .time
    let (timely, late) := if q.releaseGuard then cfg.config.validateRelease i now else (true, [])
    if timely then
      let witness := result.readValues.lookup "line.version".toList
      step (.startCall ticket result.id witness)
      let (cellResult, rosOk) ← tryCatch (callActuator ticket result.id q.actuator witness (cfg.config.cellDeadlineMs i))
        fun _ => pure (some "error".toList, false)
      return .called act.reason cellResult rosOk
    else
      let reason := "withheld_by_release_guard:".toList ++ late
      sendWithheld ticket result.id reason q.append
      return .blocked reason
  else return .blocked act.reason

def releaseAtomic (ticket : Nat) (q : GatewayQuery) (i : ActionIntent) (result : SubmitAnswer) :
    Handler cfg GatewayResult := do
  let release ← tryCatch (commitAndCall ticket q i result) fun _ => pure (.blocked "atomic_actuation_error".toList)
  match release with
  | .blocked reason => return ⟨some .revoke, reason, false⟩
  | .called reason cellResult rosOk =>
    sendRelease ticket result.id true reason none none (some (effectOf cellResult rosOk))
    return ⟨some .execute, reason, true⟩

/-- `_pull_xair_snapshot_timed`. -/
def pullSnapshot (exprs : Option (List Str)) (id : Str) : Handler cfg (SnapshotDoc × Option IntentState) :=
  tryCatch (http (contextSnapshot exprs (some id))) fun _ => pure (untrustedDoc 0, none)

/-- The optimistic branch from the gate's snapshot to the end of the call. -/
def checkAndCall (ticket : Nat) (q : GatewayQuery) (i : ActionIntent) (result : SubmitAnswer) (doc : SnapshotDoc)
    (state : Option IntentState) (timedOut : Nat → Nat → Bool) : Handler cfg Release := do
  let now : ℚ ← step .time
  match gateCheck cfg result i q.scope doc state now timedOut with
  | .error _ => throw .internal
  | .ok (false, reason) => return .blocked reason
  | .ok (true, reason) =>
    let witness := (getPath doc.snapshot.context "line.version".toList).or (result.readValues.lookup "line.version".toList)
    step (.startCall ticket result.id witness)
    let (cellResult, rosOk) ← callActuator ticket result.id q.actuator witness (cfg.config.cellDeadlineMs i)
    return .called reason cellResult rosOk

def releaseOptimistic (ticket : Nat) (q : GatewayQuery) (i : ActionIntent) (result : SubmitAnswer)
    (timedOut : Nat → Nat → Bool) : Handler cfg GatewayResult := do
  let (doc, state) ← pullSnapshot (if q.scope = .truth then some result.predicates else none) result.id
  let release ← tryCatch (checkAndCall ticket q i result doc state timedOut) fun _ =>
    pure (.blocked "publication_gate_error".toList)
  let version := gateVersion result q.scope doc
  let contextVersion := if q.scope = .global then some version else none
  let readSetVersion := if q.scope = .readset then some version else none
  match release with
  | .blocked reason =>
    sendRelease ticket result.id false reason contextVersion readSetVersion none
    return ⟨some .revoke, reason, false⟩
  | .called reason cellResult rosOk =>
    sendRelease ticket result.id true reason contextVersion readSetVersion (some (effectOf cellResult rosOk))
    return ⟨some .execute, reason, true⟩

/-- `_xair_policy`. -/
def xairPolicy (ticket : Nat) (q : GatewayQuery) (body : ActionIntent) (timedOut gateTimedOut : Nat → Nat → Bool) :
    Handler cfg GatewayResult := do
  let submitted ← tryCatch (do let result ← http (submitIntent ticket (some body) timedOut); return some result)
    fun _ => pure none
  match submitted with
  | none => return ⟨some .revoke, "xair_unreachable".toList, false⟩
  | some result =>
    let i := { body with payload := result.authorizedPayload.getD body.payload }
    if result.duplicate then return ⟨result.outcome, "duplicate_idempotent_replay".toList, false⟩
    else if result.outcome ≠ some .execute then return ⟨result.outcome, result.reason, false⟩
    else if result.actionClass = .stop then releaseStop ticket result.id
    else if q.atomic then releaseAtomic ticket q i result
    else releaseOptimistic ticket q i result gateTimedOut

end

end Xair
