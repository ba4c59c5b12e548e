import Xair.Runtime.Validation

/-!
# Runtime operations

Each operation runs under the runtime's lock, so it is one step for every other
request. What it wrote before it raises stays written.
-/

namespace Xair

open Library

/-! ### The receiver's queue -/

def QueuedIntent.before (a b : QueuedIntent) : Bool :=
  decide (a.priority < b.priority) || (decide (a.priority = b.priority) && decide (a.seq < b.seq))

def insertQueued (q : QueuedIntent) : List QueuedIntent → List QueuedIntent
  | [] => [q]
  | x :: xs => if q.before x then q :: x :: xs else x :: insertQueued q xs

/-- `receiver.submit`. -/
def Runtime.submit (rt : Runtime) (ref : Ref) : Runtime :=
  { rt with
    queue := insertQueued ⟨-(rt.heap ref).priority, rt.counter, ref⟩ rt.queue
    counter := rt.counter + 1 }

/-! ### Admission -/

/-- The loop of `_expire_seen` over the entries of the seen-table, oldest first. -/
def expireItems (horizon : ℚ) : List (Str × ℚ) → Runtime → Runtime
  | [], rt => rt
  | (id, admittedAt) :: rest, rt =>
    if horizon ≤ admittedAt then rt
    else
      let rt := { rt with seen := rt.seen.erase id }
      let settled := match rt.records.get id with
        | some record => record.state.settled
        | none => false
      expireItems horizon rest (if settled then rt.forget id else rt)

/-- `_expire_seen`, at a reading of the monotonic clock. -/
def expireSeen (cfg : Config) (mono : ℚ) (rt : Runtime) : Runtime :=
  expireItems (mono - cfg.idempotencyRetentionS) rt.seen.items rt

/-- `admitIntent`: the record, and whether it is a duplicate. -/
def admitIntent (cfg : Config) (ref : Ref) (mono : ℚ) (enqueue : Bool) : RuntimeM (IntentRecord × Bool) := do
  modify (expireSeen cfg mono)
  let rt ← get
  let id := (rt.heap ref).id
  match if rt.seen.contains id then rt.records.get id else none with
  | some record => return (record, true)
  | none =>
    let rt := { rt with seen := rt.seen.insert id mono }
    let rt := (rt.count fun m => { m with intentsReceived := m.intentsReceived + 1 }).register ref
    set (if enqueue then rt.submit ref else rt)
    return (.fresh ref, false)

/-! ### The installed context -/

/-- `install_context_snapshot(snapshot, version, replace=True)`. -/
def installContextSnapshot (snapshot : Members) (version : Nat) (rt : Runtime) : Runtime :=
  if version < rt.contextVersion then rt else { rt with contextVersion := version, context := snapshot }

/-- `install_context_snapshot(snapshot, version)`, which merges. -/
def mergeContextSnapshot (snapshot : Members) (version : Nat) (rt : Runtime) : Runtime :=
  if version < rt.contextVersion then rt
  else { rt with contextVersion := version, context := deepMerge rt.context snapshot }

/-- `update_context`. -/
def updateContext (patch : Members) (rt : Runtime) : Runtime := { rt with context := deepMerge rt.context patch }

/-! ### Validation -/

/-- The arguments of a validation pass, with the readings of the clocks during it. -/
structure ProcessCall where
  now : ℚ
  timedOut : Nat → Bool
  context : Option Members
  contextVersion : Option Nat
  pathVersions : Option (Dict Str Nat)
  predicateVersions : Option (Dict Str Entry)
  requeue : Bool

section

variable [PyText]

/-- `prepare`. -/
def prepare (ref : Ref) : RuntimeM (List Str) := do
  let rt ← get
  let i := (rt.policy.applyTo (rt.heap ref)).1
  set (rt.putIntent ref i)
  return registered i.predicates

/-- The decision on an intent at `t_v`, policy applied. -/
def decision (cfg : Config) (call : ProcessCall) (rt : Runtime) (i : ActionIntent) (snapshot : Members) :
    Except PyError (DecisionOutcome × Str) :=
  (evaluatePredicates call.timedOut i.safetyConstraints i.preconditions snapshot).map fun context =>
    decideOutcome i (cfg.validate i call.now) context (rt.busy i.target)

/-- The fields a validation pass records before it acts on its decision. -/
def validatedRecord (call : ProcessCall) (i : ActionIntent) (version : Nat) (record : IntentRecord) : IntentRecord :=
  let readSet := readSet i.predicates
  let predicates := registered i.predicates
  { record with
    contextVersion := version
    readSet := readSet
    readSetVersion := match call.pathVersions with
      | some pathVersions => readSetVersion pathVersions readSet
      | none => version
    predicates := predicates
    predicateVersion := match call.predicateVersions with
      | some predVersions => predicateVersion predVersions predicates
      | none => -1 }

/-- What a validation pass does with its decision. -/
def conclude (ref : Ref) (id : Str) (requeue : Bool) (outcome : DecisionOutcome) (reason : Str) :
    RuntimeM IntentRecord := do
  match outcome with
  | .degrade =>
    match applyDegradation ((← get).heap ref) with
    | .error e => throw (.py e)
    | .ok degraded =>
      modify fun rt => rt.putIntent ref degraded
      assign id fun r => { r with intent := ref }
      let record ← transition id .degraded (some outcome) reason
      modify fun rt => rt.count fun m => { m with degraded := m.degraded + 1 }
      modify fun rt => if requeue then rt.submit ref else rt
      return record
  | .execute =>
    modify fun rt => rt.acquire (rt.heap ref).target
    assign id fun r => { r with intent := ref }
    let record ← transition id .authorized (some outcome) reason
    modify fun rt => rt.count fun m => { m with authorized := m.authorized + 1 }
    return record
  | .delay =>
    let record ← transition id .delayed (some outcome) reason
    modify fun rt => rt.count fun m => { m with delayed := m.delayed + 1 }
    modify fun rt => if requeue then rt.submit ref else rt
    return record
  | .revoke =>
    let state := if startsWith "deadline".toList reason then .expired else .revoked
    let record ← transition id state (some outcome) reason
    modify fun rt => rt.count fun m => { m with revoked := m.revoked + 1 }
    return record

/-- A stop is authorized on schema validity alone. -/
def authorizeStop (ref : Ref) (id : Str) (installed : Nat) : RuntimeM IntentRecord := do
  modify fun rt => rt.putIntent ref { rt.heap ref with policyAdded := some [] }
  assign id fun r =>
    { r with intent := ref, contextVersion := installed, readSet := [], readSetVersion := 0, predicates := [] }
  let record ← transition id .authorized (some .execute) "risk_reducing_action".toList
  modify fun rt => rt.count fun m => { m with authorized := m.authorized + 1 }
  return record

/-- A pass on a snapshot older than the installed one. -/
def revokeStale (id : Str) (installed : Nat) : RuntimeM IntentRecord := do
  assign id fun r => { r with contextVersion := installed }
  let record ← transition id .revoked (some .revoke) "stale_context_snapshot".toList
  modify fun rt => rt.count fun m => { m with revoked := m.revoked + 1 }
  return record

/-- The evaluation of an intent that is not a stop. -/
def evaluate (cfg : Config) (call : ProcessCall) (ref : Ref) (id : Str) (snapshot : Members) (version : Nat) :
    RuntimeM IntentRecord := do
  let rt ← get
  let (i, added) := rt.policy.applyTo (rt.heap ref)
  set (rt.putIntent ref i)
  assign id fun r => { r with policyPredicates := added }
  match decision cfg call (← get) i snapshot with
  | .error e => throw (.py e)
  | .ok (outcome, reason) =>
    assign id (validatedRecord call i version)
    conclude ref id call.requeue outcome reason

/-- A validation pass on a record that is open to it. -/
def validationPass (cfg : Config) (call : ProcessCall) (ref : Ref) : RuntimeM IntentRecord := do
  let rt ← get
  let id := (rt.heap ref).id
  let installed := rt.contextVersion
  let snapshot := call.context.getD rt.context
  let version := match call.context with
    | none => installed
    | some _ => call.contextVersion.getD installed
  let _ ← transition id .pending none []
  let _ ← transition id .validating none []
  let cls := rt.policy.actionClass (rt.heap ref)
  assign id fun r => { r with actionClass := cls }
  if cls.riskReducing then authorizeStop ref id installed
  else if (call.contextVersion.any fun v => decide (v < installed)) then revokeStale id installed
  else evaluate cfg call ref id snapshot version

/-- `process_intent`. -/
def processIntent (cfg : Config) (call : ProcessCall) (ref : Ref) : RuntimeM IntentRecord := do
  let rt ← get
  match rt.records.get (rt.heap ref).id with
  | none =>
    set (rt.register ref)
    validationPass cfg call ref
  | some record => if record.state.validatable then validationPass cfg call ref else return record

/-- `process_next`; `none` if the queue is empty. -/
def processNext (cfg : Config) (call : ProcessCall) : RuntimeM (Option IntentRecord) := do
  let rt ← get
  match rt.queue with
  | [] => return none
  | q :: rest =>
    set { rt with queue := rest }
    return some (← processIntent cfg { call with
      context := none, contextVersion := none, pathVersions := none, predicateVersions := none, requeue := true }
      q.intent)

end

/-! ### Commit, release and effect -/

/-- `_reject`: audit a refused report and raise. -/
def reject {α : Type} (record : IntentRecord) (requested : IntentState) (reason : Str) : RuntimeM α := do
  let id := ((← get).heap record.intent).id
  note id ("rejected_report:".toList ++ requested.text.toList ++ ":".toList ++ reason)
  throw (.invalidTransition id record.state requested)

/-- `coordinator.release(record.intent)`. -/
def releaseTarget (record : IntentRecord) : RuntimeM Unit :=
  modify fun rt => rt.release (rt.heap record.intent).target

/-- `record_commit`. -/
def recordCommit (id : Str) (committed : Bool) (reason : Str) (seq : Option Nat) : RuntimeM IntentRecord := do
  let rt ← get
  match rt.records.get id with
  | none => throw (.keyError id)
  | some record =>
    let target : IntentState := if committed then .committed else .withheld
    if record.state = target ∧ (committed ∨ record.releaseDecision = some .withhold) then return record
    if record.state ≠ .authorized then reject record target reason
    else
      releaseTarget record
      if committed then
        assign id fun r => { r with commitSeq := seq }
        let record ← transition id .committed none reason
        modify fun rt => rt.count fun m => { m with committed := m.committed + 1 }
        return record
      else
        assign id fun r => { r with releaseDecision := some .withhold }
        let record ← transition id .withheld none reason
        modify fun rt => rt.count fun m => { m with withheld := m.withheld + 1 }
        return record

/-- The version check of a reported release from AUTHORIZED. -/
def gateVersionCheck (record : IntentRecord) (released : Bool) (reason : Str)
    (contextVersion readSetVersion : Option Int) : Bool × Str :=
  if record.state = .authorized ∧ released then
    match readSetVersion, contextVersion with
    | some v, _ => if v ≠ record.readSetVersion then (false, "read_set_version_changed_at_gate".toList) else (released, reason)
    | none, some v =>
      if v ≠ record.contextVersion then (false, "context_version_changed_at_publish".toList) else (released, reason)
    | none, none => (released, reason)
  else (released, reason)

/-- `report_release`. -/
def reportRelease (cfg : Config) (id : Str) (released : Bool) (reason : Str) (contextVersion readSetVersion : Option Int) :
    RuntimeM IntentRecord := do
  let rt ← get
  match rt.records.get id with
  | none => throw (.keyError id)
  | some record =>
    let wanted : ReleaseDecision := if released then .release else .withhold
    let requested : IntentState := if released then .released else .withheld
    if released = false ∧ record.state = .revoked then return record
    if record.releaseDecision = some wanted then return record
    if record.releaseDecision.isSome then reject record requested reason
    else if record.state ≠ .authorized ∧ record.state ≠ .committed then reject record requested reason
    else
      let (released, reason) := gateVersionCheck record released reason contextVersion readSetVersion
      releaseTarget record
      if released then
        assign id fun r => { r with releaseDecision := some .release }
        let record ← transition id .released none reason
        modify fun rt => rt.count fun m => { m with released := m.released + 1 }
        modify fun rt => if cfg.callback then { rt with actuated := rt.actuated ++ [record.intent] } else rt
        return record
      else
        assign id fun r => { r with releaseDecision := some .withhold }
        let record ← transition id .withheld none reason
        modify fun rt => rt.count fun m => { m with withheld := m.withheld + 1 }
        return record

/-- `report_effect`. -/
def reportEffect (id : Str) (status : EffectStatus) (detail : Str) : RuntimeM IntentRecord := do
  let rt ← get
  match rt.records.get id with
  | none => throw (.keyError id)
  | some record =>
    if record.state = status.state then return record
    if status.state ∉ record.state.allowed then reject record status.state detail
    else
      assign id fun r => { r with effectStatus := some status, effectDetail := detail }
      let record ← transition id status.state none (if detail = [] then status.text.toList else detail)
      modify fun rt => rt.count fun m => match status with
        | .confirmed => { m with effectConfirmed := m.effectConfirmed + 1 }
        | .failed => { m with effectFailed := m.effectFailed + 1 }
        | .unknown => { m with effectUnknown := m.effectUnknown + 1 }
      return record

/-- `supervisory_revoke`. -/
def supervisoryRevoke (id : Str) (reason : Str) : RuntimeM IntentRecord := do
  let rt ← get
  match rt.records.get id with
  | none => throw (.keyError id)
  | some _ =>
    let record ← transition id .revoked (some .revoke) reason
    releaseTarget record
    return record

end Xair
