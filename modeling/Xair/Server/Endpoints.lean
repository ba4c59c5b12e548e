import Xair.Server.Site

/-!
# The HTTP endpoints

`http_server.py`: each handler is a program over the site. The store may be out of
reach at any step, and the steps of other requests may come in between.
-/

namespace Xair

open Library

/-- How a request fails. -/
inductive HttpError where
  | notFound | conflict | unprocessable | internal
  deriving DecidableEq

def RuntimeError.http : RuntimeError → HttpError
  | .py _ => .internal
  | .keyError _ => .notFound
  | .invalidTransition _ _ _ => .conflict

/-- What `POST /v1/intents` answers, as far as a client reads it. -/
structure SubmitAnswer where
  id : Str
  state : IntentState
  outcome : Option DecisionOutcome
  reason : Str
  contextVersion : Nat
  readSet : List Str
  readSetVersion : Nat
  policyPredicates : List Str
  actionClass : ActionClass
  predicates : List Str
  predicateVersion : Int
  readValues : List (Str × Json)
  duplicate : Bool
  authorizedPayload : Option ActionDescriptor

/-- `_rejection`. -/
def rejection (id reason : Str) (version : Nat) : SubmitAnswer :=
  ⟨id, .revoked, some .revoke, reason, version, [], 0, [], .other, [], -1, [], false, none⟩

/-- What the record says in an answer; `context` is the snapshot validated. -/
def submitAnswer (id : Str) (record : IntentRecord) (duplicate : Bool) (context : Option Members)
    (payload : Option ActionDescriptor) : SubmitAnswer where
  id := id
  state := record.state
  outcome := record.outcome
  reason := record.reason
  contextVersion := record.contextVersion
  readSet := record.readSet
  readSetVersion := record.readSetVersion
  policyPredicates := record.policyPredicates
  actionClass := record.actionClass
  predicates := record.predicates
  predicateVersion := record.predicateVersion
  readValues := match context with
    | some context => record.readSet.filterMap fun path => (getPath context path).map fun value => (path, value)
    | none => []
  duplicate := duplicate
  authorizedPayload := payload

structure CommitAnswer where
  committed : Bool
  status : CommitStatus
  reason : Str
  state : IntentState
  commitVersion : Option Int
  seq : Option Nat
  deriving DecidableEq

/-- `_COMMIT_REASONS`. -/
def CommitStatus.reason : CommitStatus → Scope → String
  | committed, _ => "authorization_committed"
  | changed, .readset => "read_set_version_changed_at_commit"
  | changed, .truth => "predicate_truth_changed_at_commit"
  | expired, _ => "age_bound_exceeded_at_commit"
  | duplicate, _ => "duplicate_commit_already_logged"
  | futureSkew, _ => "decision_ahead_of_store_clock_at_commit"
  | unavailable, _ => "context_untrusted_at_commit"

/-- The text of the fence: no stop after the decision, less the uncertainty of the clocks. -/
def SiteConfig.fencePredicate (cfg : SiteConfig) (i : ActionIntent) : Str :=
  "stop.".toList ++ cfg.stopKey i.target ++ " <= ".toList ++
    intText (truncate ((i.timestampDecision - cfg.config.clockUncertaintyMs) * 1000))

/-- `(ctx.get("stop") or {}).get(key)`; an error if there is something else than an object. -/
def stopEpoch (context : Members) (key : Str) : Except PyError (Option Json) :=
  match context.get "stop".toList with
  | none => .ok none
  | some (.obj epochs) => .ok ((epochs.get key).filter fun v => decide (v ≠ .null))
  | some v => if v.truthy then .error .typeError else .ok none

/-- `{"stop": {key: epoch}}`. -/
def stopPatch (key : Str) (epoch : Int) : Members := .single "stop" (.obj (.cons key (.int epoch) .nil))

section

variable [PyText] (cfg : SiteConfig)

abbrev Handler := Method (site cfg) Unit HttpError

variable {cfg : SiteConfig}

/-- A step that fails the request if it fails. -/
def step (c : SiteCommand) : Handler cfg c.Reply := Method.command (fun _ => .internal) (show (site cfg).Command from c)

/-- A step of the store that may fail without failing the request. -/
def attempted (c : SiteCommand) : Handler cfg (Option c.Reply) :=
  tryCatch (do let reply ← step c; return some reply) fun _ => pure none

/-- A method of the runtime; what it raises fails the request. -/
def answered {α : Type} (reply : Except RuntimeError α) : Handler cfg α :=
  match reply with
  | .ok a => pure a
  | .error e => throw e.http

/-- Do this for every item, in order. -/
def each {α β : Type} (f : α → Handler cfg β) : List α → Handler cfg (List β)
  | [] => pure []
  | x :: rest => do
    let y ← f x
    let ys ← each f rest
    return y :: ys

/-! ### The context -/

/-- `read_snapshot`. -/
def readSnapshot : Handler cfg (Snapshot × Bool) := do
  let reply : Option Snapshot ← attempted .snapshot
  match reply with
  | some snapshot =>
    step (.install snapshot)
    return (snapshot, true)
  | none =>
    let last : Snapshot ← step .lastView
    return (last, false)

/-- `update_context_store`. -/
def updateContextStore (patch : Members) : Handler cfg Unit := do
  let _ ← attempted (.update patch)
  if cfg.layout ≠ .shard then
    let _ ← readSnapshot
    return ()
  else return ()

/-- `with _STOP_LOCK`. -/
def withStopLock {α : Type} (ticket : Nat) (body : Handler cfg α) : Handler cfg α := do
  step (.acquireStopLock ticket)
  let out ← tryCatch body fun e => do
    step .releaseStopLock
    throw e
  step .releaseStopLock
  return out

/-- The epoch of a bucket is set to 0 at its first sight. -/
def initStopEpoch (key : Str) : Handler cfg Bool := do
  let (snapshot, trusted) ← readSnapshot
  if trusted then
    match stopEpoch snapshot.context key with
    | .error _ => throw .internal
    | .ok (some _) => return true
    | .ok none =>
      updateContextStore (stopPatch key 0)
      return true
  else return false

/-- `_fence_intent`. -/
def fenceIntent (ticket : Nat) (ref : Ref) : Handler cfg Unit := do
  let cls : ActionClass ← step (.actionClass ref)
  if cfg.stopFence = false ∨ cls.riskReducing = true then return ()
  else
    let i : ActionIntent ← step (.intent ref)
    let trusted ← withStopLock ticket (initStopEpoch (cfg.stopKey i.target))
    if trusted then
      let i : ActionIntent ← step (.intent ref)
      step (.setPreconditions ref (i.preconditions ++ [cfg.fencePredicate i]))
    else return ()

/-- `_record_stop`. -/
def recordStop (ticket : Nat) (ref : Ref) (id : Str) (record : IntentRecord) : Handler cfg Unit := do
  let record : IntentRecord ← step (.current id record)
  if cfg.stopFence = false ∨ record.state ≠ .authorized then return ()
  else
    let i : ActionIntent ← step (.intent ref)
    withStopLock ticket do
      let now : ℚ ← step .time
      updateContextStore (stopPatch (cfg.stopKey i.target) (truncate (now * 1000)))
    let _ ← attempted (.appendActuation (stopTombstone i))
    return ()

/-- `store.register_and_snapshot`, untrusted when the store is out of reach; without a server what it raises
fails the request. -/
def registeredSnapshot (exprs : List Str) : Handler cfg SnapshotDoc := do
  let reply : Option SnapshotDoc ← attempted (.registerAndSnapshot exprs)
  match reply with
  | some doc => if cfg.redisRequired = false ∧ doc.trusted = false then throw .internal else return doc
  | none =>
    let last : Snapshot ← step .lastView
    return untrustedDoc last.version

/-! ### Submissions -/

/-- `runtime.process_intent`. -/
def processNow (ticket : Nat) (ref : Ref) (call : ProcessCall) : Handler cfg IntentRecord := do
  let reply : Except RuntimeError IntentRecord ← step (.process ticket ref call)
  answered reply

/-- `_validate_now`; `timedOut` are the readings of the evaluation budget in the two passes. -/
def validateNow (ticket : Nat) (ref : Ref) (id : Str) (call : (Nat → Bool) → ProcessCall) (timedOut : Nat → Nat → Bool) :
    Handler cfg IntentRecord := do
  let record ← processNow ticket ref (call (timedOut 0))
  let now : IntentRecord ← step (.current id record)
  if now.state = .degraded then processNow ticket now.intent (call (timedOut 1)) else return now

/-- A pass on the installed context. -/
def installedCall (timedOut : Nat → Bool) : ProcessCall := ⟨0, timedOut, none, none, none, none, false⟩

/-- A pass on a snapshot with its versions. -/
def snapshotCall (doc : SnapshotDoc) (timedOut : Nat → Bool) : ProcessCall :=
  ⟨0, timedOut, some doc.snapshot.context, some doc.snapshot.version, some doc.snapshot.pathVersions, some doc.preds, false⟩

/-- The pass of a batch: the context and its version only. -/
def contextCall (snapshot : Snapshot) (timedOut : Nat → Bool) : ProcessCall :=
  ⟨0, timedOut, some snapshot.context, some snapshot.version, none, none, false⟩

/-- The answer on a record as it is now. -/
def answer (id : Str) (record : IntentRecord) (duplicate : Bool) (context : Option Members) : Handler cfg SubmitAnswer := do
  let now : IntentRecord ← step (.current id record)
  if now.state = .authorized then
    let i : ActionIntent ← step (.intent now.intent)
    return submitAnswer id now duplicate context (some i.payload)
  else return submitAnswer id now duplicate context none

/-- The transition by which a handler withdraws an intent. -/
def withdraw (id : Str) (reason : String) : Handler cfg IntentRecord := do
  let reply : Except RuntimeError IntentRecord ← step (.transition id .revoked (some .revoke) reason.toList)
  answered reply

/-- The intent is new to this process, or delayed: fence it, register its predicates and validate it. -/
def validateFresh (ticket : Nat) (ref : Ref) (id : Str) (timedOut : Nat → Nat → Bool) : Handler cfg SubmitAnswer := do
  fenceIntent ticket ref
  let exprs : List Str ← step (.prepare ref)
  let doc ← registeredSnapshot exprs
  if doc.trusted then
    if cfg.layout ≠ .shard then step (.install doc.snapshot)
    let record ← validateNow ticket ref id (snapshotCall doc) timedOut
    answer id record false (some doc.snapshot.context)
  else
    let _ ← withdraw id "context_store_untrusted"
    return rejection id "context_store_untrusted".toList doc.snapshot.version

/-- What follows the duplicate check of `submit_intent`. -/
def submitAdmitted (ticket : Nat) (ref : Ref) (id : Str) (firstAdmission : Bool) (timedOut : Nat → Nat → Bool) :
    Handler cfg SubmitAnswer := do
  let cls : ActionClass ← step (.actionClass ref)
  if cls.riskReducing then
    let record ← validateNow ticket ref id installedCall timedOut
    recordStop ticket ref id record
    answer id record false none
  else if firstAdmission then
    let claimed : Option Bool ← attempted (.claimIntent id)
    if claimed = some true then validateFresh ticket ref id timedOut
    else
      let _ ← withdraw id "duplicate_after_restart"
      return rejection id "duplicate_after_restart".toList 0
  else validateFresh ticket ref id timedOut

/-- `submit_intent`; `none` is a body that is not a valid intent. -/
def submitIntent (ticket : Nat) (body : Option ActionIntent) (timedOut : Nat → Nat → Bool) : Handler cfg SubmitAnswer := do
  match body with
  | none =>
    let (snapshot, _) ← readSnapshot
    return rejection [] "schema_invalid".toList snapshot.version
  | some i =>
    let ref : Ref ← step (.create { i with policyAdded := none })
    let reply : Except RuntimeError (IntentRecord × Bool) ← step (.admitIntent ref)
    let (record, duplicate) ← answered reply
    if duplicate then
      let now : IntentRecord ← step (.current i.id record)
      -- a delayed intent was never authorized: it is validated again
      if now.state = .delayed then submitAdmitted ticket now.intent i.id false timedOut
      else answer i.id record true none
    else submitAdmitted ticket ref i.id true timedOut

/-! ### Batches -/

structure BatchResult where
  id : Str
  source : Str
  outcome : Option DecisionOutcome
  reason : Str
  deriving DecidableEq

/-- An intent of a batch, with its reference. -/
abbrev Item := Ref × ActionIntent

/-- The sort of `resolve`: by priority, then XR before others, then as submitted. -/
def outranks (a b : Item) : Bool :=
  decide (b.2.priority < a.2.priority) ||
    (decide (a.2.priority = b.2.priority) && (decide (a.2.source = "xr".toList) || decide (b.2.source ≠ "xr".toList)))

/-- `resolve`: the winner and the losers. -/
def resolveItems (items : List Item) : Option Item × List Item :=
  match items.mergeSort outranks with
  | [] => (none, [])
  | winner :: losers => (some winner, losers)

/-- The targets in the order in which they appear. -/
def targetsOf (items : List Item) : List Str := uniqueFirst (items.map fun item => item.2.target)

def batchResult (item : Item) (record : IntentRecord) : BatchResult :=
  ⟨item.2.id, item.2.source, record.outcome, record.reason⟩

/-- The result of an item from its record as it is now. -/
def itemResult (item : Item) (record : IntentRecord) : Handler cfg BatchResult := do
  let now : IntentRecord ← step (.current item.2.id record)
  return batchResult item now

def admitItem (item : Item) : Handler cfg (IntentRecord × Bool) := do
  let reply : Except RuntimeError (IntentRecord × Bool) ← step (.admitIntent item.1)
  answered reply

/-- A stop of a batch. -/
def batchStop (ticket : Nat) (timedOut : Ref → Nat → Nat → Bool) (item : Item) : Handler cfg BatchResult := do
  let (record, _) ← admitItem item
  let now : IntentRecord ← step (.current item.2.id record)
  if now.state = .created then
    let record ← validateNow ticket item.1 item.2.id installedCall (timedOut item.1)
    recordStop ticket item.1 item.2.id record
    itemResult item record
  else itemResult item now

/-- An intent that a stop or a winner of the batch sets aside. -/
def batchLoser (reason : String) (item : Item) : Handler cfg BatchResult := do
  let (record, duplicate) ← admitItem item
  if duplicate then itemResult item record
  else
    let record ← withdraw item.2.id reason
    itemResult item record

/-- A winner of a batch, validated on a snapshot read after its fence. -/
def batchWinner (ticket : Nat) (timedOut : Ref → Nat → Nat → Bool) (item : Item) : Handler cfg BatchResult := do
  let (record, duplicate) ← admitItem item
  if duplicate then itemResult item record
  else
    fenceIntent ticket item.1
    let (snapshot, _) ← readSnapshot
    let record ← validateNow ticket item.1 item.2.id (contextCall snapshot) (timedOut item.1)
    let now : IntentRecord ← step (.current item.2.id record)
    if now.state = .authorized then step (.releaseTarget now)
    itemResult item now

/-- Where an item of a batch goes. -/
inductive Sorted where
  | refused (result : BatchResult)
  | stop (item : Item)
  | other (item : Item)

def Sorted.refusal : Sorted → Option BatchResult
  | refused result => some result
  | _ => none

def Sorted.stopItem : Sorted → Option Item
  | stop item => some item
  | _ => none

def Sorted.otherItem : Sorted → Option Item
  | other item => some item
  | _ => none

/-- The first loop of a batch; `.error` is an item that is not a valid intent, with its result. -/
def sortItem (trusted : Bool) (body : Except BatchResult ActionIntent) : Handler cfg Sorted := do
  match body with
  | .error result => return .refused result
  | .ok i =>
    let ref : Ref ← step (.create { i with policyAdded := none })
    let cls : ActionClass ← step (.actionClass ref)
    if cls.riskReducing then return .stop (ref, i)
    else if trusted then return .other (ref, i)
    else return .refused ⟨i.id, i.source, some .revoke, "context_store_untrusted".toList⟩

/-- `submit_intent_batch`. -/
def submitIntentBatch (ticket : Nat) (bodies : List (Except BatchResult ActionIntent))
    (timedOut : Ref → Nat → Nat → Bool) :
    Handler cfg (List BatchResult) := do
  let (_, trusted) ← readSnapshot
  let sorted ← each (sortItem trusted) bodies
  let stops := sorted.filterMap Sorted.stopItem
  let intents := sorted.filterMap Sorted.otherItem
  let stopResults ← each (batchStop ticket timedOut) stops
  let stopped := stops.map fun item => item.2.target
  let preempted ← each (batchLoser "preempted_by_stop") (intents.filter fun item => decide (item.2.target ∈ stopped))
  let rest := intents.filter fun item => decide (item.2.target ∉ stopped)
  let groups := (targetsOf rest).map fun target => resolveItems (rest.filter fun item => decide (item.2.target = target))
  let losers ← each (batchLoser "conflict_loser") (groups.flatMap Prod.snd)
  let winners ← each (batchWinner ticket timedOut) (groups.filterMap Prod.fst)
  return sorted.filterMap Sorted.refusal ++ stopResults ++ preempted ++ losers ++ winners

/-! ### Commit and reports -/

/-- `store.commit_authorization`. -/
def storedCommit (req : CommitRequest) : Handler cfg CommitResult := do
  let reply : Option CommitResult ← attempted (.commitAuthorization req)
  match reply with
  | some result => return result
  | none =>
    let last : Snapshot ← step .lastView
    return .unavailable last.version

/-- `commit_authorization`, once its record is found to be authorized. -/
def commitAuthorized (id : Str) (record : IntentRecord) (scope : Scope) (marginMs : ℚ) : Handler cfg CommitAnswer := do
  let now : ℚ ← step .time
  let i : ActionIntent ← step (.intent record.intent)
  let (onTime, skew) := cfg.config.validateRelease i now
  if onTime = false ∧ startsWith "future_skew".toList skew = true then
    let reply : Except RuntimeError IntentRecord ← step (.recordCommit id false (skew ++ "_at_commit".toList) none)
    let final ← answered reply
    return ⟨false, .futureSkew, final.reason, final.state, none, none⟩
  else
    let result ← storedCommit (cfg.config.commitRequest i record scope marginMs)
    let committed := decide (result.status = .committed ∨ result.status = .duplicate)
    let reply : Except RuntimeError IntentRecord ←
      step (.recordCommit id committed (result.status.reason scope).toList (if committed then result.seq else none))
    let final ← answered reply
    return ⟨committed, result.status, final.reason, final.state, some result.commitVersion, result.seq⟩

/-- `POST /v1/intents/{id}/commit`. -/
def commitIntent (id : Str) (scope : Scope) (marginMs : ℚ) : Handler cfg CommitAnswer := do
  if marginMs < 0 then throw .unprocessable
  else
    let found : Option IntentRecord ← step (.recordOf id)
    match found with
    | none => throw .notFound
    | some record => if record.state = .authorized then commitAuthorized id record scope marginMs else throw .conflict

/-- `POST /v1/intents/{id}/effect`. -/
def effectReport (id : Str) (status : EffectStatus) (detail : Str) : Handler cfg IntentRecord := do
  let reply : Except RuntimeError IntentRecord ← step (.reportEffect id status detail)
  answered reply

/-- `POST /v1/intents/{id}/release`. -/
def releaseReport (id : Str) (released : Bool) (reason : Str) (contextVersion readSetVersion : Option Int)
    (effect : Option (EffectStatus × Str)) : Handler cfg IntentRecord := do
  let reply : Except RuntimeError IntentRecord ← step (.reportRelease id released reason contextVersion readSetVersion)
  let record ← answered reply
  match effect with
  | some (status, detail) => if record.state = .released then effectReport id status detail else return record
  | none => return record

/-- `POST /v1/intents/{id}/withheld`; the tombstone's fate is that of its append. -/
def withheldReport (id : Str) (reason : Str) (append : Fate) : Handler cfg IntentRecord := do
  let reply : Except RuntimeError IntentRecord ← step (.reportWithheld id reason append)
  answered reply

/-- `DELETE /v1/intents/{id}`. -/
def revokeIntent (id : Str) : Handler cfg IntentRecord := do
  let reply : Except RuntimeError IntentRecord ← step (.supervisoryRevoke id "human_supervisory_revoke".toList)
  answered reply

/-! ### Context and policy -/

/-- The document of `GET /v1/context/snapshot`, with the versions of the predicates asked for. -/
def snapshotDocument (exprs : Option (List Str)) : Handler cfg SnapshotDoc := do
  match exprs with
  | some exprs =>
    let reply : Option SnapshotDoc ← attempted (.snapshotWithPredicates exprs)
    match reply with
    | some doc =>
      if cfg.layout ≠ .shard then step (.install doc.snapshot)
      return doc
    | none =>
      let last : Snapshot ← step .lastView
      return untrustedDoc last.version
  | none =>
    let (snapshot, trusted) ← readSnapshot
    return ⟨snapshot, Dict.empty, trusted⟩

/-- `GET /v1/context/snapshot`: the snapshot, and the state of an intent read after it. -/
def contextSnapshot (exprs : Option (List Str)) (id : Option Str) : Handler cfg (SnapshotDoc × Option IntentState) := do
  let doc ← snapshotDocument exprs
  match id with
  | some id =>
    let found : Option IntentRecord ← step (.recordOf id)
    return (doc, found.map IntentRecord.state)
  | none => return (doc, none)

/-- `PUT /v1/policy`, with the policy that `set_policy` reads. -/
def putPolicy (policy : Policy) : Handler cfg Unit := step (.setPolicy policy)

end

end Xair
