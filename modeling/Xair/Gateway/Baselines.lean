import Xair.Gateway.Rego

/-!
# The other policies of the gateway

`process_intent_payload` without the two modes that ask XAIR to validate, the cache of the
gateway, and `update_context_store_timed` of `runtime_state.py` with a policy engine: the
update and its replication to the engine are one section under `_opa_lock`.
-/

namespace Xair

open Library

mutual

/-- No number is infinite or NaN, which `json.dumps` writes as something that is no JSON. -/
def Json.standard : Json → Bool
  | .float (.fin _) => true
  | .float _ => false
  | .arr xs => xs.standard
  | .obj m => m.standard
  | _ => true

def Elems.standard : Elems → Bool
  | .nil => true
  | .cons v rest => v.standard && rest.standard

def Members.standard : Members → Bool
  | .nil => true
  | .cons _ v rest => v.standard && rest.standard

end

/-- The values of `?mode=` that leave the decision to the gateway or to the policy engine. -/
inductive Mode where
  | direct
  | naive
  | localFresh
  | localStale
  | localPush (notified : Bool)
  | localAuthoritative (scope : VersionScope)
  | opa (versioned : Bool)
  | unknown (name : Str)
  deriving DecidableEq

def Mode.name : Mode → Str
  | direct => "direct".toList
  | naive => "naive".toList
  | localFresh => "local".toList
  | localStale => "local_stale".toList
  | localPush _ => "local_push".toList
  | localAuthoritative _ => "local_authoritative".toList
  | opa _ => "opa".toList
  | unknown name => name

/-- The name of the policy in its results. -/
def Mode.baseline : Mode → Str
  | opa true => "opa_readset".toList
  | mode => mode.name

/-- The policy refreshes the cache before it validates. -/
def Mode.refreshes : Mode → Bool
  | localFresh | localPush true => true
  | _ => false

/-- One merge into the gateway's cache; `version` is that of the snapshot it comes from, if it comes from one. -/
structure CacheWrite where
  ticket : Nat
  version : Option Nat
  context : Members

/-- The cache after these merges. -/
def cacheAfter (writes : List CacheWrite) : Members := writes.foldl (fun cache w => deepMerge cache w.context) .nil

/-- One release, with the versions that the run decided on at validation and at the gate. -/
structure Released where
  ticket : Nat
  mode : Mode
  intent : Option ActionIntent
  versions : Option (Nat × Nat)

/-- A gateway, the XAIR process whose context it reads, and the engine that XAIR replicates to. -/
structure Bench where
  store : MemoryStore
  /-- What the process has last read of the store. -/
  view : Snapshot
  /-- The request that holds `_opa_lock`. -/
  opaLock : Option Nat
  /-- `data.xairstate`. -/
  engine : Option OpaState
  /-- Replications that have been given up: the engine may receive them yet. -/
  late : List OpaState
  opaReplications : Nat
  opaReplicationErrors : Nat
  /-- `_context_cache`. -/
  contextCache : Members
  clock : ℚ
  /-- History: the document that was replicated last, received or not. -/
  sent : Option OpaState
  /-- History: the updates of other processes. -/
  foreign : Nat
  /-- History: the times the clock has shown. -/
  times : List ℚ
  /-- History: the merges into the cache. -/
  cacheWrites : List CacheWrite
  /-- History: the releases that `_gateway_release_count` counts. -/
  releases : List Released

/-- Before any request. -/
def Bench.init (clock : ℚ) : Bench where
  store := .init
  view := .empty
  opaLock := none
  engine := none
  late := []
  opaReplications := 0
  opaReplicationErrors := 0
  contextCache := .nil
  clock := clock
  sent := none
  foreign := 0
  times := [clock]
  cacheWrites := []
  releases := []

inductive BenchCommand where
  | acquireOpaLock (ticket : Nat)
  | releaseOpaLock
  | update (patch : Members)
  | snapshot
  | lastView
  /-- The `PUT` of `_replicate_to_opa`: whether the engine accepts it. -/
  | put (doc : OpaState)
  | countReplication
  /-- The replication has failed: it is counted and not tried again. -/
  | giveUp (doc : OpaState)
  | decide (preds : List OpaPredicate) (expectedVersion : Option Nat)
  | cacheMerge (write : CacheWrite)
  | cacheSnapshot
  | time
  | send
  /-- `_release`. -/
  | release (entry : Released)

def BenchCommand.Reply : BenchCommand → Type
  | update _ => Except PyError Nat
  | snapshot => Snapshot
  | lastView => Snapshot
  | put _ => Bool
  | decide _ _ => Option (Option OpaDecision)
  | cacheSnapshot => Members
  | time => ℚ
  | _ => Unit

section

variable [PyText]

namespace Bench

/-- An update of the store, by whichever process. -/
def updated (cfg : SiteConfig) (patch : Members) (s : Bench) : Except PyError Bench :=
  (s.store.update cfg.predicateRetentionS (s.clock / 1000) patch).map fun m => { s with store := m }

def exec (cfg : SiteConfig) : (c : BenchCommand) → Bench → c.Reply × Bench
  | .acquireOpaLock ticket, s => ((), { s with opaLock := some ticket })
  | .releaseOpaLock, s => ((), { s with opaLock := none })
  | .update patch, s =>
    match s.updated cfg patch with
    | .ok s' => (.ok s'.store.snapshot.version, { s' with view := s'.store.snapshot })
    | .error e => (.error e, s)
  | .snapshot, s => (s.store.snapshot, { s with view := s.store.snapshot })
  | .lastView, s => (s.view, s)
  | .put doc, s =>
    if doc.context.standard then (true, { s with engine := some doc, sent := some doc })
    else (false, s)
  | .countReplication, s => ((), { s with opaReplications := s.opaReplications + 1 })
  | .giveUp doc, s =>
    ((), { s with
      opaReplicationErrors := s.opaReplicationErrors + 1
      late := if doc.context.standard then s.late ++ [doc] else s.late
      sent := some doc })
  | .decide preds expectedVersion, s =>
    match s.engine with
    | some state => ((opaDecide state preds expectedVersion).map some, s)
    | none => (if preds.all fun p => p.value.sendable then some none else none, s)
  | .cacheMerge write, s =>
    ((), { s with
      contextCache := deepMerge s.contextCache write.context
      cacheWrites := s.cacheWrites ++ [write] })
  | .cacheSnapshot, s => (s.contextCache, s)
  | .time, s => (s.clock, s)
  | .send, s => ((), s)
  | .release entry, s => ((), { s with releases := s.releases ++ [entry] })

end Bench

abbrev bench (cfg : SiteConfig) : Service := ⟨BenchCommand, BenchCommand.Reply, Bench, Bench.exec cfg⟩

variable (cfg : SiteConfig)

abbrev BenchHandler := Method (bench cfg) Unit HttpError

variable {cfg : SiteConfig}

/-- A step that fails the call if it fails. -/
def ask (c : BenchCommand) : BenchHandler cfg c.Reply := Method.command (fun _ => .internal) (show (bench cfg).Command from c)

/-- A step that may fail without failing the call. -/
def tried (c : BenchCommand) : BenchHandler cfg (Option c.Reply) :=
  tryCatch (do let reply ← ask c; return some reply) fun _ => pure none

/-- A request: it may not arrive, and its answer may be lost. -/
def request {α : Type} (handler : BenchHandler cfg α) : BenchHandler cfg α := do
  ask .send
  let out ← handler
  ask .send
  return out

/-! ### Updates of the context -/

/-- `with _opa_lock`. -/
def withOpaLock {α : Type} (ticket : Nat) (body : BenchHandler cfg α) : BenchHandler cfg α := do
  ask (.acquireOpaLock ticket)
  let out ← tryCatch body fun e => do
    ask .releaseOpaLock
    throw e
  ask .releaseOpaLock
  return out

/-- `read_snapshot_full`. -/
def readSnapshotFull : BenchHandler cfg SnapshotDoc := do
  let reply : Option Snapshot ← tried .snapshot
  match reply with
  | some snapshot => return ⟨snapshot, Dict.empty, true⟩
  | none =>
    let last : Snapshot ← ask .lastView
    return ⟨last, Dict.empty, false⟩

/-- `store.update_timed`: the last version known, if the store is out of reach. -/
def updateStore (patch : Members) : BenchHandler cfg Nat := do
  let reply : Option (Except PyError Nat) ← tried (.update patch)
  match reply with
  | some (.ok version) => return version
  | some (.error _) => throw .internal
  | none =>
    let last : Snapshot ← ask .lastView
    return last.version

/-- `_replicate_to_opa` with its two counters. -/
def replicate (doc : OpaState) : BenchHandler cfg Unit := do
  let reply : Option Bool ← tried (.put doc)
  if reply = some true then ask .countReplication else ask (.giveUp doc)

/-- `update_context_store_timed` with an engine. -/
def updateAndReplicate (ticket : Nat) (patch : Members) : BenchHandler cfg (Nat × Bool) :=
  withOpaLock ticket do
    let version ← updateStore patch
    let doc ← readSnapshotFull
    replicate (replicateToOpa doc)
    return (max version doc.snapshot.version, doc.trusted)

/-- `process_context_payload`. -/
def processContextPayload (ticket : Nat) (data : Members) : BenchHandler cfg (Option (Nat × Bool)) := do
  ask (.cacheMerge ⟨ticket, none, data⟩)
  tryCatch (do let out ← request (updateAndReplicate ticket data); return some out) fun _ => pure none

/-! ### The policies -/

/-- `_result`, as far as the policies fill it in. -/
structure PolicyResult where
  baseline : Str
  outcome : DecisionOutcome
  reason : Str
  gatewayReleased : Bool
  /-- `context_version`, or `validation_context_version` of the engine. -/
  contextVersion : Option Nat
  gateReadVersion : Option Nat
  deriving DecidableEq

def Mode.revoke (mode : Mode) (reason : Str) (contextVersion gateReadVersion : Option Nat) : PolicyResult :=
  ⟨mode.baseline, .revoke, reason, false, contextVersion, gateReadVersion⟩

/-- A body that is refused as it is read. -/
def Mode.reject (mode : Mode) (reason : Str) : PolicyResult := ⟨mode.name, .revoke, reason, false, none, none⟩

/-- `_release` and the result of a run that releases. -/
def Mode.execute (mode : Mode) (ticket : Nat) (intent : Option ActionIntent) (reason : Str) (versions : Option (Nat × Nat))
    (contextVersion gateReadVersion : Option Nat) : BenchHandler cfg PolicyResult := do
  ask (.release ⟨ticket, mode, intent, versions⟩)
  return ⟨mode.baseline, .execute, reason, true, contextVersion, gateReadVersion⟩

/-- `_predicates_ok`; an expression may raise. -/
def predicatesOk (i : ActionIntent) (context : Members) (timedOut : Nat → Bool) : BenchHandler cfg (Bool × Str) :=
  match evaluatePredicates timedOut i.safetyConstraints i.preconditions context with
  | .ok answer => pure answer
  | .error _ => throw .internal

/-- `_temporal_ok`. -/
def temporalOk (i : ActionIntent) (release : Bool) : BenchHandler cfg (Bool × Str) := do
  let now : ℚ ← ask .time
  return if release then cfg.config.validateRelease i now else cfg.config.validate i now

/-- `_validate`. -/
def validateLocally (i : ActionIntent) (context : Members) (timedOut : Nat → Bool) (release : Bool) :
    BenchHandler cfg (Bool × Str) := do
  let (timely, late) ← temporalOk i release
  if timely then predicatesOk i context timedOut else return (false, late)

/-- `_pull_xair_snapshot`. -/
def pullContext : BenchHandler cfg SnapshotDoc :=
  tryCatch (request readSnapshotFull) fun _ => pure (untrustedDoc 0)

/-- What follows the refresh in `_local_policy`. -/
def validateCache (mode : Mode) (ticket : Nat) (i : ActionIntent) (timedOut : Nat → Bool) : BenchHandler cfg PolicyResult := do
  -- the arguments of `_validate` come first: the cache is read before the clock
  let context : Members ← ask .cacheSnapshot
  let (ok, reason) ← validateLocally i context timedOut false
  if ok then mode.execute ticket (some i) (mode.baseline ++ "_guard_passed".toList) none none none
  else return mode.revoke reason none none

/-- `_local_policy`. -/
def localPolicy (mode : Mode) (ticket : Nat) (i : ActionIntent) (timedOut : Nat → Bool) : BenchHandler cfg PolicyResult := do
  if mode.refreshes then
    let doc ← pullContext
    if doc.trusted then
      ask (.cacheMerge ⟨ticket, some doc.snapshot.version, doc.snapshot.context⟩)
      validateCache mode ticket i timedOut
    else return mode.revoke "context_untrusted".toList none none
  else validateCache mode ticket i timedOut

/-- `_gate_version` on a snapshot that was read. -/
def snapshotVersion (scope : VersionScope) (doc : SnapshotDoc) (paths : List Str) : Nat :=
  if scope = .global then doc.snapshot.version else readSetVersion doc.snapshot.pathVersions paths

/-- `_local_authoritative`. -/
def localAuthoritativePolicy (scope : VersionScope) (ticket : Nat) (i : ActionIntent) (timedOut : Nat → Nat → Bool) :
    BenchHandler cfg PolicyResult := do
  let mode := Mode.localAuthoritative scope
  let paths := readSet i.predicates
  let doc ← pullContext
  let version := snapshotVersion scope doc paths
  if doc.trusted then
    let (ok, reason) ← validateLocally i doc.snapshot.context (timedOut 0) false
    if ok then
      let gate ← pullContext
      let gateVersion := snapshotVersion scope gate paths
      if gate.trusted then
        if gateVersion = version then
          let (ok, reason) ← validateLocally i gate.snapshot.context (timedOut 1) true
          if ok then
            mode.execute ticket (some i) "local_authoritative_read".toList (some (doc.snapshot.version, gate.snapshot.version))
              (some gateVersion) none
          else return mode.revoke (reason ++ "_at_publish".toList) (some version) none
        else return mode.revoke "context_version_changed_at_publish".toList (some version) none
      else return mode.revoke "context_untrusted_at_publish".toList (some version) none
    else return mode.revoke reason (some version) none
  else return mode.revoke "context_untrusted".toList none none

/-- How the two questions to the engine end. -/
inductive OpaVerdict where
  | denied (version : Option Nat)
  | withheld (reason : Str) (version gateVersion : Option Nat)
  | allowed (version gateVersion : Nat)

/-- `_opa_decide`; without a document the engine has no decision. -/
def askEngine (preds : List OpaPredicate) (expectedVersion : Option Nat) : BenchHandler cfg (Option OpaDecision) := do
  let reply : Option (Option OpaDecision) ← ask (.decide preds expectedVersion)
  match reply with
  | some decision => return decision
  | none => throw .internal

/-- The part of a decision that the gate asks for. -/
def OpaDecision.passes (d : OpaDecision) (versioned : Bool) : Bool := if versioned then d.allowVersioned else d.allow

/-- The part of `_opa_policy` that fails closed. -/
def opaGate (versioned : Bool) (i : ActionIntent) (preds : List OpaPredicate) : BenchHandler cfg OpaVerdict := do
  let validation ← askEngine preds none
  match validation with
  | none => return .denied none
  | some d =>
    if d.allow then
      let (timely, late) ← temporalOk i true
      if timely then
        let gate ← askEngine preds (some d.readsetVersion)
        match gate with
        | none => return .withheld "opa_denied_at_gate".toList (some d.version) none
        | some g =>
          if g.passes versioned then return .allowed d.version g.version
          else
            let reason := if versioned && g.allow then "opa_readset_version_changed_at_gate" else "opa_denied_at_gate"
            return .withheld reason.toList (some d.version) (some g.version)
      else return .withheld late (some d.version) none
    else return .denied (some d.version)

/-- `_opa_policy`. -/
def opaPolicy (versioned : Bool) (ticket : Nat) (i : ActionIntent) : BenchHandler cfg PolicyResult := do
  let mode := Mode.opa versioned
  match opaPredicates i with
  | none => return mode.revoke "unsupported_predicate".toList none none
  | some preds =>
    let (timely, late) ← temporalOk i false
    if timely then
      let verdict ← tryCatch (do let verdict ← opaGate versioned i preds; return some verdict) fun _ => pure none
      match verdict with
      | none => return mode.revoke "opa_unreachable".toList none none
      | some (.denied version) => return mode.revoke "opa_denied_at_validation".toList version none
      | some (.withheld reason version gateVersion) => return mode.revoke reason version gateVersion
      | some (.allowed version gateVersion) =>
        mode.execute ticket (some i) "opa_allowed_at_gate".toList (some (version, gateVersion)) (some version) (some gateVersion)
    else return mode.revoke late none none

/-- The policies that read the intent. -/
def validatingPolicy (mode : Mode) (ticket : Nat) (i : ActionIntent) (timedOut : Nat → Nat → Bool) : BenchHandler cfg PolicyResult :=
  match mode with
  | .naive => do
    let (ok, reason) ← temporalOk i false
    if ok then Mode.naive.execute ticket (some i) "naive_temporal_only".toList none none none
    else return Mode.naive.revoke reason none none
  | .localFresh | .localStale | .localPush _ => localPolicy mode ticket i (timedOut 0)
  | .localAuthoritative scope => localAuthoritativePolicy scope ticket i timedOut
  | .opa versioned => opaPolicy versioned ticket i
  | .direct | .unknown _ => return mode.revoke ("unknown_mode:".toList ++ mode.baseline) none none

/-- `process_intent_payload`; an `.error` is a body that is refused as it is read, with the reason. -/
def processIntentPayload (mode : Mode) (ticket : Nat) (body : Except Str ActionIntent) (timedOut : Nat → Nat → Bool) :
    BenchHandler cfg PolicyResult :=
  if mode = .direct then mode.execute ticket body.toOption "direct_bypass_no_validation".toList none none none
  else
    match body with
    | .error reason => return mode.reject reason
    | .ok i => validatingPolicy mode ticket i timedOut

/-! ### Requests -/

/-- A JSON object never has a key twice. -/
structure Patch where
  members : Members
  wf : members.WF

inductive BenchJob where
  /-- An update that reaches XAIR, from a client, the bridge or a stop. -/
  | update (patch : Patch)
  | context (data : Patch)
  | intent (mode : Mode) (body : Except Str ActionIntent) (timedOut : Nat → Nat → Bool)

inductive BenchAnswer where
  | updated (version : Nat) (trusted : Bool)
  | context (answer : Option (Nat × Bool))
  | result (result : PolicyResult)

/-- What happens by itself: the clock, other processes that update the store, and what the network still carries. -/
inductive BenchChange where
  | tick (now : ℚ)
  | foreign (patch : Patch)
  /-- The engine receives a replication that XAIR has given up. -/
  | deliver (n : Nat)

variable (cfg)

def BenchChange.apply : BenchChange → Bench → Bench
  | tick now, s => { s with clock := now, times := s.times ++ [now] }
  | foreign patch, s =>
    match s.updated cfg patch.members with
    | .ok s' => { s' with foreign := s.foreign + 1 }
    | .error _ => s
  | deliver n, s =>
    match s.late[n]? with
    | some doc => { s with engine := some doc, late := s.late.eraseIdx n }
    | none => s

def BenchJob.handle (ticket : Nat) : BenchJob → BenchHandler cfg BenchAnswer
  | update patch => do
    let (version, trusted) ← updateAndReplicate ticket patch.members
    return .updated version trusted
  | context data => do return .context (← processContextPayload ticket data.members)
  | intent mode body timedOut => do return .result (← processIntentPayload mode ticket body timedOut)

abbrev baselines : Workload (bench cfg) where
  Job := BenchJob
  Local := Unit
  Out := Except HttpError BenchAnswer
  code job ticket l := (job.handle cfg ticket).program l
  Env := BenchChange
  env := BenchChange.apply cfg

end

end Xair
