import Xair.Library.Pool
import Xair.Release.Cell
import Xair.Runtime.Runs
import Xair.Server.Requests
import Xair.Store.Memory

/-!
# The site

One XAIR process with its store, and the cell controller its gateways release to. The
store's operations are those of the store without a server: each is one step. Every
method of the runtime is one step, under the runtime's lock.
-/

namespace Xair

open Library

/-- `int(x)`. -/
def truncate (x : ℚ) : Int := x.num.tdiv x.den

/-- The members with these keys. -/
def Members.keep (roots : List Str) : Members → Members
  | nil => nil
  | cons k v rest => if k ∈ roots then cons k v (rest.keep roots) else rest.keep roots

theorem Members.get_keep (roots : List Str) (m : Members) (r : Str) : (m.keep roots).get r = if r ∈ roots then m.get r else none := by
  induction m with
  | nil => simp [Members.keep, Members.get]
  | cons key value rest ih =>
    rw [Members.keep]
    by_cases here : key = r
    · subst here
      by_cases kept : key ∈ roots
      · simp [kept, Members.get]
      · rw [if_neg kept, ih, if_neg kept, if_neg kept]
    · by_cases kept : key ∈ roots
      · simp [kept, Members.get, here, ih]
      · simp [kept, Members.get, here, ih]

structure SiteConfig where
  config : Config
  layout : Layout
  /-- How long an unused predicate stays registered, in seconds. -/
  predicateRetentionS : ℚ
  /-- `STOP_FENCE`. -/
  stopFence : Bool
  /-- `STOP_BUCKETS`. -/
  stopBuckets : Nat
  /-- The first 32 bits of the SHA-1 digest of a text. -/
  digest : Str → Nat
  /-- `redis_required`: a server is configured. -/
  redisRequired : Bool

/-- `_stop_key`. -/
def SiteConfig.stopKey (cfg : SiteConfig) (target : Str) : Str := 'b' :: natText (cfg.digest target % cfg.stopBuckets)

/-- `max(1, int(ttl_s))`, in milliseconds. -/
def SiteConfig.claimTtlMs (cfg : SiteConfig) : ℚ := (max 1 (truncate cfg.config.idempotencyRetentionS) : Int) * 1000

/-- A pass that has authorized its intent, with what it evaluated. -/
structure Authorization where
  ticket : Nat
  life : Nat
  id : Str
  stop : Bool
  intent : ActionIntent
  context : Members
  version : Nat

/-- A report of a gateway run: released, with the effect it knows, or withheld. -/
structure LifecycleReport where
  ticket : Nat
  id : Str
  released : Bool
  effect : Option EffectStatus
  deriving DecidableEq

structure Site where
  runtime : Runtime
  /-- References below this one are in use. -/
  allocated : Ref
  store : MemoryStore
  /-- What the process has last read of the store. -/
  view : Snapshot
  /-- Claimed intent ids, and when their keys expire. -/
  claims : Dict Str ℚ
  /-- The request that holds `_STOP_LOCK`. -/
  stopLock : Option Nat
  /-- The time of day in milliseconds. -/
  clock : ℚ
  /-- The monotonic clock in seconds. -/
  mono : ℚ
  cell : Cell
  /-- The line states the controller has announced to its bridge. -/
  announced : List (Str × Int)
  answers : List (Nat × CellAnswer)
  plcAnswer : Str
  /-- History: the restarts of the process. -/
  life : Nat
  /-- History: the validation passes that requests have made, with the ids. -/
  passes : List (Nat × Str)
  /-- History: the passes that authorized. -/
  authorizations : List Authorization
  /-- History: the middleware and controller calls that gateway runs have started. -/
  starts : List (Nat × Str)
  /-- History: the lifecycle reports that gateway runs have sent. -/
  reports : List LifecycleReport
  /-- History: the commands the controller has executed, with the state and version then. -/
  executions : List (CellCommand × Str × Int)

/-- The entry of a withheld release. -/
def withheldTombstone (id reason : Str) : Tombstone :=
  ⟨.cons "intent_id".toList (.str id) <| .cons "withheld".toList (.bool true) <| .cons "reason".toList (.str reason) .nil,
    rfl⟩

/-- The entry of an authorized stop. -/
def stopTombstone (i : ActionIntent) : Tombstone :=
  ⟨.cons "intent_id".toList (.str i.id) <| .cons "stop".toList (.bool true) <| .cons "source".toList (.str i.source) <|
    .cons "action_type".toList (.str i.payload.actionType) <| .cons "target_entity".toList (.str i.payload.targetEntity) <|
    .cons "decision_epoch_ms".toList (.float (.fin i.timestampDecision)) .nil, rfl⟩

/-! ### Commands -/

/-- How the controller is asked, in `_actuate_cell`. -/
inductive CellMethod where
  | plain | conditional | predicate
  deriving DecidableEq

/-- One step of a request: a method of the runtime or the store, a lock, the network or a device. -/
inductive SiteCommand where
  | create (intent : ActionIntent)
  | intent (ref : Ref)
  | setPreconditions (ref : Ref) (preconditions : List Str)
  | actionClass (ref : Ref)
  | prepare (ref : Ref)
  | admitIntent (ref : Ref)
  | process (ticket : Nat) (ref : Ref) (call : ProcessCall)
  | transition (id : Str) (state : IntentState) (outcome : Option DecisionOutcome) (reason : Str)
  | recordOf (id : Str)
  /-- The fields of a record that the request holds, as they are now. -/
  | current (id : Str) (held : IntentRecord)
  | install (snapshot : Snapshot)
  | recordCommit (id : Str) (committed : Bool) (reason : Str) (seq : Option Nat)
  | reportRelease (id : Str) (released : Bool) (reason : Str) (contextVersion readSetVersion : Option Int)
  | reportEffect (id : Str) (status : EffectStatus) (detail : Str)
  | supervisoryRevoke (id : Str) (reason : Str)
  | releaseTarget (record : IntentRecord)
  /-- The body of `report_withheld`; `append` is what becomes of the tombstone. -/
  | reportWithheld (id : Str) (reason : Str) (append : Fate)
  | setPolicy (policy : Policy)
  | snapshot
  | lastView
  | registerAndSnapshot (exprs : List Str)
  | snapshotWithPredicates (exprs : List Str)
  | commitAuthorization (req : CommitRequest)
  | appendActuation (tombstone : Tombstone)
  | update (patch : Members)
  | claimIntent (id : Str)
  | acquireStopLock (ticket : Nat)
  | releaseStopLock
  | time
  | send
  | sendReport (report : LifecycleReport)
  /-- The middleware or controller call begins, with this witness. -/
  | startCall (ticket : Nat) (id : Str) (witness : Option Json)
  | publish
  | actuateCell (ticket : Nat) (command : CellCommand)
  | cellAnswer (ticket : Nat)
  | plcCommand (expected : Option Int) (method : CellMethod)

def SiteCommand.Reply : SiteCommand → Type
  | create _ => Ref
  | intent _ => ActionIntent
  | actionClass _ => ActionClass
  | prepare _ => List Str
  | admitIntent _ => Except RuntimeError (IntentRecord × Bool)
  | process _ _ _ => Except RuntimeError IntentRecord
  | transition _ _ _ _ => Except RuntimeError IntentRecord
  | recordOf _ => Option IntentRecord
  | current _ _ => IntentRecord
  | recordCommit _ _ _ _ => Except RuntimeError IntentRecord
  | reportRelease _ _ _ _ _ => Except RuntimeError IntentRecord
  | reportEffect _ _ _ => Except RuntimeError IntentRecord
  | supervisoryRevoke _ _ => Except RuntimeError IntentRecord
  | reportWithheld _ _ _ => Except RuntimeError IntentRecord
  | snapshot => Snapshot
  | lastView => Snapshot
  | registerAndSnapshot _ => SnapshotDoc
  | snapshotWithPredicates _ => SnapshotDoc
  | commitAuthorization _ => CommitResult
  | claimIntent _ => Bool
  | time => ℚ
  | publish => Bool
  | cellAnswer _ => Option CellAnswer
  | plcCommand _ _ => Str
  | _ => Unit

section

variable [PyText]

/-- A snapshot as the store returns it: in the shard layout, what these predicates read of it. -/
def SiteConfig.read (cfg : SiteConfig) (exprs : List Str) (m : MemoryStore) : SnapshotDoc :=
  if cfg.layout = .shard then
    ⟨⟨m.snapshot.context.keep (rootsOf exprs), m.snapshot.version,
      m.snapshot.pathVersions.filter fun p _ => decide (rootOf p ∈ rootsOf exprs)⟩, restrictPreds m.preds exprs, true⟩
  else ⟨m.snapshot, m.preds, true⟩

namespace Site

instance : LawfulBEq (Nat × Str) := inferInstanceAs (LawfulBEq (Prod Nat (List Char)))

/-- A method of the runtime. -/
def runs {α : Type} (m : RuntimeM α) (s : Site) : Except RuntimeError α × Site :=
  match m s.runtime with
  | .ok a rt => (.ok a, { s with runtime := rt })
  | .error e rt => (.error e, { s with runtime := rt })

/-- A reading of the runtime. -/
def state (s : Site) (id : Str) : Option IntentState := (s.runtime.records.get id).map IntentRecord.state

/-- The record that a request holds, as it is now. -/
def current (s : Site) (id : Str) (held : IntentRecord) : IntentRecord :=
  match s.runtime.records.get id with
  | some record => if record.intent = held.intent then record else held
  | none => held

/-- The store at another moment. -/
def withStore (s : Site) (m : MemoryStore) : Site := { s with store := m }

/-- The histories after a validation pass that began in `before`. -/
def traced (s before : Site) (pass : Authorization) : Site :=
  { s with
    passes := s.passes ++ [(pass.ticket, pass.id)]
    authorizations := if before.state pass.id ≠ some .authorized ∧ s.state pass.id = some .authorized then
        s.authorizations ++ [pass]
      else s.authorizations }

/-- `process_intent` at the present time. -/
def process (cfg : SiteConfig) (ticket : Nat) (ref : Ref) (call : ProcessCall) (s : Site) :
    Except RuntimeError IntentRecord × Site :=
  let call := { call with now := s.clock, requeue := false }
  let (reply, s') := s.runs (processIntent cfg.config call ref)
  (reply, s'.traced s ⟨ticket, s.life, (s.runtime.heap ref).id,
    (s.runtime.policy.actionClass (s.runtime.heap ref)).riskReducing, s'.runtime.heap ref,
    call.context.getD s.runtime.context, call.contextVersion.getD s.runtime.contextVersion⟩)

/-- The body of `report_withheld`. A tombstone whose reply is lost has been appended. -/
def reportWithheld (cfg : SiteConfig) (id : Str) (reason : Str) (append : Fate) (s : Site) :
    Except RuntimeError IntentRecord × Site :=
  match s.runtime.records.get id with
  | none => (.error (.keyError id), s)
  | some record =>
    if record.state = .withheld ∧ record.commitSeq.isSome then (.ok record, s)
    else if record.state ≠ .committed then (.error (.invalidTransition id record.state .withheld), s)
    else
      let logged := s.withStore (s.store.append (withheldTombstone id reason))
      match append with
      | .done => logged.runs (Xair.reportRelease cfg.config id false reason none none)
      | .broken true => (.error (.py .valueError), logged)
      | _ => (.error (.py .valueError), s)

/-- `claim_intent`: `set(key, nx, ex)`; without a server every claim succeeds. -/
def claimIntent (cfg : SiteConfig) (id : Str) (s : Site) : Bool × Site :=
  if cfg.redisRequired then
    match s.claims.get id with
    | some expiry =>
      if s.clock < expiry then (false, s)
      else (true, { s with claims := s.claims.insert id (s.clock + cfg.claimTtlMs) })
    | none => (true, { s with claims := s.claims.insert id (s.clock + cfg.claimTtlMs) })
  else (true, s)

def exec (cfg : SiteConfig) : (c : SiteCommand) → Site → c.Reply × Site
  | .create intent, s =>
    (s.allocated, { s with runtime := s.runtime.putIntent s.allocated intent, allocated := s.allocated + 1 })
  | .intent ref, s => (s.runtime.heap ref, s)
  | .setPreconditions ref preconditions, s =>
    ((), { s with runtime := s.runtime.putIntent ref { s.runtime.heap ref with preconditions := preconditions } })
  | .actionClass ref, s => (s.runtime.policy.actionClass (s.runtime.heap ref), s)
  | .prepare ref, s =>
    let i := (s.runtime.policy.applyTo (s.runtime.heap ref)).1
    (registered i.predicates, { s with runtime := s.runtime.putIntent ref i })
  | .admitIntent ref, s => s.runs (Xair.admitIntent cfg.config ref s.mono false)
  | .process ticket ref call, s => s.process cfg ticket ref call
  | .transition id state outcome reason, s => s.runs (Xair.transition id state outcome reason)
  | .recordOf id, s => (s.runtime.records.get id, s)
  | .current id held, s => (s.current id held, s)
  | .install snapshot, s =>
    ((), { s with runtime := installContextSnapshot snapshot.context snapshot.version s.runtime })
  | .recordCommit id committed reason seq, s => s.runs (recordCommit id committed reason seq)
  | .reportRelease id released reason cv rv, s => s.runs (Xair.reportRelease cfg.config id released reason cv rv)
  | .reportEffect id status detail, s => s.runs (Xair.reportEffect id status detail)
  | .supervisoryRevoke id reason, s => s.runs (Xair.supervisoryRevoke id reason)
  | .releaseTarget record, s => ((), (s.runs (Xair.releaseTarget record)).2)
  | .reportWithheld id reason append, s => s.reportWithheld cfg id reason append
  | .setPolicy policy, s => ((), { s with runtime := { s.runtime with policy := policy } })
  | .snapshot, s => (s.store.snapshot, { s with view := s.store.snapshot })
  | .lastView, s => (s.view, s)
  | .registerAndSnapshot exprs, s =>
    match s.store.register cfg.predicateRetentionS (s.clock / 1000) exprs with
    | (m, none) => (cfg.read exprs m, s.withStore m)
    | (m, some _) => (untrustedDoc s.view.version, s.withStore (if cfg.redisRequired then s.store else m))
  | .snapshotWithPredicates exprs, s =>
    (if exprs = [] then ⟨s.store.snapshot, Dict.empty, true⟩
      else { cfg.read exprs s.store with preds := restrictPreds s.store.preds exprs }, s)
  | .commitAuthorization req, s =>
    let (result, m) := s.store.commit (s.clock / 1000) req
    (result, s.withStore m)
  | .appendActuation tombstone, s => ((), s.withStore (s.store.append tombstone))
  | .update patch, s =>
    match s.store.update cfg.predicateRetentionS (s.clock / 1000) patch with
    | .ok m => ((), s.withStore m)
    | .error _ => ((), s)
  | .claimIntent id, s => s.claimIntent cfg id
  | .acquireStopLock ticket, s => ((), { s with stopLock := some ticket })
  | .releaseStopLock, s => ((), { s with stopLock := none })
  | .time, s => (s.clock, s)
  | .send, s => ((), s)
  | .sendReport report, s => ((), { s with reports := s.reports ++ [report] })
  | .startCall ticket id _, s => ((), { s with starts := s.starts ++ [(ticket, id)] })
  | .publish, s => (true, s)
  | .actuateCell _ command, s => ((), { s with cell := s.cell.enqueue command })
  | .cellAnswer ticket, s => ((s.answers.find? fun answer => decide (answer.1 = ticket)).map Prod.snd, s)
  | .plcCommand _ _, s => (s.plcAnswer, s)

end Site

abbrev site (cfg : SiteConfig) : Service := ⟨SiteCommand, SiteCommand.Reply, Site, Site.exec cfg⟩

end

end Xair
