import Xair.Store.Redis

/-!
# The store over Redis

`RedisContextStore` with a server configured, in its three layouts: every method as
the sequence of commands it sends, with the fields of the object it reads and writes.
-/

namespace Xair

open Library

structure StoreConfig where
  layout : Layout
  /-- `PREDICATE_RETENTION_S`. -/
  retention : ℚ

/-- The fields of a store object. `_client` and `_redis_available` are set and dropped together,
here `connected`; of `last_io_mono_ms` only whether it is set. -/
structure StoreObject where
  connected : Bool
  memory : Members
  version : Nat
  pathVersions : Dict Str Nat
  preds : Dict Str Entry
  shardView : Members × Dict Str Nat
  lastGc : ℚ
  lastIo : Bool
  /-- `_idx`: root to its counter and its registered predicates. -/
  idx : Dict Str (Option Nat × List Str)

/-- A call of a public method. -/
inductive StoreJob where
  | update (patch : Members)
  | updateContextStore (patch : Members)
  | registerAndSnapshot (scanned : List (Str × Entry)) (exprs : List Str)
  | registerPredicates (scanned : List (Str × Entry)) (exprs : List Str)
  | gcPredicates (scanned : List (Str × Entry))
  | snapshotTimed
  | snapshotWithPredicates (exprs : List Str)
  | commitAuthorization (req : CommitRequest)
  | appendActuation (tombstone : Tombstone)
  | actuationLog (start : Nat)

/-- The patch a job is to commit. -/
def StoreJob.patch : StoreJob → Option Members
  | .update patch | .updateContextStore patch => some patch
  | _ => none

def StoreObject.init : StoreObject where
  connected := false
  memory := .nil
  version := 0
  pathVersions := Dict.empty
  preds := Dict.empty
  shardView := (.nil, Dict.empty)
  lastGc := 0
  lastIo := false
  idx := Dict.empty

inductive Fault where
  /-- A command failed, or the client library refused its arguments. -/
  | failed
  | watchError
  /-- "lost the optimistic race too many times" -/
  | raceLost
  /-- "context store unavailable" -/
  | unavailable
  | py (e : PyError)
  deriving DecidableEq

abbrev StoreM := Method redis StoreObject Fault

/-! ### Sending commands -/

def send (c : Command) : StoreM c.Reply := Method.command (fun _ => .failed) (show redis.Command from c)

/-- On a pipeline that watches keys a broken connection is reported as a lost race. -/
def sendWatching (c : Command) : StoreM c.Reply :=
  Method.command (fun failure => if failure = .broken then .watchError else .failed) (show redis.Command from c)

/-- `pipe.multi()`, the queued writes, `pipe.execute()`. -/
def execute (watched : List (WatchKey × Nat)) (writes : List Write) (patch : Option (Nat × Members)) :
    StoreM Unit := do
  let committed : Bool ← sendWatching (.exec watched writes patch)
  if committed then pure () else throw .watchError

/-- `time.time()`. -/
def time : StoreM ℚ := send .time

/-- A `for` loop of attempts that goes on after a `WatchError` only. -/
def retry {α : Type} (attempt : StoreM α) : Nat → StoreM α
  | 0 => throw .raceLost
  | n + 1 => tryCatch attempt fun e => if e = .watchError then retry attempt n else throw e

/-- `_MAX_TX_RETRIES`. -/
def maxTxRetries : Nat := 32

def liftPy {α : Type} : Except PyError α → StoreM α
  | .ok a => pure a
  | .error e => throw (.py e)

/-- The library refuses a multi-key command without keys. -/
def nonEmpty {α β : Type} (keys : List α) (m : StoreM β) : StoreM β := if keys.isEmpty then throw .failed else m

/-- `_ensure_client`. -/
def ensureClient : StoreM Unit := do
  if (← get).connected = false then
    tryCatch (do
        send .ping
        modify fun l => { l with connected := true })
      fun _ => modify fun l => { l with connected := false }

/-- `_drop_client`. -/
def dropClient : StoreM Unit := modify fun l => { l with connected := false }

/-- `_decode`, `_decode_preds`. -/
def decode (raw : Option Doc) : Snapshot := (raw.map Doc.snapshot).getD .empty

def decodePreds (raw : Option Doc) : Dict Str Entry := (raw.map Doc.preds).getD Dict.empty

def storeView (s : Snapshot) (l : StoreObject) : StoreObject :=
  { l with memory := s.context, version := s.version, pathVersions := s.pathVersions }

section

variable [PyText]

/-- `{e: entry for e, raw in zip(exprs, raws) if raw is not None}`. -/
def present {α : Type} (keys : List Str) (raws : List (Option α)) : List (Str × α) :=
  (keys.zip raws).filterMap fun kv => kv.2.map fun v => (kv.1, v)

/-- Every expression is registered, and was registered again recently enough. -/
def allFresh (refresh : ℚ) (preds : Dict Str Entry) (exprs : List Str) : Bool :=
  exprs.all fun e =>
    match preds.get e with
    | some entry => decide (refresh ≤ entry.registeredAt)
    | none => false

/-- The entry of a registration: a refreshed one keeps its version and truth. -/
def registration (version : Nat) (context : Members) (now : ℚ) (old : Option Entry) (expr : Str) :
    Except PyError Entry :=
  match old with
  | some entry => .ok { entry with registeredAt := now }
  | none => (truth expr context).map fun value => ⟨version, value, now⟩

def registrations (version : Nat) (context : Members) (now : ℚ) (preds : Dict Str Entry) :
    List Str → Except PyError (List (Str × Entry))
  | [] => .ok []
  | e :: exprs => do
    let entry ← registration version context now (preds.get e) e
    let rest ← registrations version context now preds exprs
    return (e, entry) :: rest

/-! ### Document layout -/

def updateDocument (cfg : StoreConfig) (ticket : Nat) (patch : Members) : StoreM Nat :=
  retry (do
    let watched ← send (.watch [.doc])
    let raw ← sendWatching .pipeGetDoc
    let now ← time
    let (snapshot, preds) ← liftPy (apply cfg.retention now (decode raw) patch (decodePreds raw))
    execute watched [.setDoc ⟨snapshot, preds⟩] (some (ticket, patch))
    modify fun l => { storeView snapshot l with preds := preds, lastIo := true }
    return snapshot.version) maxTxRetries

def registerDocument (cfg : StoreConfig) (exprs : List Str) : StoreM Unit := do
  let raw ← send .getDoc
  let now ← time
  if allFresh (now - cfg.retention / 2) (decodePreds raw) exprs then
    modify fun l => { storeView (decode raw) l with preds := decodePreds raw }
  else
    retry (do
      let watched ← send (.watch [.doc])
      let raw ← sendWatching .pipeGetDoc
      let now ← time
      let missing := exprs.filter fun e => !allFresh (now - cfg.retention / 2) (decodePreds raw) [e]
      if missing = [] then
        sendWatching .unwatch
        modify fun l => { storeView (decode raw) l with preds := decodePreds raw }
      else
        let new ← liftPy (registrations (decode raw).version (decode raw).context now (decodePreds raw) missing)
        let preds := (decodePreds raw).insertAll new
        execute watched [.setDoc ⟨decode raw, preds⟩] none
        modify fun l => { storeView (decode raw) l with preds := preds }) maxTxRetries

/-! ### The registry of the hash and shard layouts -/

/-- The predicates of a root whose counter is `v`: from the index if it is not outdated, else fetched. -/
def members (r : Str) (v : Option Nat) : StoreM (List Str) := do
  let hit := ((← get).idx.get r).filter fun h => decide (h.1 = v)
  match hit with
  | some h => return h.2
  | none => do
    let fetched ← send (.smembers r)
    modify fun l => { l with idx := l.idx.insert r (v, sortedSet fetched) }
    return sortedSet fetched

/-- The loop of `_candidates` over the roots and their counters. -/
def candidatesLoop : List (Str × Option Nat) → StoreM (List Str)
  | [] => return []
  | (r, v) :: rest => do
    let exprs ← members r v
    return exprs ++ (← candidatesLoop rest)

/-- `_candidates`. -/
def candidates (roots : List Str) : StoreM (List Str) := do
  let rs := sortedSet roots
  let vers ← nonEmpty rs (send (.hmgetPredVers rs))
  candidatesLoop (rs.zip vers)

/-- The new entries of the candidates whose truth has changed. -/
def reEvaluateCandidates (ch : Changed) (merged : Members) (version : Nat) :
    List (Str × Entry) → Except PyError (List (Str × Entry))
  | [] => .ok []
  | (expr, entry) :: rest =>
    if ch.related (exprPath expr) then do
      let changed ← reEvaluate merged version expr entry
      let later ← reEvaluateCandidates ch merged version rest
      return changed.toList.map (expr, ·) ++ later
    else reEvaluateCandidates ch merged version rest

def hsetPredsIf (updates : List (Str × Entry)) : List Write := if updates = [] then [] else [.hsetPreds updates]

/-- The writes of a registration: entries, index and the counters of the roots that gain a predicate. -/
def registryWrites (cur : Dict Str Entry) (exprs : List Str) (new : List (Str × Entry)) : List Write :=
  [.hsetPreds new] ++ (exprs.map fun e => .sadd (exprRoot e) e) ++
    ((exprs.filter fun e => !cur.contains e).map exprRoot).dedup.map .hincrPredVer

/-- The loop of `gc_predicates` over what the scan of the registry returned. -/
def gcLoop (horizon : ℚ) : List (Str × Entry) → StoreM Unit
  | [] => return ()
  | (expr, entry) :: rest => do
    if horizon ≤ entry.registeredAt then gcLoop horizon rest
    else
      tryCatch (do
          let watched ← send (.watch [.preds])
          match ← sendWatching (.pipeHgetPred expr) with
          | none => sendWatching .unwatch
          | some cur =>
            if horizon ≤ cur.registeredAt then sendWatching .unwatch
            else execute watched [.hdelPred expr, .srem (exprRoot expr) expr, .hincrPredVer (exprRoot expr)] none)
        fun e => if e = .watchError then pure () else throw e
      gcLoop horizon rest

/-- `gc_predicates`; `scanned` is what the scan returned, in any number of batches. -/
def gcPredicates (cfg : StoreConfig) (scanned : List (Str × Entry)) : StoreM Unit := do
  if cfg.layout ≠ .document ∧ (← get).connected then
    let now ← time
    send .hscanPreds
    gcLoop (now - cfg.retention) scanned

/-- Retirement on the way of a registration, at most once a minute. -/
def gcIfDue (cfg : StoreConfig) (scanned : List (Str × Entry)) : StoreM Unit := do
  let now ← time
  if (← get).lastGc + 60 < now then
    modify fun l => { l with lastGc := now }
    gcPredicates cfg scanned

/-! ### Hash layout -/

/-- The entries an update changes; nothing is asked for if no path has changed. -/
def changedHash (changed : List Str) (merged : Snapshot) : StoreM (List (Str × Entry)) :=
  if changed = [] then pure []
  else do
    let cands ← candidates (Changed.ofPaths changed).roots
    if cands = [] then pure []
    else do
      let raws ← send (.hmgetPreds cands)
      liftPy (reEvaluateCandidates (.ofPaths changed) merged.context merged.version (present cands raws))

def updateHash (ticket : Nat) (patch : Members) : StoreM Nat :=
  retry (do
    let watched ← send (.watch [.doc, .preds])
    let raw ← sendWatching .pipeGetDoc
    let changed := changedPaths (decode raw).context patch
    let merged := (decode raw).merge patch
    let updates ← changedHash changed merged
    execute watched ([.setDoc ⟨merged, Dict.empty⟩] ++ hsetPredsIf updates) (some (ticket, patch))
    modify fun l => { storeView merged l with lastIo := true }
    return merged.version) maxTxRetries

/-- `_read_hash`. -/
def readHash (exprs : List Str) : StoreM (Option Doc × Dict Str Entry) := do
  let (raw, raws) ← send (.readHash exprs)
  return (raw, Dict.empty.insertAll (present exprs raws))

def registerHash (cfg : StoreConfig) (scanned : List (Str × Entry)) (exprs : List Str) : StoreM Unit := do
  gcIfDue cfg scanned
  let (raw, preds) ← readHash exprs
  let now ← time
  if allFresh (now - cfg.retention / 2) preds exprs then
    modify fun l => { storeView (decode raw) l with preds := preds }
  else
    retry (do
      let watched ← send (.watch [.doc, .preds])
      let raw ← sendWatching .pipeGetDoc
      let cur := Dict.empty.insertAll (present exprs (← sendWatching (.pipeHmgetPreds exprs)))
      let now ← time
      let new ← liftPy (registrations (decode raw).version (decode raw).context now cur exprs)
      execute watched (registryWrites cur exprs new) none
      modify fun l => { storeView (decode raw) l with preds := Dict.empty.insertAll new }) maxTxRetries

/-! ### Shard layout -/

/-- `_load_roots`. -/
def loadRoots (items : List (Str × RootEntry)) : Members × Dict Str Nat :=
  (items.foldl (fun ctx item => ctx.set item.1 item.2.subtree) .nil,
    items.foldl (fun pv item => pv.insertAll item.2.pathVersions.items) Dict.empty)

/-- One group of `_group_pv`. -/
def groupPv (pathVersions : Dict Str Nat) (root : Str) : Dict Str Nat :=
  pathVersions.filter fun p _ => decide (rootOf p = root)

/-- `{**extra, **merged}`. -/
def extend (extra : Members) : Members → Members
  | .nil => extra
  | .cons key value rest => (extend extra rest).set key value

/-- The new entries of the roots the patch names. -/
def shardEntries (merged : Members) (pathVersions : Dict Str Nat) (roots : List Str) : List (Str × RootEntry) :=
  roots.filterMap fun r => (merged.get r).map fun subtree => (r, ⟨subtree, groupPv pathVersions r⟩)

/-- The merged roots with the roots the candidates read besides them. -/
def completeRoots (cands : List Str) (merged : Members) : StoreM Members :=
  let need := sortedSet ((cands.flatMap exprRoots).filter fun r => decide (r ∉ merged.keys))
  if need = [] then pure merged
  else do
    let extra ← send (.hmgetRoots need)
    return extend (loadRoots (present need extra)).1 merged

def changedShard (changed : List Str) (merged : Members) (version : Nat) : StoreM (List (Str × Entry)) :=
  if changed = [] then pure []
  else do
    let cands ← candidates (Changed.ofPaths changed).roots
    if cands = [] then pure []
    else do
      let full ← completeRoots cands merged
      let raws ← send (.hmgetPreds cands)
      liftPy (reEvaluateCandidates (.ofPaths changed) full version (present cands raws))

def updateShard (ticket : Nat) (patch : Members) : StoreM Nat :=
  retry (do
    let watched ← send (.watch [.ver, .preds])
    let version := (← sendWatching .pipeGetVer).getD 0 + 1
    let roots := sortedSet patch.keys
    let raws ← nonEmpty roots (sendWatching (.pipeHmgetRoots roots))
    let (ctx, pv) := loadRoots (present roots raws)
    let changed := changedPaths ctx patch
    let pv := pv.insertAll (changed.map fun path => (path, version))
    let merged := deepMerge ctx patch
    let updates ← changedShard changed merged version
    let entries := shardEntries merged pv roots
    nonEmpty entries (execute watched ([.hsetRoots entries, .setVer version] ++ hsetPredsIf updates) (some (ticket, patch)))
    modify fun l => { l with version := version, lastIo := true }
    return version) maxTxRetries

/-- Roots of the paths a list of predicates reads. -/
def rootsOf (exprs : List Str) : List Str := sortedSet (exprs.flatMap exprRoots)

/-- `_read_shard`. -/
def readShard (exprs : List Str) : StoreM (Nat × (Members × Dict Str Nat) × Dict Str Entry) := do
  let roots := rootsOf exprs
  let (ver, raws, entries) ← send (.readShard roots exprs)
  return (ver.getD 0, loadRoots (present roots raws), Dict.empty.insertAll (present exprs entries))

/-- `_load_roots(pipe.hmget(CTX_KEY, roots), roots) if roots else ({}, {})`. -/
def pipeLoadRoots (roots : List Str) : StoreM (Members × Dict Str Nat) :=
  if roots = [] then pure (.nil, Dict.empty)
  else do
    let raws ← sendWatching (.pipeHmgetRoots roots)
    return loadRoots (present roots raws)

def registerShard (cfg : StoreConfig) (scanned : List (Str × Entry)) (exprs : List Str) : StoreM Unit := do
  gcIfDue cfg scanned
  let (version, view, preds) ← readShard exprs
  let now ← time
  if allFresh (now - cfg.retention / 2) preds exprs then
    modify fun l => { l with version := version, preds := preds, shardView := view }
  else
    let roots := rootsOf exprs
    retry (do
      let watched ← send (.watch [.ver, .preds])
      let version := (← sendWatching .pipeGetVer).getD 0
      let view ← pipeLoadRoots roots
      let cur := Dict.empty.insertAll (present exprs (← sendWatching (.pipeHmgetPreds exprs)))
      let now ← time
      let new ← liftPy (registrations version view.1 now cur exprs)
      execute watched (registryWrites cur exprs new) none
      modify fun l => { l with version := version, shardView := view, preds := Dict.empty.insertAll new }) maxTxRetries

/-! ### The public methods -/

/-- `_update_redis`. -/
def updateRedis (cfg : StoreConfig) (ticket : Nat) (patch : Members) : StoreM Nat :=
  match cfg.layout with
  | .document => updateDocument cfg ticket patch
  | .hash => updateHash ticket patch
  | .shard => updateShard ticket patch

/-- `_update_locked`. -/
def updateLocked (cfg : StoreConfig) (ticket : Nat) (patch : Members) : StoreM Nat := do
  ensureClient
  if (← get).connected then
    tryCatch (updateRedis cfg ticket patch) fun _ => do
      dropClient
      return (← get).version
  else return (← get).version

/-- `update_timed`: the version, and whether bounds on a commit are returned. -/
def updateTimed (cfg : StoreConfig) (ticket : Nat) (patch : Members) : StoreM (Nat × Bool) := do
  modify fun l => { l with lastIo := false }
  let version ← updateLocked cfg ticket patch
  return (version, (← get).lastIo)

/-- `_register_redis`. -/
def registerRedis (cfg : StoreConfig) (scanned : List (Str × Entry)) (exprs : List Str) : StoreM Unit :=
  match cfg.layout with
  | .document => registerDocument cfg exprs
  | .hash => registerHash cfg scanned exprs
  | .shard => registerShard cfg scanned exprs

/-- A snapshot with its versions as a read returns them. -/
structure SnapshotDoc where
  snapshot : Snapshot
  preds : Dict Str Entry
  trusted : Bool

/-- `{e: self._preds[e] for e in exprs if e in self._preds}`. -/
def restrictPreds (preds : Dict Str Entry) (exprs : List Str) : Dict Str Entry :=
  Dict.empty.insertAll (present exprs (exprs.map preds.get))

def untrustedDoc (version : Nat) : SnapshotDoc := ⟨⟨.nil, version, Dict.empty⟩, Dict.empty, false⟩

/-- `register_and_snapshot`. -/
def registerAndSnapshot (cfg : StoreConfig) (scanned : List (Str × Entry)) (exprs : List Str) : StoreM SnapshotDoc := do
  ensureClient
  if (← get).connected then
    tryCatch (do
        registerRedis cfg scanned exprs
        let l ← get
        if cfg.layout = .shard then
          return ⟨⟨l.shardView.1, l.version, l.shardView.2⟩, restrictPreds l.preds exprs, true⟩
        else return ⟨⟨l.memory, l.version, l.pathVersions⟩, l.preds, true⟩)
      fun _ => do
        dropClient
        return untrustedDoc (← get).version
  else return untrustedDoc (← get).version

/-- The `try` block of `_snapshot_locked`. -/
def loadSnapshot (cfg : StoreConfig) : StoreM Unit :=
  if cfg.layout = .shard then do
    let (ver, items) ← send .readRoots
    modify fun l =>
      { l with memory := (loadRoots items).1, version := ver.getD 0, pathVersions := (loadRoots items).2 }
  else do
    let raw ← send .getDoc
    modify fun l => { storeView (decode raw) l with preds := decodePreds raw }

/-- `snapshot_timed`: what the object holds after the read, and whether it is trusted. -/
def snapshotTimed (cfg : StoreConfig) : StoreM (Snapshot × Bool) := do
  ensureClient
  if (← get).connected then tryCatch (loadSnapshot cfg) fun _ => dropClient
  let l ← get
  return (⟨l.memory, l.version, l.pathVersions⟩, l.connected)

/-- `snapshot_with_predicates`. -/
def snapshotWithPredicates (cfg : StoreConfig) (exprs : List Str) : StoreM SnapshotDoc := do
  if cfg.layout = .shard ∧ exprs ≠ [] then
    ensureClient
    if (← get).connected then
      tryCatch (do
          let (version, view, preds) ← readShard exprs
          modify fun l => { l with version := version }
          return ⟨⟨view.1, version, view.2⟩, preds, true⟩)
        fun _ => do
          dropClient
          return untrustedDoc (← get).version
    else return untrustedDoc (← get).version
  else if cfg.layout = .hash then
    ensureClient
    if (← get).connected then
      tryCatch (do
          let (raw, preds) ← readHash exprs
          modify (storeView (decode raw))
          return ⟨decode raw, preds, true⟩)
        fun _ => do
          dropClient
          return untrustedDoc (← get).version
    else return untrustedDoc (← get).version
  else
    let (snapshot, trusted) ← snapshotTimed cfg
    return ⟨snapshot, restrictPreds (← get).preds exprs, trusted⟩

/-- `register_predicates`. -/
def registerPredicates (cfg : StoreConfig) (scanned : List (Str × Entry)) (exprs : List Str) : StoreM (Dict Str Entry) := do
  ensureClient
  if (← get).connected then
    tryCatch (registerRedis cfg scanned exprs) fun _ => do
      dropClient
      throw .unavailable
    return restrictPreds (← get).preds exprs
  else throw .unavailable

/-- The result without an answer of the store. -/
def CommitResult.unavailable (version : Nat) : CommitResult := ⟨.unavailable, -1, version, none, none, none⟩

def ScriptReply.result (reply : ScriptReply) : CommitResult where
  status := reply.status
  observed := reply.observed
  commitVersion := reply.version
  storeTimeMs := some reply.storeTime
  ageAtCommitMs := some reply.age
  seq := if 0 < reply.seq then some reply.seq.toNat else none

/-- `_commit_redis`. -/
def commitRedis (cfg : StoreConfig) (ticket : Nat) (req : CommitRequest) : StoreM CommitResult := do
  match ← send (.commit cfg.layout ticket req) with
  | some reply => return reply.result
  | none => throw .failed

/-- `commit_authorization`. -/
def commitAuthorization (cfg : StoreConfig) (ticket : Nat) (req : CommitRequest) : StoreM CommitResult := do
  ensureClient
  if (← get).connected then
    tryCatch (commitRedis cfg ticket req) fun _ => do
      dropClient
      return .unavailable (← get).version
  else return .unavailable (← get).version

/-- `append_actuation`. -/
def appendActuation (ticket : Nat) (tombstone : Tombstone) : StoreM Unit := do
  ensureClient
  if (← get).connected then
    tryCatch (do
        let _ ← send (.rpushActuation ticket tombstone)
        return ())
      fun _ => do
        dropClient
        throw .unavailable
  else throw .unavailable

/-- `actuation_log`; without the server the object's own list, which is empty. -/
def actuationLog (start : Nat) : StoreM (List Members) := do
  ensureClient
  if (← get).connected then
    tryCatch (send (.lrangeActuations start)) fun _ => do
      dropClient
      return []
  else return []

/-- `update_context_store_timed`, without a policy engine: the version, the acknowledgement, and
whether bounds on a commit are returned. -/
def updateContextStoreTimed (cfg : StoreConfig) (ticket : Nat) (patch : Members) : StoreM (Nat × Bool × Bool) := do
  let (ver, io) ← updateTimed cfg ticket patch
  if cfg.layout = .shard then return (ver, (← get).connected, io)
  else
    let (now, trusted) ← snapshotTimed cfg
    return (max ver now.version, trusted, io)

end

end Xair
