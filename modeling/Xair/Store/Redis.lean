import Xair.Store.Commit
import Xair.Library.Pool

/-!
# The shared Redis server

The keys of the three layouts with typed values, and the commands the store sends.
A transaction watches modification counts: it is refused if a watched key has been
modified since. `updates` is history only; no command reads it.
-/

namespace Xair

open Library

/-- The document under `SNAPSHOT_KEY`. The hash layout keeps no predicates in it. -/
structure Doc where
  snapshot : Snapshot
  preds : Dict Str Entry

/-- A value of the hash `CTX_KEY`: the subtree of a root and the path versions below it. -/
structure RootEntry where
  subtree : Json
  pathVersions : Dict Str Nat

/-- `PREDICATE_LAYOUT`. -/
inductive Layout where
  | document | hash | shard
  deriving DecidableEq

/-- The keys that are ever watched. -/
inductive WatchKey where
  | doc | ver | preds
  deriving DecidableEq

structure Redis where
  doc : Option Doc
  ver : Option Nat
  roots : Dict Str RootEntry
  preds : Dict Str Entry
  /-- The sets `PRED_ROOT_PREFIX + root`. -/
  predRoots : Str → List Str
  /-- The hash `PRED_VER_KEY`. -/
  predVers : Dict Str Nat
  /-- How often a key has been modified. -/
  revs : WatchKey → Nat
  /-- The wall clock of the processes and of the server, in seconds. -/
  clock : ℚ
  /-- The committed patches in order, each with the call it came from. -/
  updates : List (Nat × Members)
  /-- The list `ACTUATION_LOG_KEY`. -/
  actuations : List LogEntry
  /-- The set `COMMITTED_KEY`. -/
  committed : List Str

inductive Write where
  | setDoc (doc : Doc)
  | setVer (n : Nat)
  | hsetRoots (items : List (Str × RootEntry))
  | hsetPreds (items : List (Str × Entry))
  | hdelPred (expr : Str)
  | sadd (root expr : Str)
  | srem (root expr : Str)
  | hincrPredVer (root : Str)

namespace Redis

def empty (clock : ℚ) : Redis where
  doc := none
  ver := none
  roots := Dict.empty
  preds := Dict.empty
  predRoots := fun _ => []
  predVers := Dict.empty
  revs := fun _ => 0
  clock := clock
  updates := []
  actuations := []
  committed := []

/-- The committed patches. -/
def patches (s : Redis) : List Members := s.updates.map Prod.snd

def touch (s : Redis) (key : WatchKey) : Redis :=
  { s with revs := fun k => if k = key then s.revs k + 1 else s.revs k }

def write (s : Redis) : Write → Redis
  | .setDoc doc => { s with doc := some doc }.touch .doc
  | .setVer n => { s with ver := some n }.touch .ver
  | .hsetRoots items => { s with roots := s.roots.insertAll items }
  | .hsetPreds items => { s with preds := s.preds.insertAll items }.touch .preds
  | .hdelPred expr => if s.preds.contains expr then { s with preds := s.preds.erase expr }.touch .preds else s
  | .sadd root expr =>
    { s with predRoots := fun r =>
        if r = root ∧ expr ∉ s.predRoots r then s.predRoots r ++ [expr] else s.predRoots r }
  | .srem root expr =>
    { s with predRoots := fun r =>
        if r = root then (s.predRoots r).filter fun e => decide (e ≠ expr) else s.predRoots r }
  | .hincrPredVer root => { s with predVers := s.predVers.insert root ((s.predVers.get root).getD 0 + 1) }

/-- No watched key has been modified since it was watched. -/
def unchanged (s : Redis) (watched : List (WatchKey × Nat)) : Bool :=
  watched.all fun w => decide (s.revs w.1 = w.2)

/-- The effect of `EXEC`; the patch is noted with the writes. -/
def commit (s : Redis) (writes : List Write) (patch : Option (Nat × Members)) : Redis :=
  { writes.foldl write s with updates := s.updates ++ patch.toList }

/-- The log and the ids in it, which no transaction writes. -/
def logPart (s : Redis) : List LogEntry × List Str := (s.actuations, s.committed)

theorem logPart_write (s : Redis) (w : Write) : (s.write w).logPart = s.logPart := by
  cases w <;> simp only [write]
  case hdelPred expr => split <;> rfl
  all_goals rfl

theorem logPart_writes (s : Redis) (writes : List Write) : (writes.foldl write s).logPart = s.logPart := by
  induction writes generalizing s with
  | nil => rfl
  | cons w writes ih => exact (ih (s.write w)).trans (s.logPart_write w)

theorem logPart_commit (s : Redis) (writes : List Write) (patch : Option (Nat × Members)) :
    (s.commit writes patch).logPart = s.logPart :=
  s.logPart_writes writes

/-! ### The commit script -/

/-- The loop over the paths of a commit in the shard layout, root by root; a path without a first
segment has no root to index with. -/
def shardReadSet (s : Redis) (paths : List Str) : List Str → List Str → Nat → Option Nat
  | [], _, observed => some observed
  | r :: rest, seen, observed =>
    match luaRoot r with
    | none => none
    | some root =>
      if root ∈ seen then s.shardReadSet paths rest seen observed
      else s.shardReadSet paths rest (root :: seen)
        (match s.roots.get root with
          | none => observed
          | some entry => luaReadSet paths entry.pathVersions.items observed)

/-- The version and the path versions the script reads first. -/
def scriptVersions (layout : Layout) (s : Redis) : Nat × List (Str × Nat) :=
  match layout with
  | .shard => (s.ver.getD 0, [])
  | .document | .hash =>
    match s.doc with
    | none => (0, [])
    | some doc => (doc.snapshot.version, doc.snapshot.pathVersions.items)

/-- The registered predicates the script looks up. -/
def scriptPreds (layout : Layout) (s : Redis) : Dict Str Entry :=
  match layout with
  | .document =>
    match s.doc with
    | none => Dict.empty
    | some doc => doc.preds
  | .hash | .shard => s.preds

/-- What the script observes; `none` is its error. -/
def scriptObserved (layout : Layout) (req : CommitRequest) (s : Redis) : Option Int :=
  match req.scope with
  | .truth => some (luaTruth (s.scriptPreds layout).get req.keys 0)
  | .readset =>
    match layout with
    | .shard => (s.shardReadSet req.keys req.keys [] 0).map Int.ofNat
    | .document | .hash => some (luaReadSet req.keys (s.scriptVersions layout).2 0)

end Redis

/-- What the script returns. -/
structure ScriptReply where
  status : CommitStatus
  observed : Int
  version : Int
  storeTime : ℚ
  age : ℚ
  seq : Int

/-- The record the script appends; `none` is an error of the encoder. -/
def scriptRecord (req : CommitRequest) (version : Nat) (now age : ℚ) : Option Members :=
  (req.record.set "intent_id".toList (.str req.intentId)).cjson.map fun record =>
    ((record.set "commit_version".toList (luaNumber version)).set "store_time_ms".toList (luaNumber now)).set
      "age_at_commit_ms".toList (luaNumber age)

/-- `_COMMIT_LUA`; `none` is an error, after which nothing has been written. -/
def Redis.commitScript (layout : Layout) (ticket : Nat) (req : CommitRequest) (s : Redis) : Option ScriptReply × Redis :=
  if req.intentId ∈ s.committed then (some ⟨.duplicate, -1, -1, 0, 0, -1⟩, s)
  else
    let now := s.clock * 1000
    let age := now - req.decisionEpochMs
    let version := (s.scriptVersions layout).1
    match s.scriptObserved layout req with
    | none => (none, s)
    | some observed =>
      if req.maxAheadMs.any fun ahead => decide (age < -ahead) then
        (some ⟨.futureSkew, -1, version, significant 14 now, significant 14 age, -1⟩, s)
      else if req.ageBoundMs.any fun bound => decide (bound < age) then
        (some ⟨.expired, observed, version, significant 14 now, significant 14 age, -1⟩, s)
      else if observed < 0 ∨ req.expected < 0 ∨ observed ≠ req.expected then
        (some ⟨.changed, observed, version, significant 14 now, significant 14 age, -1⟩, s)
      else
        match scriptRecord req version now age with
        | none => (none, s)
        | some record =>
          (some ⟨.committed, observed, version, significant 14 now, significant 14 age, s.actuations.length + 1⟩,
            { s with
              actuations := s.actuations ++ [⟨record, ticket, some ⟨req, version, s.scriptPreds layout⟩⟩]
              committed := s.committed ++ [req.intentId] })

namespace Redis

/-- What a commit may append. -/
theorem commitScript_cases (layout : Layout) (ticket : Nat) (req : CommitRequest) (s : Redis) :
    ((s.commitScript layout ticket req).2 = s ∧
      ∀ reply, (s.commitScript layout ticket req).1 = some reply → reply.status.refused = true ∧ reply.seq = -1) ∨
    ∃ record observed, req.intentId ∉ s.committed ∧ s.scriptObserved layout req = some observed ∧
      observed = req.expected ∧ 0 ≤ observed ∧
      scriptRecord req (s.scriptVersions layout).1 (s.clock * 1000) (s.clock * 1000 - req.decisionEpochMs) = some record ∧
      (s.commitScript layout ticket req).1 = some ⟨.committed, observed, (s.scriptVersions layout).1,
        significant 14 (s.clock * 1000), significant 14 (s.clock * 1000 - req.decisionEpochMs), s.actuations.length + 1⟩ ∧
      (s.commitScript layout ticket req).2 = { s with
        actuations := s.actuations ++ [⟨record, ticket, some ⟨req, (s.scriptVersions layout).1, s.scriptPreds layout⟩⟩]
        committed := s.committed ++ [req.intentId] } := by
  simp only [commitScript]
  by_cases present : req.intentId ∈ s.committed
  · left
    rw [if_pos present]
    exact ⟨rfl, by rintro _ ⟨⟩; exact ⟨rfl, rfl⟩⟩
  rw [if_neg present]
  cases seen : s.scriptObserved layout req with
  | none => exact Or.inl ⟨rfl, by rintro _ ⟨⟩⟩
  | some observed =>
    simp only
    split
    · exact Or.inl ⟨rfl, by rintro _ ⟨⟩; exact ⟨rfl, rfl⟩⟩
    · split
      · exact Or.inl ⟨rfl, by rintro _ ⟨⟩; exact ⟨rfl, rfl⟩⟩
      · split
        · exact Or.inl ⟨rfl, by rintro _ ⟨⟩; exact ⟨rfl, rfl⟩⟩
        · rename_i matched
          split
          · exact Or.inl ⟨rfl, by rintro _ ⟨⟩⟩
          · rename_i record encoded
            exact Or.inr ⟨record, observed, present, rfl, by omega, by omega, encoded, rfl, rfl⟩

theorem updates_commitScript (layout : Layout) (ticket : Nat) (req : CommitRequest) (s : Redis) :
    (s.commitScript layout ticket req).2.updates = s.updates := by
  rcases s.commitScript_cases layout ticket req with ⟨same, _⟩ | ⟨_, _, _, _, _, _, _, _, same⟩ <;> rw [same]

end Redis

inductive Command where
  | ping
  /-- The wall clock; not a message to the server. -/
  | time
  | watch (keys : List WatchKey)
  | unwatch
  /-- Reads on the connection of a pipeline that watches keys. -/
  | pipeGetDoc
  | pipeGetVer
  | pipeHmgetRoots (roots : List Str)
  | pipeHmgetPreds (exprs : List Str)
  | pipeHgetPred (expr : Str)
  /-- Reads on other connections. -/
  | getDoc
  | hmgetRoots (roots : List Str)
  | hmgetPreds (exprs : List Str)
  | hmgetPredVers (roots : List Str)
  | smembers (root : Str)
  | hscanPreds
  /-- Reads of several keys in one `MULTI`/`EXEC`. -/
  | readHash (exprs : List Str)
  | readShard (roots exprs : List Str)
  | readRoots
  /-- `MULTI`, the queued writes and `EXEC`; `patch` is what an update commits. -/
  | exec (watched : List (WatchKey × Nat)) (writes : List Write) (patch : Option (Nat × Members))
  /-- The commit script, for the call `ticket`. -/
  | commit (layout : Layout) (ticket : Nat) (req : CommitRequest)
  | rpushActuation (ticket : Nat) (tombstone : Tombstone)
  | lrangeActuations (start : Nat)

def Command.Reply : Command → Type
  | ping | unwatch | hscanPreds => Unit
  | time => ℚ
  | watch _ => List (WatchKey × Nat)
  | pipeGetDoc | getDoc => Option Doc
  | pipeGetVer => Option Nat
  | pipeHmgetRoots _ | hmgetRoots _ => List (Option RootEntry)
  | pipeHmgetPreds _ | hmgetPreds _ => List (Option Entry)
  | pipeHgetPred _ => Option Entry
  | hmgetPredVers _ => List (Option Nat)
  | smembers _ => List Str
  | readHash _ => Option Doc × List (Option Entry)
  | readShard _ _ => Option Nat × List (Option RootEntry) × List (Option Entry)
  | readRoots => Option Nat × List (Str × RootEntry)
  | exec _ _ _ => Bool
  | commit _ _ _ => Option ScriptReply
  | rpushActuation _ _ => Nat
  | lrangeActuations _ => List Members

def Redis.exec : (c : Command) → Redis → c.Reply × Redis
  | .ping, s => ((), s)
  | .time, s => (s.clock, s)
  | .watch keys, s => (keys.map fun k => (k, s.revs k), s)
  | .unwatch, s => ((), s)
  | .pipeGetDoc, s => (s.doc, s)
  | .pipeGetVer, s => (s.ver, s)
  | .pipeHmgetRoots roots, s => (roots.map s.roots.get, s)
  | .pipeHmgetPreds exprs, s => (exprs.map s.preds.get, s)
  | .pipeHgetPred expr, s => (s.preds.get expr, s)
  | .getDoc, s => (s.doc, s)
  | .hmgetRoots roots, s => (roots.map s.roots.get, s)
  | .hmgetPreds exprs, s => (exprs.map s.preds.get, s)
  | .hmgetPredVers roots, s => (roots.map s.predVers.get, s)
  | .smembers root, s => (s.predRoots root, s)
  | .hscanPreds, s => ((), s)
  | .readHash exprs, s => ((s.doc, exprs.map s.preds.get), s)
  | .readShard roots exprs, s => ((s.ver, roots.map s.roots.get, exprs.map s.preds.get), s)
  | .readRoots, s => ((s.ver, s.roots.items), s)
  | .exec watched writes patch, s =>
    (s.unchanged watched, if s.unchanged watched then s.commit writes patch else s)
  | .commit layout ticket req, s => s.commitScript layout ticket req
  | .rpushActuation ticket tombstone, s =>
    (s.actuations.length + 1, { s with actuations := s.actuations ++ [⟨tombstone.record, ticket, none⟩] })
  | .lrangeActuations start, s => ((s.actuations.drop start).map LogEntry.record, s)

abbrev redis : Service := ⟨Command, Command.Reply, Redis, Redis.exec⟩

end Xair
