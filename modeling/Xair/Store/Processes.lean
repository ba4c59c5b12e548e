import Xair.Store.Methods

/-!
# Processes on one Redis server

The jobs of the store, and what every interleaving of them keeps: the discipline
of the layout and, for each finished call, what its result says.
-/

namespace Xair

open Library

inductive StoreOut where
  | version (version : Nat) (lastIo : Bool)
  | acknowledged (version : Nat) (trusted lastIo : Bool)
  | snapshot (doc : SnapshotDoc)
  | predicates (preds : Dict Str Entry)
  | commit (result : CommitResult)
  | records (records : List Members)
  | done

theorem Redis.setClock_advance (layout : Layout) (mine : Effect → Prop) (s : Redis) (now : ℚ) :
    Advance layout mine s { s with clock := now } :=
  ⟨⟨[], (List.append_nil _).symm, by simp⟩, Redis.log_of_eq rfl, Guarded.of_eq rfl rfl, Guarded.of_eq rfl rfl,
    fun _ => Guarded.of_eq rfl rfl⟩

section

variable [PyText]

theorem StoreInv.setClock {layout : Layout} {faultless : Prop} {s : Redis} (inv : StoreInv layout faultless s) (now : ℚ) :
    StoreInv layout faultless { s with clock := now } :=
  inv.congr (s := s) rfl rfl inv.log

def storeMethod (cfg : StoreConfig) (ticket : Nat) : StoreJob → StoreM StoreOut
  | .update patch => do
    let out ← updateTimed cfg ticket patch
    return .version out.1 out.2
  | .updateContextStore patch => do
    let out ← updateContextStoreTimed cfg ticket patch
    return .acknowledged out.1 out.2.1 out.2.2
  | .registerAndSnapshot scanned exprs => do
    let doc ← registerAndSnapshot cfg scanned exprs
    return .snapshot doc
  | .registerPredicates scanned exprs => do
    let preds ← registerPredicates cfg scanned exprs
    return .predicates preds
  | .gcPredicates scanned => do
    let _ ← gcPredicates cfg scanned
    return .done
  | .snapshotTimed => do
    let out ← snapshotTimed cfg
    return .snapshot ⟨out.1, Dict.empty, out.2⟩
  | .snapshotWithPredicates exprs => do
    let doc ← snapshotWithPredicates cfg exprs
    return .snapshot doc
  | .commitAuthorization req => do
    let result ← commitAuthorization cfg ticket req
    return .commit result
  | .appendActuation tombstone => do
    let _ ← appendActuation ticket tombstone
    return .done
  | .actuationLog start => do
    let records ← actuationLog start
    return .records records

/-- Any number of processes, each with its own store object; the wall clock may jump. -/
def storeWorkload (cfg : StoreConfig) : Workload redis where
  Job := StoreJob
  Local := StoreObject
  Out := Except Fault StoreOut
  code job ticket l := (storeMethod cfg ticket job).program l
  Env := ℚ
  env now s := { s with clock := now }

abbrev StorePool (cfg : StoreConfig) := Pool redis (storeWorkload cfg)

abbrev StoreEvent (cfg : StoreConfig) := PoolEvent redis (storeWorkload cfg)

/-- Processes that have just been started on an empty server. -/
def StorePool.init (cfg : StoreConfig) (clock : ℚ) : StorePool cfg := Pool.init (Redis.empty clock) fun _ => .init

/-! ### What a job may meet and what it leaves -/

/-- How commands may fare. -/
structure Regime where
  cfg : StoreConfig
  faultless : Prop
  may : Nat → StoreJob → Command → Redis → Fate → Prop
  reliable : faultless → ∀ t job c s fate, may t job c s fate → fate = .done

namespace Regime

variable (R : Regime)

def call (t : Nat) (job : StoreJob) : Call :=
  ⟨R.cfg, R.faultless, t, job, R.may t job, fun h c s fate => R.reliable h t job c s fate⟩

def Post (t : Nat) (job : StoreJob) (out : Except Fault StoreOut) (s : Redis) : Prop :=
  match job with
  | .update patch => ∃ v io, out = .ok (.version v io) ∧
    (io = true → ∃ n, v = n + 1 ∧ s.updates[n]? = some (t, patch)) ∧ (R.faultless → io = false → t ∉ s.tickets)
  | .updateContextStore patch => ∃ v trusted io, out = .ok (.acknowledged v trusted io) ∧
    (io = true → ∃ n, n < v ∧ s.updates[n]? = some (t, patch)) ∧ (R.faultless → io = false → t ∉ s.tickets) ∧
    (trusted = true → R.cfg.layout ≠ .shard → ∃ s₀, R.may t job .getDoc s₀ .done ∧
      (∃ more, s.updates = s₀.updates ++ more) ∧ s₀.updates.length ≤ v)
  | .registerAndSnapshot _ exprs => ∃ doc, out = .ok (.snapshot doc) ∧
    (doc.trusted = true → Seen (R.cfg.layout.reads exprs) doc.snapshot doc.preds s)
  | .snapshotTimed => ∃ doc, out = .ok (.snapshot doc) ∧ (R.faultless → doc.trusted = true) ∧
    (doc.trusted = true → Seen (fun _ => True) doc.snapshot doc.preds s)
  | .snapshotWithPredicates exprs => ∃ doc, out = .ok (.snapshot doc) ∧ (R.faultless → doc.trusted = true) ∧
    (doc.trusted = true → Seen (fun r => exprs ≠ [] → R.cfg.layout.reads exprs r) doc.snapshot doc.preds s)
  | .registerPredicates _ _ => (∃ preds, out = .ok (.predicates preds)) ∨ ∃ e, out = .error e
  | .gcPredicates _ | .appendActuation _ => out = .ok .done ∨ ∃ e, out = .error e
  | .commitAuthorization req => ∃ result, out = .ok (.commit result) ∧ result.Answers t req s.actuations
  | .actuationLog start => ∃ records, out = .ok (.records records) ∧
    records <+: (s.actuations.drop start).map LogEntry.record

def contract : Contract redis (storeWorkload R.cfg) (storeDiscipline R.cfg.layout R.faultless) where
  Starts job := ∀ patch, job.patch = some patch → R.cfg.layout.Accepts patch
  May := R.may
  LocalOk := IdxOk
  Fresh t s := t ∉ s.tickets ∧ ∀ entry ∈ s.actuations, entry.ticket ≠ t
  Since t job s := ∀ patch, (t, patch) ∈ s.updates → job.patch = some patch
  Post := R.Post
  local_rely _ _ _ _ idx _ _ rely := idx.advance rely
  fresh_rely _ _ _ fresh rely := ⟨rely.not_mem_tickets (fun _ ne => ne rfl) fresh.1, rely.unlogged (fun ne => ne rfl) fresh.2⟩
  since_fresh _ _ _ fresh _ member := absurd (List.mem_map_of_mem member) fresh.1
  since_step _ _ _ _ since step patch member := by
    obtain ⟨more, appended, mine⟩ := step.updates
    rw [appended] at member
    exact (List.mem_append.mp member).elim (since patch) fun new => (mine _ new).2 patch rfl
  since_rely _ _ _ _ since rely patch member := by
    obtain ⟨more, appended, others⟩ := rely.updates
    rw [appended] at member
    exact (List.mem_append.mp member).elim (since patch) fun new => absurd rfl (others _ new)
  env_inv now _ inv := inv.setClock now
  env_rely now t s _ := s.setClock_advance R.cfg.layout (fun update => update.1 ≠ t) now

variable {R}

theorem storeInv_empty (layout : Layout) (faultless : Prop) (clock : ℚ) : StoreInv layout faultless (Redis.empty clock) := by
  refine ⟨fun _ member => absurd member List.not_mem_nil, fun _ _ member => absurd member List.not_mem_nil, ?_, ?_, ?_,
    fun _ => List.nodup_nil, logOk_nil⟩
  · cases layout with
    | document => rfl
    | hash => rfl
    | shard => exact ⟨rfl, fun _ => rfl, fun r p => by simp [Redis.empty, Redis.patches, history, Snapshot.empty]⟩
  · intro expr entry stored
    cases layout <;> cases stored
  · intro _ r e
    simp [Redis.empty, Dict.contains]

/-- A method's run, in the terms of the pool. -/
theorem safe_of_runs {t : Nat} {job : StoreJob} {l : StoreObject} {s : Redis} {held : StoreObject → Redis → Prop}
    (h : (R.call t job).Runs (storeMethod R.cfg t job) l s
      (fun out l' s' => R.Post t job (.ok out) s' ∧ IdxOk l' s') held)
    (raised : ∀ e l' s', held l' s' → R.Post t job (.error e) s' ∧ IdxOk l' s') :
    Safe (storeDiscipline R.cfg.layout R.faultless) t job (R.may t job) ((storeWorkload R.cfg).code job t l) s
      (Pool.Ended R.contract t job) := by
  refine Safe.imp h fun out s' _ ends => ?_
  obtain ⟨result, l'⟩ := out
  cases result with
  | ok out => exact ends
  | error e => exact raised e l' s' ends

/-- Every job keeps the discipline and ends as it should. -/
theorem safe_code (t : Nat) (job : StoreJob) (l : StoreObject) (s : Redis) (starts : R.contract.Starts job)
    (inv : StoreInv R.cfg.layout R.faultless s) (idx : IdxOk l s) (fresh : R.contract.Fresh t s) :
    Safe (storeDiscipline R.cfg.layout R.faultless) t job (R.may t job) ((storeWorkload R.cfg).code job t l) s
      (Pool.Ended R.contract t job) := by
  have never : ∀ (e : Fault) (l' : StoreObject) (s' : Redis), False → R.Post t job (.error e) s' ∧ IdxOk l' s' :=
    fun _ _ _ never => never.elim
  cases job with
  | update patch =>
    refine safe_of_runs (Call.runs_map inv (Call.runs_updateTimed (K := R.call t (.update patch)) (starts patch rfl) rfl inv
      idx fun _ => fresh.1) fun out l' s' ends => ?_) never
    rcases ends with ⟨done, committed⟩ | ⟨none, pending⟩
    · exact ⟨⟨out.1, out.2, rfl, fun _ => committed.placed, fun _ other => absurd (other.symm.trans done) (by simp)⟩,
        committed.idx⟩
    · exact ⟨⟨out.1, out.2, rfl, fun done => absurd (none.symm.trans done) (by simp),
        fun faultless _ => pending.absent faultless⟩, pending.idx⟩
  | updateContextStore patch =>
    refine safe_of_runs (Call.runs_map inv (Call.runs_updateContextStoreTimed (K := R.call t (.updateContextStore patch))
      (starts patch rfl) rfl inv idx fun _ => fresh.1) fun out l' s' ends => ?_) never
    refine ⟨⟨out.1, out.2.1, out.2.2, rfl, ends.committed, ends.absent, fun trusted whole => ?_⟩, ends.idx⟩
    obtain ⟨s₀, allowed, rely, bound⟩ := ends.trusted trusted whole
    obtain ⟨more, appended, _⟩ := rely.updates
    exact ⟨s₀, allowed, ⟨more, appended⟩, bound⟩
  | registerAndSnapshot scanned exprs =>
    refine safe_of_runs (Call.runs_map inv (Call.runs_registerAndSnapshot (K := R.call t (.registerAndSnapshot scanned exprs))
      scanned exprs inv idx) fun doc l' s' ends => ?_) never
    exact ⟨⟨doc, rfl, ends.2⟩, ends.1⟩
  | registerPredicates scanned exprs =>
    exact safe_of_runs (Call.runs_map inv (Call.runs_registerPredicates (K := R.call t (.registerPredicates scanned exprs))
      scanned exprs inv idx) fun preds l' s' idx => ⟨Or.inl ⟨preds, rfl⟩, idx⟩) fun e l' s' idx => ⟨Or.inr ⟨e, rfl⟩, idx⟩
  | gcPredicates scanned =>
    exact safe_of_runs (Call.runs_map inv (Call.runs_gcPredicates (K := R.call t (.gcPredicates scanned)) scanned inv idx)
      fun _ l' s' idx => ⟨Or.inl rfl, idx⟩) fun e l' s' idx => ⟨Or.inr ⟨e, rfl⟩, idx⟩
  | snapshotTimed =>
    refine safe_of_runs (Call.runs_map inv (Call.runs_snapshotTimed (K := R.call t .snapshotTimed) inv idx)
      fun out l' s' ends => ?_) never
    obtain ⟨rfl, tried, _⟩ := ends
    refine ⟨⟨_, rfl, tried.answered, fun trusted => ?_⟩, tried.idx⟩
    exact (tried.loaded trusted).seen fun _ _ _ _ _ stored => absurd stored (by simp)
  | snapshotWithPredicates exprs =>
    refine safe_of_runs (Call.runs_map inv (Call.runs_snapshotWithPredicates (K := R.call t (.snapshotWithPredicates exprs))
      exprs inv idx) fun doc l' s' ends => ?_) never
    exact ⟨⟨doc, rfl, ends.2, ends.1.2⟩, ends.1.1⟩
  | commitAuthorization req =>
    exact safe_of_runs (Call.runs_map inv (Call.runs_commitAuthorization (K := R.call t (.commitAuthorization req)) inv idx
      fresh.2) fun result l' s' ends => ⟨⟨result, rfl, ends.2⟩, ends.1⟩) never
  | appendActuation tombstone =>
    exact safe_of_runs (Call.runs_map inv (Call.runs_appendActuation (K := R.call t (.appendActuation tombstone)) tombstone
      inv idx) fun _ l' s' idx => ⟨Or.inl rfl, idx⟩) fun e l' s' idx => ⟨Or.inr ⟨e, rfl⟩, idx⟩
  | actuationLog start =>
    exact safe_of_runs (Call.runs_map inv (Call.runs_actuationLog (K := R.call t (.actuationLog start)) start inv idx)
      fun records l' s' ends => ⟨⟨records, rfl, ends.2⟩, ends.1⟩) never

/-- Every interleaving. -/
theorem sound_run {clock : ℚ} {events : List (StoreEvent R.cfg)}
    (admissible : Pool.Along (Pool.Admissible R.contract) (StorePool.init R.cfg clock) events) :
    Pool.Sound R.contract ((StorePool.init R.cfg clock).run events) := by
  have start : Pool.Sound R.contract (StorePool.init R.cfg clock) :=
    Pool.sound_init (storeInv_empty _ _ clock) (fun _ _ _ _ cached => nomatch cached)
      fun _ => (by exact ⟨List.not_mem_nil, fun _ member => absurd member List.not_mem_nil⟩)
  exact start.run (fun t job l s starts inv idx fresh => safe_code t job l s starts inv idx fresh) admissible

end Regime

end

end Xair
