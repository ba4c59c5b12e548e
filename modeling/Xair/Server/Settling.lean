import Xair.Runtime.Passes
import Xair.Server.Admissions
import Xair.Server.Naming
import Xair.Server.Serving

/-!
# What a submission leaves behind

A submission that is served by itself leaves its record where a client can go on from it,
exactly if nothing that it evaluates raises.
-/

namespace Xair

open Library

theorem MemoryStore.register_snapshot [PyText] (retention now : ℚ) (exprs : List Str) (m : MemoryStore) :
    (m.register retention now exprs).1.snapshot = m.snapshot := by
  induction exprs generalizing m with
  | nil => rfl
  | cons e exprs ih =>
    rw [register]
    split
    · exact ih m
    · split
      · exact ih _
      · rfl

theorem MemoryStore.update_snapshot [PyText] {retention now : ℚ} {patch : Members} {m m' : MemoryStore}
    (updated : m.update retention now patch = .ok m') : m'.snapshot = m.snapshot.merge patch := by
  rw [MemoryStore.update, apply] at updated
  split at updated
  · cases updated
    rfl
  · cases evaluated : reEvaluateAll (.ofPaths (changedPaths m.snapshot.context patch)) (m.snapshot.merge patch).context
        (m.snapshot.merge patch).version (m.preds.filter fun _ entry => decide (now - retention ≤ entry.registeredAt)) with
    | error e =>
      rw [evaluated] at updated
      cases updated
    | ok preds =>
      rw [evaluated] at updated
      cases updated
      rfl

theorem MemoryStore.update_version [PyText] {retention now : ℚ} {patch : Members} {m m' : MemoryStore}
    (updated : m.update retention now patch = .ok m') : m'.snapshot.version = m.snapshot.version + 1 :=
  congrArg Snapshot.version (MemoryStore.update_snapshot updated)

/-! ### The condition -/

namespace SiteConfig

variable [PyText] (cfg : SiteConfig)

/-- The store once the bucket has an epoch, at this time of day. -/
def initialized (clock : ℚ) (key : Str) (m : MemoryStore) : Except PyError MemoryStore :=
  (stopEpoch m.snapshot.context key).map fun
    | some _ => m
    | none =>
      match m.update cfg.predicateRetentionS (clock / 1000) (stopPatch key 0) with
      | .ok m' => m'
      | .error _ => m

/-- The store and the intent after `_fence_intent`. -/
def fenced (clock : ℚ) (m : MemoryStore) (i : ActionIntent) : Except PyError (MemoryStore × ActionIntent) :=
  if cfg.stopFence then
    (cfg.initialized clock (cfg.stopKey i.target) m).map fun m => (m, { i with preconditions := i.preconditions ++ [cfg.fencePredicate i] })
  else .ok (m, i)

/-- The registration of the predicates and the validation of an intent, fenced and with its policy, raise nothing. -/
def validates (timedOut : Nat → Bool) (clock : ℚ) (m : MemoryStore) (rt : Runtime) (i : ActionIntent) : Bool :=
  match m.register cfg.predicateRetentionS (clock / 1000) (registered i.predicates) with
  | (_, some _) => cfg.redisRequired
  | (m, none) =>
    let doc := cfg.read (registered i.predicates) m
    decide (doc.snapshot.version < rt.contextVersion) || rt.concludes cfg.config { snapshotCall doc timedOut with now := clock } i

end SiteConfig

namespace Site

variable [PyText] (cfg : SiteConfig)

/-- The record that a submission of this id finds. -/
def known (id : Str) (s : Site) : Option IntentRecord :=
  if (expireSeen cfg.config s.mono s.runtime).seen.contains id then (expireSeen cfg.config s.mono s.runtime).records.get id else none

/-- The request admits the intent, or validates it again. -/
def Takes (id : Str) (s : Site) : Prop := ∀ record, s.known cfg id = some record → record.state = .delayed

/-- An intent that is no stop can be fenced, registered and validated. -/
def validates (timedOut : Nat → Bool) (s : Site) (i : ActionIntent) : Bool :=
  match cfg.fenced s.clock s.store i with
  | .error _ => false
  | .ok (m, i) => cfg.validates timedOut s.clock m s.runtime (s.runtime.policy.applyTo i).1

/-- The submission raises nothing: it is one of a duplicate or of a stop, its id has been claimed, or the intent
that it takes can be validated. -/
def settles (timedOut : Nat → Bool) (i : ActionIntent) (s : Site) : Bool :=
  match s.known cfg i.id with
  | some record =>
    decide (record.state ≠ .delayed) || (s.runtime.policy.actionClass (s.runtime.heap record.intent)).riskReducing ||
      s.validates cfg timedOut (s.runtime.heap record.intent)
  | none =>
    (s.runtime.policy.actionClass i).riskReducing || decide (s.Claimed cfg i.id) ||
      s.validates cfg timedOut { i with policyAdded := none }

end Site

/-- The record of the id is at rest: it has its verdict, or it is delayed and can be validated again. -/
def Site.Rests (id : Str) (s : Site) : Prop := ∃ record, s.runtime.records.get id = some record ∧
  (record.state ∈ [.authorized, .revoked, .expired] ∨
    record.state = .delayed ∧ s.Names record.intent id ∧ s.runtime.seen.contains id = true)

/-! ### What the store's steps leave alone -/

/-- Only the installed context may have gone on, as far as the store has. -/
structure Site.Still (s s' : Site) : Prop where
  records : s'.runtime.records = s.runtime.records
  seen : s'.runtime.seen = s.runtime.seen
  locks : s'.runtime.activeTargets = s.runtime.activeTargets
  policy : s'.runtime.policy = s.runtime.policy
  clock : s'.clock = s.clock
  allocated : s'.allocated = s.allocated
  newer : s.runtime.contextVersion ≤ s'.runtime.contextVersion
  behind : s'.runtime.contextVersion = s.runtime.contextVersion ∨ s'.runtime.contextVersion ≤ s'.store.snapshot.version
  versions : s.store.snapshot.version ≤ s'.store.snapshot.version

namespace Site

variable {s s' s'' : Site}

theorem Still.refl (s : Site) : s.Still s := ⟨rfl, rfl, rfl, rfl, rfl, rfl, Nat.le_refl _, Or.inl rfl, Nat.le_refl _⟩

theorem Still.trans (h : s.Still s') (h' : s'.Still s'') : s.Still s'' := by
  refine ⟨h'.records.trans h.records, h'.seen.trans h.seen, h'.locks.trans h.locks, h'.policy.trans h.policy,
    h'.clock.trans h.clock, h'.allocated.trans h.allocated, Nat.le_trans h.newer h'.newer, ?_, Nat.le_trans h.versions h'.versions⟩
  rcases h'.behind with same | behind
  · rcases h.behind with unmoved | behind
    · exact Or.inl (same.trans unmoved)
    · exact Or.inr (Nat.le_trans (Nat.le_of_eq same) (Nat.le_trans behind h'.versions))
  · exact Or.inr behind

/-- A snapshot of the store is stale now if it was stale before. -/
theorem Still.stale_iff (h : s.Still s') {version : Nat} (present : version = s'.store.snapshot.version) :
    version < s'.runtime.contextVersion ↔ version < s.runtime.contextVersion := by
  subst present
  have newer := h.newer
  rcases h.behind with same | behind
  · rw [same]
  · omega

/-- A step that leaves the runtime alone and takes nothing back from the store. -/
theorem Still.of_runtime (runtime : s'.runtime = s.runtime) (clock : s'.clock = s.clock) (allocated : s'.allocated = s.allocated)
    (versions : s.store.snapshot.version ≤ s'.store.snapshot.version) : s.Still s' :=
  ⟨by rw [runtime], by rw [runtime], by rw [runtime], by rw [runtime], clock, allocated, by rw [runtime], Or.inl (by rw [runtime]),
    versions⟩

/-- The installation of a snapshot of the store. -/
theorem still_install (s : Site) {snapshot : Snapshot} (present : snapshot.version ≤ s.store.snapshot.version) :
    s.Still { s with runtime := installContextSnapshot snapshot.context snapshot.version s.runtime } := by
  rw [installContextSnapshot]
  split
  · exact .refl s
  · rename_i newer
    exact ⟨rfl, rfl, rfl, rfl, rfl, rfl, Nat.le_of_not_lt newer, Or.inr present, Nat.le_refl _⟩

theorem heap_install (snapshot : Members) (version : Nat) (rt : Runtime) :
    (installContextSnapshot snapshot version rt).heap = rt.heap := by
  rw [installContextSnapshot]
  split <;> rfl

end Site

section

variable [PyText] {cfg : SiteConfig} {α : Type} {s : Site}

theorem serves_readSnapshot (s : Site) : Serves (readSnapshot : Handler cfg (Snapshot × Bool)) s
    (fun read s' => read = (s.store.snapshot, true) ∧ s.Still s' ∧ s'.runtime.heap = s.runtime.heap ∧ s'.store = s.store)
    fun _ _ => False := by
  refine serves_attempted_bind.mpr (serves_step_bind.mpr (serves_pure.mpr ?_))
  have viewed : s.Still { s with view := s.store.snapshot } := .of_runtime rfl rfl rfl (Nat.le_refl _)
  exact ⟨rfl, viewed.trans (Site.still_install _ (Nat.le_refl _)), Site.heap_install _ _ _, rfl⟩

theorem serves_updateContextStore (patch : Members) (s : Site) : Serves (updateContextStore patch : Handler cfg Unit) s
    (fun _ s' => s.Still s' ∧ s'.runtime.heap = s.runtime.heap ∧ s'.store =
      match s.store.update cfg.predicateRetentionS (s.clock / 1000) patch with
      | .ok m => m
      | .error _ => s.store)
    fun _ _ => False := by
  have updated : s.Still (Site.exec cfg (.update patch) s).2 ∧ (Site.exec cfg (.update patch) s).2.runtime.heap = s.runtime.heap ∧
      (Site.exec cfg (.update patch) s).2.store = match s.store.update cfg.predicateRetentionS (s.clock / 1000) patch with
        | .ok m => m
        | .error _ => s.store := by
    simp only [Site.exec]
    cases done : s.store.update cfg.predicateRetentionS (s.clock / 1000) patch with
    | ok m => exact ⟨.of_runtime rfl rfl rfl (Nat.le_of_lt (Nat.lt_of_lt_of_eq (Nat.lt_succ_self _) (MemoryStore.update_version done).symm)), rfl, rfl⟩
    | error e => exact ⟨.refl s, rfl, rfl⟩
  obtain ⟨still, heap, store⟩ := updated
  refine serves_attempted_bind.mpr ?_
  split
  · refine serves_bind.mpr ((serves_readSnapshot _).imp ?_ fun _ _ h => h)
    rintro read s' ⟨_, still', heap', store'⟩
    exact serves_pure.mpr ⟨still.trans still', heap'.trans heap, store'.trans store⟩
  · exact serves_pure.mpr ⟨still, heap, store⟩

theorem serves_withStopLock {ticket : Nat} {body : Handler cfg α} {ok : α → Site → Prop} {failed : HttpError → Site → Prop}
    (served : Serves body { s with stopLock := some ticket } (fun a s' => ok a { s' with stopLock := none })
      fun e s' => failed e { s' with stopLock := none }) : Serves (withStopLock ticket body) s ok failed := by
  refine serves_step_bind.mpr (serves_bind.mpr (serves_tryCatch.mpr (served.imp (fun a s' h => ?_) fun e s' h => ?_)))
  · exact serves_step_bind.mpr h
  · exact serves_step_bind.mpr h

/-! ### Fence and registration -/

/-- The bucket has an epoch, unless the context has something else than epochs. -/
theorem serves_initStopEpoch (key : Str) (s : Site) : Serves (initStopEpoch key : Handler cfg Bool) s
    (fun trusted s' => trusted = true ∧ s.Still s' ∧ s'.runtime.heap = s.runtime.heap ∧ cfg.initialized s.clock key s.store = .ok s'.store)
    fun _ _ => ∃ e, cfg.initialized s.clock key s.store = .error e := by
  refine serves_bind.mpr ((serves_readSnapshot s).imp ?_ fun _ _ h => h.elim)
  rintro read s₁ ⟨rfl, still, heap, store⟩
  simp only [if_true]
  rw [SiteConfig.initialized]
  cases epoch : stopEpoch s.store.snapshot.context key with
  | error e => exact serves_throw.mpr ⟨e, rfl⟩
  | ok found =>
    cases found with
    | some v => exact serves_pure.mpr ⟨rfl, still, heap, by rw [store]; rfl⟩
    | none =>
      refine serves_bind.mpr ((serves_updateContextStore _ s₁).imp ?_ fun _ _ h => h.elim)
      rintro _ s₂ ⟨still', heap', store'⟩
      refine serves_pure.mpr ⟨rfl, still.trans still', heap'.trans heap, ?_⟩
      rw [store', store, still.clock]
      rfl

/-- `_fence_intent` of an intent that is no stop. -/
theorem serves_fenceIntent (ticket : Nat) (ref : Ref) {s : Site} (notStop : s.runtime.policy.actionClass (s.runtime.heap ref) ≠ .stop) :
    Serves (fenceIntent ticket ref : Handler cfg Unit) s
      (fun _ s' => ∃ i, cfg.fenced s.clock s.store (s.runtime.heap ref) = .ok (s'.store, i) ∧ s.Still s' ∧
        s'.runtime.heap = Function.update s.runtime.heap ref i)
      fun _ _ => ∃ e, cfg.fenced s.clock s.store (s.runtime.heap ref) = .error e := by
  refine serves_step_bind.mpr ?_
  rw [SiteConfig.fenced]
  have other : ActionClass.riskReducing (Site.exec cfg (.actionClass ref) s).1 = false := by
    show decide (s.runtime.policy.actionClass (s.runtime.heap ref) = .stop) = false
    exact decide_eq_false notStop
  simp only [other, Bool.false_eq_true, or_false]
  by_cases off : cfg.stopFence = false
  · rw [if_pos off, off]
    exact serves_pure.mpr ⟨_, rfl, .refl s, (Function.update_eq_self ref s.runtime.heap).symm⟩
  · have on : cfg.stopFence = true := by simpa using off
    rw [if_neg off, if_pos on]
    refine serves_step_bind.mpr (serves_bind.mpr (serves_withStopLock ?_))
    refine (serves_initStopEpoch _ _).imp ?_ ?_
    · rintro trusted s₁ ⟨rfl, still, heap, store⟩
      refine serves_step_bind.mpr (serves_step.mpr ?_)
      have heap : s₁.runtime.heap = s.runtime.heap := heap
      refine ⟨{ s.runtime.heap ref with
        preconditions := (s.runtime.heap ref).preconditions ++ [cfg.fencePredicate (s.runtime.heap ref)] }, ?_, ?_, ?_⟩
      · refine (congrArg (Except.map _) store).trans ?_
        rfl
      · exact ⟨still.records, still.seen, still.locks, still.policy, still.clock, still.allocated, still.newer, still.behind, still.versions⟩
      · show Function.update s₁.runtime.heap ref { s₁.runtime.heap ref with
          preconditions := (s₁.runtime.heap ref).preconditions ++ [cfg.fencePredicate (s₁.runtime.heap ref)] } = _
        rw [heap]
    · rintro e s₁ ⟨fault, raised⟩
      exact ⟨fault, congrArg (Except.map _) raised⟩

variable (cfg) in
/-- `register_and_snapshot`; without a server it raises what the registration raises. -/
theorem serves_registeredSnapshot (exprs : List Str) (s : Site) :
    Serves (registeredSnapshot exprs : Handler cfg SnapshotDoc) s
      (fun doc s' => s.Still s' ∧ s'.runtime = s.runtime ∧
        match s.store.register cfg.predicateRetentionS (s.clock / 1000) exprs with
        | (m, none) => doc = cfg.read exprs m ∧ s'.store = m
        | (_, some _) => cfg.redisRequired = true ∧ doc.trusted = false)
      fun _ _ => (s.store.register cfg.predicateRetentionS (s.clock / 1000) exprs).2.isSome = true ∧ cfg.redisRequired = false := by
  have kept := MemoryStore.register_snapshot cfg.predicateRetentionS (s.clock / 1000) exprs s.store
  refine serves_attempted_bind.mpr ?_
  rcases registered : s.store.register cfg.predicateRetentionS (s.clock / 1000) exprs with ⟨m, fault⟩
  rw [registered] at kept
  cases fault with
  | none =>
    have run : Site.exec cfg (.registerAndSnapshot exprs) s = (cfg.read exprs m, s.withStore m) := by
      simp only [Site.exec, registered]
      rfl
    have trusted : (cfg.read exprs m).trusted = true := by
      rw [SiteConfig.read]
      split <;> rfl
    rw [run]
    simp only [trusted, Bool.true_eq_false, and_false, if_false]
    exact serves_pure.mpr ⟨.of_runtime rfl rfl rfl (Nat.le_of_eq (congrArg Snapshot.version kept.symm)), rfl, rfl, rfl⟩
  | some e =>
    have run : Site.exec cfg (.registerAndSnapshot exprs) s =
        (untrustedDoc s.view.version, s.withStore (if cfg.redisRequired then s.store else m)) := by
      simp only [Site.exec, registered]
      rfl
    rw [run]
    cases required : cfg.redisRequired with
    | true =>
      simp only [Bool.true_eq_false, false_and, if_false, if_true]
      exact serves_pure.mpr ⟨.of_runtime rfl rfl rfl (Nat.le_refl _), rfl, trivial, rfl⟩
    | false =>
      simp only [untrustedDoc, and_self, if_true]
      exact serves_throw.mpr ⟨rfl, trivial⟩

/-! ### Validation -/

/-- A pass at the present time. -/
def ProcessCall.atSite (call : ProcessCall) (s : Site) : ProcessCall := { call with now := s.clock, requeue := false }

variable {ticket : Nat} {ref : Ref} {id : Str} {record : IntentRecord}

theorem serves_processNow {call : ProcessCall} {ok : IntentRecord → Runtime → Prop} {raised : RuntimeError → Runtime → Prop}
    (h : Ends (processIntent cfg.config (call.atSite s) ref) s.runtime ok raised) :
    Serves (processNow ticket ref call : Handler cfg IntentRecord) s
      (fun a s' => ok a s'.runtime ∧ s'.clock = s.clock ∧ s'.allocated = s.allocated)
      fun http s' => ∃ e, http = e.http ∧ raised e s'.runtime := by
  refine serves_step_bind.mpr (serves_answered.mpr ?_)
  simp only [Site.exec, Site.process, Site.runs]
  cases run : processIntent cfg.config (call.atSite s) ref s.runtime with
  | ok a rt =>
    rw [ProcessCall.atSite] at run
    rw [run]
    exact ⟨h.of_run_ok run, rfl, rfl⟩
  | error e rt =>
    rw [ProcessCall.atSite] at run
    rw [run]
    exact ⟨e, rfl, h.of_run_error run⟩

/-- A stored record is read as it is. -/
theorem serves_current_bind (stored : s.runtime.records.get id = some record) {f : IntentRecord → Handler cfg α} {ok : α → Site → Prop}
    {failed : HttpError → Site → Prop} : Serves (step (.current id record) >>= f) s ok failed ↔ Serves (f record) s ok failed := by
  have read : Serves (step (.current id record) >>= f) s ok failed ↔ Serves (f (s.current id record)) s ok failed := serves_step_bind
  rw [read, Site.current_of_stored stored]

/-- What `_validate_now` makes of an open record: a degraded intent goes through a second pass. -/
structure Site.Validated (ref : Ref) (id : Str) (s : Site) (a : IntentRecord) (s' : Site) : Prop where
  alone : Local id s.runtime s'.runtime
  allocated : s'.allocated = s.allocated
  stored : s'.runtime.records.get id = some a
  intent : a.intent = ref
  state : a.state ∈ [.authorized, .revoked, .expired, .delayed]

/-- `_validate_now` raises exactly if its first pass does. -/
theorem serves_validateNow (names : (s.runtime.heap ref).id = id) (found : s.runtime.records.get id = some record)
    (opened : record.state.validatable = true) (intent : record.intent = ref) {call : (Nat → Bool) → ProcessCall}
    (same : ∀ timedOut timedOut', (call timedOut).context = (call timedOut').context) (timedOut : Nat → Nat → Bool) :
    Serves (validateNow ticket ref id call timedOut : Handler cfg IntentRecord) s
      (fun a s' => s.Validated ref id a s' ∧ s.runtime.passes cfg.config ((call (timedOut 0)).atSite s) ref = true)
      fun _ _ => s.runtime.passes cfg.config ((call (timedOut 0)).atSite s) ref = false := by
  subst names
  have passes := ends_processIntent_passes cfg.config ((call (timedOut 0)).atSite s) found opened
  refine serves_bind.mpr ((serves_processNow (passes.and (attempt_processIntent cfg.config _ s.runtime ref))).imp ?_ ?_)
  · rintro a s₁ ⟨⟨⟨⟨alone, stored, state⟩, passed⟩, attempt, _⟩, clock, allocated⟩
    have own : a.intent = ref := by
      rcases attempt.intent a stored with its | ⟨r, was, its⟩
      · exact its
      · rw [its, Option.some.inj (was.symm.trans found), intent]
    refine (serves_current_bind stored).mpr ?_
    rcases state with rest | ⟨degraded, revised⟩
    · have other : a.state ≠ .degraded := by
        intro degraded
        rw [degraded] at rest
        revert rest
        decide
      rw [if_neg other]
      exact serves_pure.mpr ⟨⟨alone, allocated, stored, own, rest⟩, passed⟩
    · rw [if_pos degraded]
      have names := alone.ids ref
      have stored' : s₁.runtime.records.get (s₁.runtime.heap ref).id = some a := names ▸ stored
      have sameAgain : ((call (timedOut 1)).atSite s₁).context = ((call (timedOut 0)).atSite s).context := same _ _
      have settles := ends_processIntent_degraded cfg.config alone revised sameAgain stored' (by rw [degraded]; rfl)
      have again : Serves (processNow ticket ref (call (timedOut 1)) : Handler cfg IntentRecord) s₁ _ _ :=
        serves_processNow (settles.and (attempt_processIntent cfg.config _ s₁.runtime ref))
      rw [own]
      refine again.imp ?_ ?_
      · rintro b s₂ ⟨⟨⟨⟨alone', stored'', _⟩, rest⟩, attempt', _⟩, _, allocated'⟩
        rw [names] at alone' stored''
        refine ⟨⟨alone.trans alone', allocated'.trans allocated, stored'', ?_, rest⟩, passed⟩
        rcases attempt'.intent b (names.symm ▸ stored'') with its | ⟨r, was, its⟩
        · exact its
        · rw [its, Option.some.inj (was.symm.trans stored'), own]
      · rintro _ _ ⟨_, _, raised, _⟩
        exact raised.elim
  · rintro _ _ ⟨_, _, raised, _⟩
    exact raised

/-- The withdrawal of an intent that has no verdict yet. -/
theorem serves_withdraw (found : s.runtime.records.get id = some record) (open_ : record.state.validatable = true) (reason : String) :
    Serves (withdraw id reason : Handler cfg IntentRecord) s
      (fun _ s' => ∃ a, s'.runtime.records.get id = some a ∧ a.state = .revoked) fun _ _ => False := by
  have allowed : IntentState.revoked ∈ record.state.allowed := by
    revert open_
    cases record.state <;> decide
  have ends : Ends (transition id .revoked (some .revoke) reason.toList) s.runtime
      (fun a rt => rt.records.get id = some a ∧ a.state = .revoked) fun _ _ => False :=
    (ends_transition found allowed).mpr ⟨Dict.get_insert_self _ _ _, rfl⟩
  refine serves_step_bind.mpr (serves_answered.mpr ?_)
  simp only [Site.exec, Site.runs]
  cases run : transition id .revoked (some .revoke) reason.toList s.runtime with
  | ok a rt => exact ⟨a, ends.of_run_ok run⟩
  | error e rt => exact (ends.of_run_error run).elim

theorem serves_answer (stored : s.runtime.records.get id = some record) (duplicate : Bool) (context : Option Members) :
    Serves (answer id record duplicate context : Handler cfg SubmitAnswer) s (fun _ s' => s' = s) fun _ _ => False := by
  refine (serves_current_bind stored).mpr ?_
  split
  · exact serves_step_bind.mpr (serves_pure.mpr rfl)
  · exact serves_pure.mpr rfl

/-- `_record_stop` leaves the records alone, whatever becomes of the epoch. -/
theorem serves_recordStop (stored : s.runtime.records.get id = some record) :
    Serves (recordStop ticket ref id record : Handler cfg Unit) s
      (fun _ s' => s.Still s' ∧ s'.runtime.heap = s.runtime.heap) fun _ _ => False := by
  refine (serves_current_bind stored).mpr ?_
  split
  · exact serves_pure.mpr ⟨.refl s, rfl⟩
  · refine serves_step_bind.mpr (serves_bind.mpr (serves_withStopLock (serves_step_bind.mpr
      ((serves_updateContextStore _ _).imp ?_ fun _ _ h => h))))
    rintro _ s₁ ⟨still, heap, _⟩
    refine serves_attempted_bind.mpr (serves_pure.mpr ⟨?_, heap⟩)
    exact ⟨still.records, still.seen, still.locks, still.policy, still.clock, still.allocated, still.newer, still.behind, still.versions⟩

/-! ### `POST /v1/intents` -/

/-- The fence changes what the intent requires only. -/
theorem SiteConfig.fenced_ok {clock : ℚ} {m m' : MemoryStore} {i j : ActionIntent} (fenced : cfg.fenced clock m i = .ok (m', j)) :
    j.id = i.id ∧ j.payload = i.payload := by
  rw [SiteConfig.fenced] at fenced
  split at fenced
  · cases store : cfg.initialized clock (cfg.stopKey i.target) m with
    | error e =>
      rw [store] at fenced
      cases fenced
    | ok m'' =>
      rw [store] at fenced
      cases fenced
      exact ⟨rfl, rfl⟩
  · cases fenced
    exact ⟨rfl, rfl⟩

/-- A decision depends on the locks, not on the rest of the runtime. -/
theorem Runtime.concludes_congr {call call' : ProcessCall} {rt rt' : Runtime} (locks : rt'.activeTargets = rt.activeTargets)
    (snapshot : call'.snapshot rt' = call.snapshot rt) (now : call'.now = call.now) (timedOut : call'.timedOut = call.timedOut)
    (config : Config) (i : ActionIntent) : rt'.concludes config call' i = rt.concludes config call i := by
  rw [Runtime.concludes, Runtime.concludes, decision, decision, Runtime.busy, Runtime.busy, locks, snapshot, now, timedOut]

omit [PyText] in
theorem Site.Validated.rests {s s' : Site} {a : IntentRecord} (h : s.Validated ref id a s') (names : s.Names ref id)
    (seen : s.runtime.seen.contains id = true) : s'.Rests id := by
  refine ⟨a, h.stored, ?_⟩
  have its : s'.Names a.intent id := by
    rw [h.intent]
    exact ⟨by rw [h.allocated]; exact names.1, (h.alone.ids ref).trans names.2⟩
  by_cases delayed : a.state = .delayed
  · exact Or.inr ⟨delayed, its, by rw [h.alone.seen]; exact seen⟩
  · exact Or.inl (by simpa [delayed] using h.state)

variable (cfg ticket) in
/-- The validation of a fenced intent on a snapshot of the store, where `s₀` is the site before the fence. -/
theorem serves_validated {s₀ : Site} {doc : SnapshotDoc} {j : ActionIntent} (still : s₀.Still s) (heap : s.runtime.heap ref = j)
    (applied : (s₀.runtime.policy.applyTo j).1 = j) (own : j.id = id) (used : ref < s.allocated)
    (found : s.runtime.records.get id = some record) (opened : record.state.validatable = true) (intent : record.intent = ref)
    (seen : s.runtime.seen.contains id = true) (notStop : s₀.runtime.policy.actionClass j ≠ .stop)
    (present : doc.snapshot.version = s.store.snapshot.version) (timedOut : Nat → Nat → Bool) :
    Serves (do
        let record ← validateNow ticket ref id (snapshotCall doc) timedOut
        answer id record false (some doc.snapshot.context) : Handler cfg SubmitAnswer) s
      (fun _ s' => s'.Rests id ∧ (decide (doc.snapshot.version < s₀.runtime.contextVersion) ||
        s₀.runtime.concludes cfg.config { snapshotCall doc (timedOut 0) with now := s₀.clock } j) = true)
      fun _ _ => (decide (doc.snapshot.version < s₀.runtime.contextVersion) ||
        s₀.runtime.concludes cfg.config { snapshotCall doc (timedOut 0) with now := s₀.clock } j) = false := by
  have passes : s.runtime.passes cfg.config ((snapshotCall doc (timedOut 0)).atSite s) ref =
      (decide (doc.snapshot.version < s₀.runtime.contextVersion) ||
        s₀.runtime.concludes cfg.config { snapshotCall doc (timedOut 0) with now := s₀.clock } j) := by
    have other : (s.runtime.policy.actionClass (s.runtime.heap ref)).riskReducing = false := by
      rw [heap, still.policy]
      exact decide_eq_false notStop
    have stale : (((snapshotCall doc (timedOut 0)).atSite s).contextVersion.any fun v => decide (v < s.runtime.contextVersion)) =
        decide (doc.snapshot.version < s₀.runtime.contextVersion) :=
      decide_eq_decide.mpr (still.stale_iff present)
    have prepared : s.runtime.prepared ref = j := by rw [Runtime.prepared, heap, still.policy, applied]
    rw [Runtime.passes, other, stale, Bool.false_or, prepared, ProcessCall.atSite, still.clock]
    exact congrArg _ (Runtime.concludes_congr still.locks rfl rfl rfl _ _)
  have names : s.Names ref id := ⟨used, by rw [heap, own]⟩
  rw [← passes]
  refine serves_bind.mpr ((serves_validateNow names.2 found opened intent (fun _ _ => rfl) timedOut).imp ?_ fun _ _ h => h)
  rintro a s' ⟨validated, passed⟩
  refine (serves_answer validated.stored _ _).imp ?_ fun _ _ h => h.elim
  rintro _ _ rfl
  exact ⟨validated.rests names seen, passed⟩

/-- An open intent that is no stop, after its duplicate check. -/
theorem serves_validateFresh (names : s.Names ref id) (found : s.runtime.records.get id = some record)
    (opened : record.state.validatable = true) (intent : record.intent = ref) (seen : s.runtime.seen.contains id = true)
    (notStop : s.runtime.policy.actionClass (s.runtime.heap ref) ≠ .stop) (timedOut : Nat → Nat → Bool) :
    Serves (validateFresh ticket ref id timedOut : Handler cfg SubmitAnswer) s
      (fun _ s' => s'.Rests id ∧ s.validates cfg (timedOut 0) (s.runtime.heap ref) = true)
      fun _ _ => s.validates cfg (timedOut 0) (s.runtime.heap ref) = false := by
  refine serves_bind.mpr ((serves_fenceIntent ticket ref notStop).imp ?_ ?_)
  · rintro _ s₁ ⟨i, fenced, still₁, heap₁⟩
    obtain ⟨itsId, itsPayload⟩ := SiteConfig.fenced_ok fenced
    have here : s₁.runtime.heap ref = i := by rw [heap₁, Function.update_self]
    -- the policy is applied, and what it leaves is registered
    generalize applied : (s.runtime.policy.applyTo i).1 = j
    have jId : j.id = id := by rw [← applied, Policy.applyTo_id, itsId, names.2]
    have jPayload : j.payload = (s.runtime.heap ref).payload := by rw [← applied, Policy.applyTo_payload, itsPayload]
    have prepared : (s₁.runtime.policy.applyTo (s₁.runtime.heap ref)).1 = j := by rw [still₁.policy, here, applied]
    have run : Site.exec cfg (.prepare ref) s₁ = (registered j.predicates, { s₁ with runtime := s₁.runtime.putIntent ref j }) := by
      rw [← prepared]
      rfl
    refine serves_step_bind.mpr ?_
    rw [run]
    have still₂ : s₁.Still { s₁ with runtime := s₁.runtime.putIntent ref j } :=
      ⟨rfl, rfl, rfl, rfl, rfl, rfl, Nat.le_refl _, Or.inl rfl, Nat.le_refl _⟩
    have heap₂ : (s₁.runtime.putIntent ref j).heap ref = j := Function.update_self _ _ _
    have validates : s.validates cfg (timedOut 0) (s.runtime.heap ref) = cfg.validates (timedOut 0) s.clock s₁.store s.runtime j := by
      rw [Site.validates, fenced, ← applied]
    rw [validates, SiteConfig.validates]
    rcases outcome : s₁.store.register cfg.predicateRetentionS (s.clock / 1000) (registered j.predicates) with ⟨m, fault⟩
    have registers := serves_registeredSnapshot cfg (registered j.predicates) { s₁ with runtime := s₁.runtime.putIntent ref j }
    rw [← still₁.clock] at outcome
    simp only [outcome] at registers
    cases fault with
    | some e =>
      refine serves_bind.mpr (registers.imp ?_ fun _ _ raised => raised.2)
      rintro doc s₃ ⟨still₃, _, required, untrusted⟩
      have found₃ : s₃.runtime.records.get id = some record := by rw [((still₁.trans still₂).trans still₃).records]; exact found
      rw [untrusted, if_neg Bool.false_ne_true]
      refine serves_bind.mpr ((serves_withdraw found₃ opened _).imp ?_ fun _ _ h => h.elim)
      rintro _ s₄ ⟨a, stored, revoked⟩
      exact serves_pure.mpr ⟨⟨a, stored, Or.inl (by rw [revoked]; decide)⟩, required⟩
    | none =>
      refine serves_bind.mpr (registers.imp ?_ fun _ _ raised => nomatch raised.1)
      rintro doc s₃ ⟨still₃, runtime₃, rfl, store₃⟩
      have kept := MemoryStore.register_snapshot cfg.predicateRetentionS (s₁.clock / 1000) (registered j.predicates) s₁.store
      rw [outcome] at kept
      have read : (cfg.read (registered j.predicates) m).trusted = true ∧
          (cfg.read (registered j.predicates) m).snapshot.version = m.snapshot.version := by
        rw [SiteConfig.read]
        split
        · exact ⟨rfl, rfl⟩
        · exact ⟨rfl, rfl⟩
      rw [read.1, if_pos rfl]
      have still := (still₁.trans still₂).trans still₃
      have itself : (s.runtime.policy.applyTo j).1 = j := by rw [← applied]; exact Policy.applyTo_idem _ _
      have notStop' : s.runtime.policy.actionClass j ≠ .stop := by
        rw [Policy.actionClass, actionKey, jPayload]
        exact notStop
      have heap₃ : s₃.runtime.heap ref = j := by
        rw [runtime₃]
        exact heap₂
      have validated : ∀ s₄ : Site, s.Still s₄ → s₄.runtime.heap = s₃.runtime.heap → s₄.store = s₃.store → _ :=
        fun s₄ still heap store => serves_validated cfg ticket still (by rw [heap]; exact heap₃) itself jId
          (by rw [still.allocated]; exact names.1) (by rw [still.records]; exact found) opened intent (by rw [still.seen]; exact seen)
          notStop' (by rw [store, store₃]; exact read.2) timedOut
      split
      · refine serves_step_bind.mpr (validated _ (still.trans ?_) (Site.heap_install _ _ _) rfl)
        exact Site.still_install s₃ (by rw [store₃]; exact Nat.le_of_eq read.2)
      · exact validated s₃ still rfl rfl
  · rintro _ _ ⟨e, raised⟩
    rw [Site.validates, raised]

/-- What a validation raises depends on the policy, the locks and the installed version. -/
theorem Site.validates_congr {s s' : Site} (policy : s'.runtime.policy = s.runtime.policy)
    (locks : s'.runtime.activeTargets = s.runtime.activeTargets) (version : s'.runtime.contextVersion = s.runtime.contextVersion)
    (store : s'.store = s.store) (clock : s'.clock = s.clock) (timedOut : Nat → Bool) (i : ActionIntent) :
    s'.validates cfg timedOut i = s.validates cfg timedOut i := by
  rw [Site.validates, Site.validates, store, clock]
  split
  · rfl
  · rw [policy, SiteConfig.validates, SiteConfig.validates, version]
    split
    · rfl
    · simp only
      rw [Runtime.concludes_congr locks rfl rfl rfl]

omit [PyText] in
/-- A claim succeeds unless it has been made, and leaves everything else alone. -/
theorem Site.claimIntent_cases (cfg : SiteConfig) (id : Str) (s : Site) : ∃ claims,
    s.claimIntent cfg id = (!decide (s.Claimed cfg id), { s with claims := claims }) := by
  rw [Site.claimIntent]
  cases required : cfg.redisRequired with
  | false => exact ⟨s.claims, by simp [Site.Claimed, required]⟩
  | true =>
    simp only [if_true]
    cases found : s.claims.get id with
    | none => exact ⟨_, by simp [Site.Claimed, found]; rfl⟩
    | some expiry =>
      simp only
      split
      · rename_i young
        exact ⟨s.claims, by simp [Site.Claimed, required, found, young]⟩
      · rename_i old
        exact ⟨_, by simp [Site.Claimed, found, old]; rfl⟩

omit [PyText] in
theorem Site.Rests.still {s s' : Site} (h : s.Rests id) (still : s.Still s') (heap : s'.runtime.heap = s.runtime.heap) : s'.Rests id := by
  obtain ⟨a, stored, state⟩ := h
  refine ⟨a, by rw [still.records]; exact stored, state.imp_right ?_⟩
  rintro ⟨delayed, names, seen⟩
  exact ⟨delayed, ⟨by rw [still.allocated]; exact names.1, by rw [heap]; exact names.2⟩, by rw [still.seen]; exact seen⟩

variable (cfg ticket) in
/-- A submission that has admitted its intent, or found it delayed. -/
theorem serves_submitAdmitted (names : s.Names ref id) (found : s.runtime.records.get id = some record)
    (opened : record.state.validatable = true) (intent : record.intent = ref) (seen : s.runtime.seen.contains id = true)
    (firstAdmission : Bool) (timedOut : Nat → Nat → Bool) :
    Serves (submitAdmitted ticket ref id firstAdmission timedOut : Handler cfg SubmitAnswer) s
      (fun _ s' => s'.Rests id ∧ ((s.runtime.policy.actionClass (s.runtime.heap ref)).riskReducing ||
        firstAdmission && decide (s.Claimed cfg id) || s.validates cfg (timedOut 0) (s.runtime.heap ref)) = true)
      fun _ _ => ((s.runtime.policy.actionClass (s.runtime.heap ref)).riskReducing ||
        firstAdmission && decide (s.Claimed cfg id) || s.validates cfg (timedOut 0) (s.runtime.heap ref)) = false := by
  refine serves_step_bind.mpr ?_
  show Serves (if (s.runtime.policy.actionClass (s.runtime.heap ref)).riskReducing then _ else _) s _ _
  by_cases stop : (s.runtime.policy.actionClass (s.runtime.heap ref)).riskReducing = true
  · simp only [stop, if_true, Bool.true_or]
    have passed : s.runtime.passes cfg.config ((installedCall (timedOut 0)).atSite s) ref = true := by
      rw [Runtime.passes, stop, Bool.true_or, Bool.true_or]
    refine serves_bind.mpr ((serves_validateNow names.2 found opened intent (fun _ _ => rfl) timedOut).imp ?_ fun _ _ raised => ?_)
    · rintro a s₁ ⟨validated, _⟩
      refine serves_bind.mpr ((serves_recordStop validated.stored).imp ?_ fun _ _ h => h.elim)
      rintro _ s₂ ⟨still, heap⟩
      refine (serves_answer (by rw [still.records]; exact validated.stored) _ _).imp ?_ fun _ _ h => h.elim
      rintro _ _ rfl
      exact ⟨(validated.rests names seen).still still heap, trivial⟩
    · rw [passed] at raised
      cases raised
  · have notStop : s.runtime.policy.actionClass (s.runtime.heap ref) ≠ .stop := fun same => stop (by rw [same]; rfl)
    rw [Bool.not_eq_true] at stop
    simp only [stop, Bool.false_eq_true, if_false, Bool.false_or]
    cases firstAdmission with
    | false =>
      simp only [Bool.false_eq_true, if_false, Bool.false_and, Bool.false_or]
      exact serves_validateFresh names found opened intent seen notStop timedOut
    | true =>
      simp only [if_true, Bool.true_and]
      obtain ⟨claims, run⟩ := Site.claimIntent_cases cfg id s
      refine serves_attempted_bind.mpr ?_
      show Serves (if some (s.claimIntent cfg id).1 = some true then _ else _) (s.claimIntent cfg id).2 _ _
      rw [run]
      by_cases claimed : s.Claimed cfg id
      · simp only [claimed, decide_true, Bool.not_true, Option.some.injEq, Bool.false_eq_true, if_false, Bool.true_or]
        refine serves_bind.mpr ((serves_withdraw (s := { s with claims := claims }) found opened _).imp ?_ fun _ _ h => h.elim)
        rintro _ s₁ ⟨a, stored, revoked⟩
        exact serves_pure.mpr ⟨⟨a, stored, Or.inl (by rw [revoked]; decide)⟩, trivial⟩
      · simp only [claimed, decide_false, Bool.not_false, if_true, Bool.false_or]
        exact serves_validateFresh (s := { s with claims := claims }) names found opened intent seen notStop timedOut

/-! ### Admission -/

omit [PyText] in
/-- Expiry does not look at the intents, and leaves the installed context alone. -/
theorem expireItems_frame (horizon : ℚ) (items : List (Str × ℚ)) (rt : Runtime) (heap : Ref → ActionIntent) :
    expireItems horizon items { rt with heap := heap } = { expireItems horizon items rt with heap := heap } ∧
      (expireItems horizon items rt).contextVersion = rt.contextVersion := by
  induction items generalizing rt with
  | nil => exact ⟨rfl, rfl⟩
  | cons item rest ih =>
    obtain ⟨id, admittedAt⟩ := item
    simp only [expireItems]
    split
    · exact ⟨rfl, rfl⟩
    · split
      · exact ih (({ rt with seen := rt.seen.erase id } : Runtime).forget id)
      · exact ih { rt with seen := rt.seen.erase id }

/-- What a submission finds, and what it has after its admission. -/
structure Site.Admitting (cfg : SiteConfig) (ref : Ref) (id : Str) (s : Site) (a : IntentRecord × Bool) (rt : Runtime) : Prop where
  heap : rt.heap = s.runtime.heap
  locks : rt.activeTargets = s.runtime.activeTargets
  policy : rt.policy = s.runtime.policy
  version : rt.contextVersion = s.runtime.contextVersion
  seen : rt.seen.contains id = true
  stored : rt.records.get id = some a.1
  answer : a.2 = true ∧ s.known cfg id = some a.1 ∧ s.runtime.records.get id = some a.1 ∨
    a = (.fresh ref, false) ∧ s.known cfg id = none

omit [PyText] in
theorem exists_admitting (cfg : SiteConfig) {ref : Ref} {id : Str} (s : Site) (own : (s.runtime.heap ref).id = id) :
    ∃ a rt, admitIntent cfg.config ref s.mono false s.runtime = .ok a rt ∧ s.Admitting cfg ref id a rt := by
  subst own
  have expired : Expired s.runtime (expireSeen cfg.config s.mono s.runtime) := expired_expireItems _ _ _
  have version : (expireSeen cfg.config s.mono s.runtime).contextVersion = s.runtime.contextVersion :=
    (expireItems_frame _ _ _ s.runtime.heap).2
  have ends : Ends (admitIntent cfg.config ref s.mono false) s.runtime
      (fun a rt => s.Admitting cfg ref (s.runtime.heap ref).id a rt) fun _ _ => False := by
    rw [admitIntent, ends_bind, ends_modify, ends_bind, ends_get]
    have itself : ((expireSeen cfg.config s.mono s.runtime).heap ref).id = (s.runtime.heap ref).id := by rw [expired.heap]
    simp only [itself]
    cases found : s.known cfg (s.runtime.heap ref).id with
    | some record =>
      have stored := found
      rw [Site.known] at stored
      simp only [stored]
      split at stored
      · rename_i seen
        exact ends_pure.mpr ⟨expired.heap, expired.locks, expired.policy, version, seen, stored,
          Or.inl ⟨rfl, found, expired.records _ _ stored⟩⟩
      · cases stored
    | none =>
      have unknown := found
      rw [Site.known] at unknown
      simp only [unknown]
      rw [ends_bind, ends_set, ends_pure]
      refine ⟨expired.heap, expired.locks, expired.policy, version, ?_, ?_, Or.inr ⟨rfl, found⟩⟩
      · show Dict.contains _ _ = true
        simp only [Runtime.register, Runtime.log, Runtime.putRecord, Runtime.count, Bool.false_eq_true, if_false]
        rw [Dict.contains, Dict.get_insert_self]
        rfl
      · simp only [Runtime.register, Runtime.log, Runtime.putRecord, Runtime.count, Bool.false_eq_true, if_false]
        rw [itself]
        exact Dict.get_insert_self _ _ _
  cases run : admitIntent cfg.config ref s.mono false s.runtime with
  | ok a rt => exact ⟨a, rt, rfl, ends.of_run_ok run⟩
  | error e rt => exact (ends.of_run_error run).elim

/-- The site with the body's intent. -/
def Site.withIntent (s : Site) (i : ActionIntent) : Site :=
  { s with runtime := s.runtime.putIntent s.allocated { i with policyAdded := none }, allocated := s.allocated + 1 }

omit [PyText] in
theorem Site.known_withIntent (cfg : SiteConfig) (id : Str) (s : Site) (i : ActionIntent) : (s.withIntent i).known cfg id = s.known cfg id := by
  have same : expireSeen cfg.config s.mono (s.withIntent i).runtime = { expireSeen cfg.config s.mono s.runtime with
      heap := Function.update s.runtime.heap s.allocated { i with policyAdded := none } } := (expireItems_frame _ _ _ _).1
  show (if (expireSeen cfg.config s.mono (s.withIntent i).runtime).seen.contains id then
    (expireSeen cfg.config s.mono (s.withIntent i).runtime).records.get id else none) = _
  rw [same]
  rfl

variable (cfg ticket) in
/-- A submission that is served by itself. -/
theorem serves_submitIntent (named : s.Named) (i : ActionIntent) (timedOut : Nat → Nat → Bool) :
    Serves (submitIntent ticket (some i) timedOut : Handler cfg SubmitAnswer) s
      (fun _ s' => (s.Takes cfg i.id → s'.Rests i.id) ∧ s.settles cfg (timedOut 0) i = true)
      fun _ _ => s.settles cfg (timedOut 0) i = false := by
  have itself : (s.withIntent i).runtime.heap s.allocated = { i with policyAdded := none } :=
    (Runtime.heap_putIntent _ _ _ _).trans (if_pos rfl)
  have own : ((s.withIntent i).runtime.heap s.allocated).id = i.id := by rw [itself]
  have before : ∀ ref, ref < s.allocated → (s.withIntent i).runtime.heap ref = s.runtime.heap ref := fun ref used =>
    (Runtime.heap_putIntent _ _ _ _).trans (if_neg (Nat.ne_of_lt used))
  obtain ⟨⟨record, duplicate⟩, rt, run, admitting⟩ := exists_admitting cfg (s.withIntent i) own
  rw [Site.Takes, Site.settles]
  obtain ⟨heap, locks, policy, version, seen, stored, answer⟩ := admitting
  rw [Site.known_withIntent] at answer
  have ran : Site.exec cfg (.admitIntent s.allocated) (s.withIntent i) = (.ok (record, duplicate), { s.withIntent i with runtime := rt }) := by
    simp only [Site.exec, Site.runs, run]
    rfl
  have congr : ∀ j, Site.validates cfg (timedOut 0) { s.withIntent i with runtime := rt } j = s.validates cfg (timedOut 0) j := by
    intro j
    apply Site.validates_congr <;> first | assumption | rfl
  refine serves_step_bind.mpr (serves_step_bind.mpr ?_)
  show Serves (answered (Site.exec cfg (.admitIntent s.allocated) (s.withIntent i)).1 >>= _)
    (Site.exec cfg (.admitIntent s.allocated) (s.withIntent i)).2 _ _
  rw [ran]
  refine serves_bind.mpr (serves_answered.mpr ?_)
  rcases answer with ⟨old, found, there⟩ | ⟨fresh, unknown⟩
  · obtain rfl : duplicate = true := old
    simp only [found, if_true]
    refine (serves_current_bind stored).mpr ?_
    by_cases delayed : record.state = .delayed
    · have names := named i.id record there
      have heap' : rt.heap record.intent = s.runtime.heap record.intent := by rw [heap, before _ names.1]
      have served := serves_submitAdmitted cfg ticket (s := { s.withIntent i with runtime := rt })
        ⟨Nat.lt_succ_of_lt names.1, by rw [heap', names.2]⟩ stored (by rw [delayed]; rfl) rfl seen false timedOut
      simp only [congr, heap', policy, Bool.false_and, Bool.or_false] at served
      simp only [delayed, if_true, ne_eq, not_true, decide_false, Bool.false_or]
      exact served.imp (fun _ _ h => ⟨fun _ => h.1, h.2⟩) fun _ _ h => h
    · rw [if_neg delayed]
      simp only [ne_eq, delayed, not_false_eq_true, decide_true, Bool.true_or]
      refine (serves_answer stored _ _).imp (fun _ _ _ => ⟨fun takes => ?_, trivial⟩) fun _ _ h => h.elim
      exact absurd (takes record rfl) delayed
  · obtain ⟨rfl, rfl⟩ := Prod.mk.inj fresh
    simp only [unknown, Bool.false_eq_true, if_false]
    have served := serves_submitAdmitted cfg ticket (s := { s.withIntent i with runtime := rt })
      ⟨Nat.lt_succ_self _, by rw [heap]; exact own⟩ stored rfl rfl seen true timedOut
    simp only [congr, heap, itself, policy, Bool.true_and] at served
    exact served.imp (fun _ _ h => ⟨fun _ => h.1, h.2⟩) fun _ _ h => h

end

/-! ### A degradation that raises -/

def settlingConfig : SiteConfig := ⟨plainConfig, .document, 3600, true, 64, fun _ => 0, true⟩

def settlingStart : Site := .init (fun _ => plainIntent "" "") .nil .empty (.boot none 0)

/-- A submission in time. -/
def submitted (i : ActionIntent) (s : Site) : Except HttpError SubmitAnswer × Site :=
  @result PyText.ascii settlingConfig _ (@submitIntent PyText.ascii settlingConfig 0 (some i) fun _ _ => false) s

/-- It asks for half of a speed that is no number. -/
def wordySpeed : ActionIntent := { plainIntent "a" "cell" with
  payload := { (plainIntent "a" "cell").payload with
    parameters := .single "speed_factor" (.str "fast".toList)
    degradationPolicy := .reduceSpeed } }

end Xair
