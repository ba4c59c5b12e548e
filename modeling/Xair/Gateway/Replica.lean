import Xair.Gateway.Baselines
import Xair.Server.Grounds

/-!
# The engine's copy

What every step of the gateway's other policies keeps: each document the engine may come to
hold is the store's at one of its versions, and while no other process writes the store, the
last one replicated is at most one update behind, and not even that while `_opa_lock` is free.
-/

namespace Xair

open Library

/-! ### Documents of the past -/

/-- The document as the engine is sent it while the store can be read. -/
def storeDocument (patches : List Members) (n : Nat) : OpaState := replicateToOpa ⟨atVersion patches n, Dict.empty, true⟩

/-- An untrusted document, or that of the store at its version. -/
def OpaState.Copies (doc : OpaState) (patches : List Members) : Prop :=
  doc.trusted = true → doc.version ≤ patches.length ∧ doc = storeDocument patches doc.version

theorem storeDocument_version {patches : List Members} {n : Nat} (bound : n ≤ patches.length) :
    (storeDocument patches n).version = n := atVersion_version bound

theorem storeDocument_grows {patches later : List Members} (grown : patches <+: later) {n : Nat} (bound : n ≤ patches.length) :
    storeDocument later n = storeDocument patches n := by
  obtain ⟨more, rfl⟩ := grown
  rw [storeDocument, storeDocument, atVersion_append bound]

theorem OpaState.Copies.grows {doc : OpaState} {patches later : List Members} (h : doc.Copies patches) (grown : patches <+: later) :
    doc.Copies later := by
  intro trusted
  obtain ⟨bound, same⟩ := h trusted
  have reach := grown.length_le
  exact ⟨by omega, by rw [storeDocument_grows grown bound]; exact same⟩

namespace Bench

variable {s s' s'' : Bench} {t : Nat}

/-! ### What is not lost -/

structure Grows (s s' : Bench) : Prop where
  patches : s.store.patches <+: s'.store.patches
  times : s.times <+: s'.times
  cacheWrites : s.cacheWrites <+: s'.cacheWrites
  releases : s.releases <+: s'.releases
  foreign : s.foreign ≤ s'.foreign

theorem Grows.refl (s : Bench) : s.Grows s :=
  ⟨List.prefix_refl _, List.prefix_refl _, List.prefix_refl _, List.prefix_refl _, Nat.le_refl _⟩

theorem Grows.of_eq (patches : s'.store.patches = s.store.patches) (times : s'.times = s.times) (cacheWrites : s'.cacheWrites = s.cacheWrites)
    (releases : s'.releases = s.releases) (foreign : s'.foreign = s.foreign) : s.Grows s' := by
  constructor
  · rw [patches]
  · rw [times]
  · rw [cacheWrites]
  · rw [releases]
  · rw [foreign]

theorem Grows.trans (first : s.Grows s') (second : s'.Grows s'') : s.Grows s'' :=
  ⟨first.patches.trans second.patches, first.times.trans second.times, first.cacheWrites.trans second.cacheWrites,
    first.releases.trans second.releases, Nat.le_trans first.foreign second.foreign⟩

/-- The document that was replicated last lacks at most `n` updates. -/
structure Behind (n : Nat) (s : Bench) : Prop where
  unsent : s.sent = none → s.store.patches.length ≤ n
  sent : ∀ doc, s.sent = some doc → doc.trusted = true → s.store.patches.length ≤ doc.version + n

theorem Behind.mono {m n : Nat} (h : s.Behind m) (le : m ≤ n) : s.Behind n :=
  ⟨fun none => Nat.le_trans (h.unsent none) le, fun doc sent trusted => by have := h.sent doc sent trusted; omega⟩

theorem Behind.congr {n : Nat} (h : s.Behind n) (sent : s'.sent = s.sent) (patches : s'.store.patches = s.store.patches) : s'.Behind n := by
  constructor
  · rw [sent, patches]
    exact h.unsent
  · rw [sent, patches]
    exact h.sent

/-- One update more. -/
theorem Behind.update {n : Nat} (h : s.Behind n) (sent : s'.sent = s.sent) (one : s'.store.patches.length = s.store.patches.length + 1) :
    s'.Behind (n + 1) := by
  constructor
  · intro none
    have before := h.unsent (sent.symm.trans none)
    omega
  · intro doc its trusted
    have before := h.sent doc (sent.symm.trans its) trusted
    omega

/-! ### Steps -/

/-- The releases of one request. -/
def releasesOf (t : Nat) (s : Bench) : List Released := s.releases.filter fun r => decide (r.ticket = t)

/-- What a request may do: without the lock it replicates nothing and updates nothing, and it releases for itself only. -/
structure Moves (t : Nat) (s s' : Bench) : Prop where
  grows : s.Grows s'
  lock : s.opaLock ≠ some t → s'.opaLock = s.opaLock ∨ s.opaLock = none ∧ s'.opaLock = some t
  unlock : s.opaLock = some t → s'.opaLock = some t ∨ s'.opaLock = none
  quiet : s.opaLock ≠ some t → s'.sent = s.sent ∧ s'.store.patches = s.store.patches
  own : ∀ t', t' ≠ t → s'.releasesOf t' = s.releasesOf t'

/-- What a request relies on. -/
structure Awaits (t : Nat) (s s' : Bench) : Prop where
  grows : s.Grows s'
  held : s.opaLock = some t → s'.opaLock = some t ∧ s'.sent = s.sent ∧ (s'.foreign = s.foreign → s'.store.patches = s.store.patches)
  free : s.opaLock ≠ some t → s'.opaLock ≠ some t
  own : s'.releasesOf t = s.releasesOf t

theorem Moves.refl (t : Nat) (s : Bench) : s.Moves t s :=
  ⟨.refl s, fun _ => Or.inl rfl, fun its => Or.inl its, fun _ => ⟨rfl, rfl⟩, fun _ _ => rfl⟩

theorem Awaits.refl (t : Nat) (s : Bench) : s.Awaits t s := ⟨.refl s, fun its => ⟨its, rfl, fun _ => rfl⟩, id, rfl⟩

theorem Awaits.trans (first : s.Awaits t s') (second : s'.Awaits t s'') : s.Awaits t s'' := by
  refine ⟨first.grows.trans second.grows, fun its => ?_, fun other => second.free (first.free other), second.own.trans first.own⟩
  obtain ⟨held, sent, still⟩ := first.held its
  obtain ⟨held', sent', still'⟩ := second.held held
  refine ⟨held', sent'.trans sent, fun same => ?_⟩
  have lower := first.grows.foreign
  have upper := second.grows.foreign
  rw [still' (by omega), still (by omega)]

/-- A step of one request is a step that the others rely on. -/
theorem Moves.awaits {t' : Nat} (h : s.Moves t s') (ne : t ≠ t') : s.Awaits t' s' := by
  refine ⟨h.grows, fun its => ?_, fun other => ?_, h.own t' (Ne.symm ne)⟩
  · have others : s.opaLock ≠ some t := by
      rw [its]
      exact fun same => ne (Option.some.inj same).symm
    obtain ⟨sent, patches⟩ := h.quiet others
    refine ⟨?_, sent, fun _ => patches⟩
    rcases h.lock others with same | ⟨none, _⟩
    · rw [same]
      exact its
    · rw [its] at none
      cases none
  · by_cases here : s.opaLock = some t
    · rcases h.unlock here with held | free
      · rw [held]
        exact fun same => ne (Option.some.inj same)
      · rw [free]
        simp
    · rcases h.lock here with same | ⟨_, taken⟩
      · rwa [same]
      · rw [taken]
        exact fun same => ne (Option.some.inj same)

end Bench

section

variable [PyText]

/-! ### What a release stands on -/

/-- Every expression is true of the context. -/
def Members.Satisfies (context : Members) (exprs : List Str) : Prop := ∀ expr ∈ exprs, truth expr context = .ok true

/-- What the policy has found before it released. -/
def Released.Basis (cfg : SiteConfig) (s : Bench) (r : Released) (i : ActionIntent) : Mode → Prop
  | .direct | .naive => True
  | .unknown _ => False
  | .localFresh | .localStale | .localPush _ =>
    ∃ writes, writes <+: s.cacheWrites ∧ (cacheAfter writes).Satisfies i.predicates ∧
      (r.mode.refreshes = true → ∃ w ∈ writes, w.ticket = r.ticket ∧ w.version.isSome = true)
  | .localAuthoritative scope =>
    ∃ v g, r.versions = some (v, g) ∧ v ≤ g ∧ g ≤ s.store.patches.length ∧ (scope = .global → v = g) ∧
      (∀ n, v ≤ n → n ≤ g → (atVersion s.store.patches n).context.Satisfies i.predicates) ∧
      ∃ now ∈ s.times, (cfg.config.validateRelease i now).1 = true
  | .opa versioned =>
    ∃ v g preds, r.versions = some (v, g) ∧ opaPredicates i = some preds ∧ v ≤ s.store.patches.length ∧ g ≤ s.store.patches.length ∧
      (storeDocument s.store.patches v).allow preds = true ∧ (storeDocument s.store.patches g).allow preds = true ∧
      (versioned = true → ∀ n, min v g ≤ n → n ≤ max v g → (storeDocument s.store.patches n).allow preds = true) ∧
      ∃ now ∈ s.times, (cfg.config.validateRelease i now).1 = true

/-- The policy of the release has accepted its intent. -/
def Released.Justified (cfg : SiteConfig) (s : Bench) (r : Released) : Prop :=
  r.mode = .direct ∨ ∃ i, r.intent = some i ∧ (∃ now ∈ s.times, (cfg.config.validate i now).1 = true) ∧ r.Basis cfg s i r.mode

variable {cfg : SiteConfig} {s s' s'' : Bench} {t : Nat}

theorem Released.Basis.grows {r : Released} {i : ActionIntent} {mode : Mode} (h : r.Basis cfg s i mode) (grown : s.Grows s') :
    r.Basis cfg s' i mode := by
  have reach := grown.patches.length_le
  have past : ∀ {n}, n ≤ s.store.patches.length → atVersion s'.store.patches n = atVersion s.store.patches n := by
    intro n bound
    obtain ⟨more, same⟩ := grown.patches
    rw [← same, atVersion_append bound]
  have document : ∀ {n}, n ≤ s.store.patches.length → storeDocument s'.store.patches n = storeDocument s.store.patches n :=
    fun bound => storeDocument_grows grown.patches bound
  cases mode with
  | direct => trivial
  | naive => trivial
  | unknown name => exact h
  | localFresh | localStale | localPush =>
    obtain ⟨writes, known, satisfied, refreshed⟩ := h
    exact ⟨writes, known.trans grown.cacheWrites, satisfied, refreshed⟩
  | localAuthoritative scope =>
    obtain ⟨v, g, versions, order, bound, same, stood, now, shown, timely⟩ := h
    refine ⟨v, g, versions, order, by omega, same, fun n late early => ?_, now, grown.times.subset shown, timely⟩
    rw [past (by omega)]
    exact stood n late early
  | opa versioned =>
    obtain ⟨v, g, preds, versions, parsed, boundV, boundG, allowedV, allowedG, stood, now, shown, timely⟩ := h
    refine ⟨v, g, preds, versions, parsed, by omega, by omega, ?_, ?_, fun its n late early => ?_, now, grown.times.subset shown, timely⟩
    · rw [document boundV]
      exact allowedV
    · rw [document boundG]
      exact allowedG
    · rw [document (by omega)]
      exact stood its n late early

theorem Released.Justified.grows {r : Released} (h : r.Justified cfg s) (grown : s.Grows s') : r.Justified cfg s' := by
  rcases h with direct | ⟨i, its, ⟨now, shown, timely⟩, basis⟩
  · exact Or.inl direct
  · exact Or.inr ⟨i, its, ⟨now, grown.times.subset shown, timely⟩, basis.grows grown⟩

/-! ### The invariant -/

/-- A merge into the cache that comes from the store holds what the store had at its version. -/
def CacheWrite.Of (w : CacheWrite) (patches : List Members) : Prop :=
  ∀ v, w.version = some v → v ≤ patches.length ∧ w.context = (atVersion patches v).context

omit [PyText] in
theorem CacheWrite.Of.grows {w : CacheWrite} {patches later : List Members} (h : w.Of patches) (grown : patches <+: later) :
    w.Of later := by
  intro v its
  obtain ⟨bound, same⟩ := h v its
  obtain ⟨more, rfl⟩ := grown
  rw [atVersion_append bound]
  exact ⟨by rw [List.length_append]; omega, same⟩

structure Bench.Consistent (cfg : SiteConfig) (s : Bench) : Prop where
  store : s.store.Inv
  engine : ∀ doc, s.engine = some doc → doc.Copies s.store.patches
  late : ∀ doc ∈ s.late, doc.Copies s.store.patches
  sent : ∀ doc, s.sent = some doc → doc.Copies s.store.patches
  /-- No replication has been given up: the engine holds the last one. -/
  received : s.opaReplicationErrors = 0 → s.engine = s.sent ∧ s.late = []
  behind : s.foreign = 0 → s.Behind 1
  current : s.foreign = 0 → s.opaLock = none → s.Behind 0
  cache : s.contextCache = cacheAfter s.cacheWrites
  writes : ∀ w ∈ s.cacheWrites, w.Of s.store.patches
  clock : s.clock ∈ s.times
  releases : ∀ r ∈ s.releases, r.Justified cfg s

namespace Bench

variable (cfg) in
theorem consistent_init (clock : ℚ) : (Bench.init clock).Consistent cfg where
  store := MemoryStore.inv_init
  engine doc its := by cases its
  late doc member := by cases member
  sent doc its := by cases its
  received _ := ⟨rfl, rfl⟩
  behind _ := ⟨fun _ => Nat.zero_le _, fun doc its => by cases its⟩
  current _ _ := ⟨fun _ => Nat.le_refl _, fun doc its => by cases its⟩
  cache := rfl
  writes w member := by cases member
  clock := List.mem_singleton_self _
  releases r member := by cases member

/-- The parts that say something about the store's versions keep it while the store grows. -/
theorem Consistent.grows (h : s.Consistent cfg) (grown : s.Grows s') (store : s'.store.Inv)
    (engine : ∀ doc, s'.engine = some doc → s.engine = some doc ∨ doc ∈ s.late ∨ doc.Copies s'.store.patches)
    (late : ∀ doc ∈ s'.late, doc ∈ s.late ∨ doc.Copies s'.store.patches)
    (sent : ∀ doc, s'.sent = some doc → s.sent = some doc ∨ doc.Copies s'.store.patches)
    (received : s'.opaReplicationErrors = 0 → s'.engine = s'.sent ∧ s'.late = [])
    (behind : s'.foreign = 0 → s'.Behind 1) (current : s'.foreign = 0 → s'.opaLock = none → s'.Behind 0)
    (cache : s'.contextCache = cacheAfter s'.cacheWrites)
    (writes : ∀ w ∈ s'.cacheWrites, w ∈ s.cacheWrites ∨ w.Of s'.store.patches) (clock : s'.clock ∈ s'.times)
    (releases : ∀ r ∈ s'.releases, r ∈ s.releases ∨ r.Justified cfg s') : s'.Consistent cfg where
  store := store
  engine doc its := by
    rcases engine doc its with before | before | new
    · exact (h.engine doc before).grows grown.patches
    · exact (h.late doc before).grows grown.patches
    · exact new
  late doc member := by
    rcases late doc member with before | new
    · exact (h.late doc before).grows grown.patches
    · exact new
  sent doc its := by
    rcases sent doc its with before | new
    · exact (h.sent doc before).grows grown.patches
    · exact new
  received := received
  behind := behind
  current := current
  cache := cache
  writes w member := by
    rcases writes w member with before | new
    · exact (h.writes w before).grows grown.patches
    · exact new
  clock := clock
  releases r member := by
    rcases releases r member with before | new
    · exact (h.releases r before).grows grown
    · exact new

end Bench

/-! ### Commands -/

/-- The lock is taken when it is free, and what does not leave the process does not fail. -/
def BenchCommand.May (s : Bench) (fate : Fate) : BenchCommand → Prop
  | .acquireOpaLock _ => s.opaLock = none ∧ fate = .done
  | .update _ | .snapshot | .put _ | .decide _ _ | .send => True
  | _ => fate = .done

instance (s : Bench) (fate : Fate) (c : BenchCommand) : Decidable (c.May s fate) := by
  rcases c <;> dsimp only [BenchCommand.May] <;> infer_instance

/-- A document that is the present one as long as no other process writes the store. -/
def OpaState.Recent (doc : OpaState) (s : Bench) : Prop :=
  doc.Copies s.store.patches ∧ (s.foreign = 0 → doc.trusted = true → s.store.patches.length ≤ doc.version)

/-- The lock is held, and the last replication lacks at most `n` updates. -/
structure Bench.Held (t n : Nat) (s : Bench) : Prop where
  lock : s.opaLock = some t
  behind : s.foreign = 0 → s.Behind n

/-- When a request may send the command. -/
def BenchCommand.Permitted (cfg : SiteConfig) (t : Nat) (s : Bench) : BenchCommand → Prop
  | .acquireOpaLock ticket => ticket = t ∧ s.opaLock = none
  | .releaseOpaLock => s.Held t 0
  | .update patch => s.Held t 0 ∧ patch.WF
  | .put doc | .giveUp doc => s.opaLock = some t ∧ doc.Recent s
  | .cacheMerge write => write.Of s.store.patches
  | .release entry => entry.ticket = t ∧ entry.Justified cfg s
  | _ => True

namespace Bench

omit [PyText] in
/-- A step that leaves the lock, the store's updates, the last replication and the releases. -/
theorem Moves.still (grows : s.Grows s') (lock : s'.opaLock = s.opaLock) (sent : s'.sent = s.sent)
    (patches : s'.store.patches = s.store.patches) (releases : s'.releases = s.releases) : s.Moves t s' :=
  ⟨grows, fun _ => Or.inl lock, fun its => Or.inl (lock.trans its), fun _ => ⟨sent, patches⟩, fun _ _ => by rw [releasesOf, releases, releasesOf]⟩

omit [PyText] in
/-- A step of the request that holds the lock. -/
theorem Moves.holding (its : s.opaLock = some t) (grows : s.Grows s') (lock : s'.opaLock = some t ∨ s'.opaLock = none)
    (releases : s'.releases = s.releases) : s.Moves t s' :=
  ⟨grows, fun other => absurd its other, fun _ => lock, fun other => absurd its other, fun _ _ => by rw [releasesOf, releases, releasesOf]⟩

/-- The state differs in the lock, the view of the store and the counter of replications at most. -/
theorem Consistent.relock (h : s.Consistent cfg) (lock : Option Nat) (view : Snapshot) (replications : Nat)
    (current : s.foreign = 0 → lock = none → s.Behind 0) :
    { s with opaLock := lock, view := view, opaReplications := replications }.Consistent cfg where
  store := h.store
  engine := h.engine
  late := h.late
  sent := h.sent
  received := h.received
  behind own := (h.behind own).congr rfl rfl
  current own free := (current own free).congr rfl rfl
  cache := h.cache
  writes := h.writes
  clock := h.clock
  releases r member := (h.releases r member).grows (.of_eq rfl rfl rfl rfl rfl)

variable (cfg) in
/-- The update of a patch is one more version. -/
theorem updated_cases (store : s.store.Inv) {patch : Members} (wf : patch.WF) : ∃ m, s.updated cfg patch = .ok { s with store := m } ∧
    m.Inv ∧ m.patches = s.store.patches ++ [patch] := by
  obtain ⟨m, updated, patches, inv⟩ := store.update wf cfg.predicateRetentionS (s.clock / 1000)
  exact ⟨m, by rw [Bench.updated, updated]; rfl, inv, patches⟩

omit [PyText] in
theorem grows_append {m : MemoryStore} {patch : Members} (patches : m.patches = s.store.patches ++ [patch]) (view : Snapshot) (n : Nat) :
    s.Grows { s with store := m, view := view, foreign := s.foreign + n } :=
  ⟨by rw [patches]; exact List.prefix_append _ _, List.prefix_refl _, List.prefix_refl _, List.prefix_refl _, Nat.le_add_right _ _⟩

/-- An update keeps all that is known; whoever makes it holds the lock or is another process. -/
theorem Consistent.update (h : s.Consistent cfg) {m : MemoryStore} (inv : m.Inv) {patch : Members}
    (patches : m.patches = s.store.patches ++ [patch]) (view : Snapshot) (n : Nat)
    (owner : s.foreign + n = 0 → s.Behind 0 ∧ s.opaLock ≠ none) :
    { s with store := m, view := view, foreign := s.foreign + n }.Consistent cfg := by
  refine h.grows (grows_append patches view n) inv (fun _ its => Or.inl its) (fun _ member => Or.inl member) (fun _ its => Or.inl its)
    h.received (fun own => ?_) (fun own free => ?_) h.cache (fun _ member => Or.inl member) h.clock fun _ member => Or.inl member
  · exact (owner own).1.update rfl (by rw [patches, List.length_append, List.length_singleton])
  · exact absurd free (owner own).2

/-- A replication of a recent document, received or not. -/
theorem Consistent.replicate (h : s.Consistent cfg) {doc : OpaState} (recent : doc.Recent s) {engine : Option OpaState}
    {late : List OpaState} (errors : Nat) (holds : ∀ doc', engine = some doc' → s.engine = some doc' ∨ doc' = doc)
    (carried : ∀ doc' ∈ late, doc' ∈ s.late ∨ doc' = doc) (received : errors = 0 → engine = some doc ∧ late = []) :
    { s with engine := engine, late := late, opaReplicationErrors := errors, sent := some doc }.Consistent cfg := by
  have behind : s.foreign = 0 → Behind 0 { s with engine := engine, late := late, opaReplicationErrors := errors, sent := some doc } := by
    intro own
    constructor
    · intro none
      cases none
    · intro doc' its trusted
      obtain rfl := Option.some.inj its
      exact recent.2 own trusted
  refine h.grows (.of_eq rfl rfl rfl rfl rfl) h.store (fun doc' its => ?_) (fun doc' member => ?_) (fun doc' its => ?_) received
    (fun own => (behind own).mono (Nat.zero_le 1)) (fun own _ => behind own) h.cache (fun _ member => Or.inl member) h.clock
    fun _ member => Or.inl member
  · rcases holds doc' its with before | new
    · exact Or.inl before
    · rw [new]
      exact Or.inr (Or.inr recent.1)
  · rcases carried doc' member with before | new
    · exact Or.inl before
    · rw [new]
      exact Or.inr recent.1
  · obtain rfl := Option.some.inj its
    exact Or.inr recent.1

variable (cfg) in
/-- What a request may send keeps the invariant, and the others rely on no more than it leaves. -/
theorem Consistent.exec (h : s.Consistent cfg) {c : BenchCommand} (permitted : c.Permitted cfg t s) :
    (Bench.exec cfg c s).2.Consistent cfg ∧ s.Moves t (Bench.exec cfg c s).2 := by
  have same : s.Consistent cfg ∧ s.Moves t s := ⟨h, .refl t s⟩
  cases c with
  | lastView => exact same
  | cacheSnapshot => exact same
  | time => exact same
  | send => exact same
  | decide preds expected =>
    simp only [Bench.exec]
    split <;> exact same
  | acquireOpaLock ticket =>
    obtain ⟨rfl, free⟩ := permitted
    refine ⟨h.relock (some ticket) s.view s.opaReplications fun _ none => ?_, ?_⟩
    · cases none
    · exact ⟨.of_eq rfl rfl rfl rfl rfl, fun _ => Or.inr ⟨free, rfl⟩, fun _ => Or.inl rfl, fun _ => ⟨rfl, rfl⟩, fun _ _ => rfl⟩
  | releaseOpaLock =>
    refine ⟨h.relock none s.view s.opaReplications fun own _ => permitted.behind own, ?_⟩
    exact .holding permitted.lock (.of_eq rfl rfl rfl rfl rfl) (Or.inr rfl) rfl
  | snapshot =>
    refine ⟨h.relock s.opaLock s.store.snapshot s.opaReplications h.current, ?_⟩
    exact .still (.of_eq rfl rfl rfl rfl rfl) rfl rfl rfl rfl
  | countReplication =>
    refine ⟨h.relock s.opaLock s.view (s.opaReplications + 1) h.current, ?_⟩
    exact .still (.of_eq rfl rfl rfl rfl rfl) rfl rfl rfl rfl
  | update patch =>
    obtain ⟨held, wf⟩ := permitted
    obtain ⟨m, updated, inv, patches⟩ := updated_cases cfg h.store wf
    simp only [Bench.exec, updated]
    have owner : s.foreign + 0 = 0 → s.Behind 0 ∧ s.opaLock ≠ none := fun own => ⟨held.behind own, by rw [held.lock]; simp⟩
    exact ⟨h.update inv patches m.snapshot 0 owner, .holding held.lock (grows_append patches m.snapshot 0) (Or.inl held.lock) rfl⟩
  | put doc =>
    obtain ⟨held, recent⟩ := permitted
    simp only [Bench.exec]
    split
    · exact ⟨h.replicate recent s.opaReplicationErrors (fun _ its => Or.inr (Option.some.inj its).symm) (fun _ member => Or.inl member)
        fun none => ⟨rfl, (h.received none).2⟩, .holding held (.of_eq rfl rfl rfl rfl rfl) (Or.inl held) rfl⟩
    · exact same
  | giveUp doc =>
    obtain ⟨held, recent⟩ := permitted
    refine ⟨h.replicate recent (s.opaReplicationErrors + 1) (fun _ its => Or.inl its) (fun doc' member => ?_) fun none => ?_,
      .holding held (.of_eq rfl rfl rfl rfl rfl) (Or.inl held) rfl⟩
    · split at member
      · rcases List.mem_append.mp member with before | new
        · exact Or.inl before
        · exact Or.inr (List.mem_singleton.mp new)
      · exact Or.inl member
    · omega
  | cacheMerge write =>
    refine ⟨h.grows ⟨List.prefix_refl _, List.prefix_refl _, List.prefix_append _ _, List.prefix_refl _, Nat.le_refl _⟩ h.store
      (fun _ its => Or.inl its) (fun _ member => Or.inl member) (fun _ its => Or.inl its) h.received (fun own => (h.behind own).congr rfl rfl)
      (fun own free => (h.current own free).congr rfl rfl) ?_ (fun w member => ?_) h.clock fun _ member => Or.inl member,
      .still ⟨List.prefix_refl _, List.prefix_refl _, List.prefix_append _ _, List.prefix_refl _, Nat.le_refl _⟩ rfl rfl rfl rfl⟩
    · change deepMerge s.contextCache write.context = cacheAfter (s.cacheWrites ++ [write])
      rw [h.cache, cacheAfter, cacheAfter, List.foldl_append]
      rfl
    · rcases List.mem_append.mp member with before | new
      · exact Or.inl before
      · rw [List.mem_singleton.mp new]
        exact Or.inr permitted
  | release entry =>
    obtain ⟨own, justified⟩ := permitted
    have grows : s.Grows { s with releases := s.releases ++ [entry] } :=
      ⟨List.prefix_refl _, List.prefix_refl _, List.prefix_refl _, List.prefix_append _ _, Nat.le_refl _⟩
    refine ⟨h.grows grows h.store (fun _ its => Or.inl its) (fun _ member => Or.inl member) (fun _ its => Or.inl its) h.received
      (fun own => (h.behind own).congr rfl rfl) (fun own free => (h.current own free).congr rfl rfl) h.cache
      (fun _ member => Or.inl member) h.clock fun r member => ?_,
      grows, fun _ => Or.inl rfl, fun its => Or.inl its, fun _ => ⟨rfl, rfl⟩, fun t' other => ?_⟩
    · rcases List.mem_append.mp member with before | new
      · exact Or.inl before
      · rw [List.mem_singleton.mp new]
        exact Or.inr (justified.grows grows)
    · change (s.releases ++ [entry]).filter _ = _
      rw [List.filter_append, List.filter_cons_of_neg (by simpa [own] using Ne.symm other), List.filter_nil, List.append_nil]
      rfl

/-! ### The environment -/

/-- A change that no request makes. -/
theorem Consistent.change (h : s.Consistent cfg) (change : BenchChange) :
    (change.apply cfg s).Consistent cfg ∧ s.Awaits t (change.apply cfg s) := by
  cases change with
  | tick now =>
    have grows : s.Grows (BenchChange.apply cfg (.tick now) s) :=
      ⟨List.prefix_refl _, List.prefix_append _ _, List.prefix_refl _, List.prefix_refl _, Nat.le_refl _⟩
    exact ⟨h.grows grows h.store (fun _ its => Or.inl its) (fun _ member => Or.inl member) (fun _ its => Or.inl its) h.received
      (fun own => (h.behind own).congr rfl rfl) (fun own free => (h.current own free).congr rfl rfl) h.cache
      (fun _ member => Or.inl member) (List.mem_append_right _ (List.mem_singleton_self _)) fun _ member => Or.inl member,
      grows, fun its => ⟨its, rfl, fun _ => rfl⟩, id, rfl⟩
  | foreign patch =>
    obtain ⟨m, updated, inv, patches⟩ := updated_cases cfg h.store patch.wf
    simp only [BenchChange.apply, updated]
    refine ⟨h.update inv patches s.view 1 fun none => by omega, grows_append patches s.view 1, fun its => ⟨its, rfl, fun same => ?_⟩, id, rfl⟩
    have moved : s.foreign + 1 = s.foreign := same
    omega
  | deliver n =>
    simp only [BenchChange.apply]
    split
    · rename_i doc found
      have member := List.mem_of_getElem? found
      refine ⟨h.grows (.of_eq rfl rfl rfl rfl rfl) h.store (fun doc' its => ?_) (fun _ rest => Or.inl (List.mem_of_mem_eraseIdx rest))
        (fun _ its => Or.inl its) (fun none => ?_) (fun own => (h.behind own).congr rfl rfl)
        (fun own free => (h.current own free).congr rfl rfl) h.cache (fun _ member => Or.inl member) h.clock fun _ member => Or.inl member,
        .of_eq rfl rfl rfl rfl rfl, fun its => ⟨its, rfl, fun _ => rfl⟩, id, rfl⟩
      · obtain rfl := Option.some.inj its
        exact Or.inr (Or.inl member)
      · rw [(h.received none).2] at member
        cases member
    · exact ⟨h, .refl t s⟩

end Bench

/-! ### The discipline -/

/-- Each request sends what it may, and relies on the others to do so. -/
def serving (cfg : SiteConfig) : Discipline (bench cfg) BenchJob where
  Inv := Bench.Consistent cfg
  Step t _ := Bench.Moves t
  Rely := Bench.Awaits
  step_refl t _ s := .refl t s
  rely_refl t s := .refl t s
  rely_trans _ _ _ _ first second := first.trans second
  rely_of_step _ _ _ _ _ ne step := step.awaits ne

/-- The judgement for a call of a request. -/
abbrev Serving (cfg : SiteConfig) (t : Nat) (job : BenchJob) {α : Type} (m : BenchHandler cfg α) (s : Bench) (ok : α → Bench → Prop)
    (raised : Bench → Prop) : Prop :=
  Method.Runs (serving cfg) t job (fun c s fate => c.May s fate) m () s (fun a _ => ok a) fun _ _ => raised

variable {job : BenchJob} {α β : Type}

theorem serving_pure {a : α} {ok : α → Bench → Prop} {raised : Bench → Prop} (h : ∀ s', s.Awaits t s' → ok a s') :
    Serving cfg t job (pure a) s ok raised :=
  Method.runs_pure fun s' rely _ => h s' rely

theorem serving_throw {e : HttpError} {ok : α → Bench → Prop} {raised : Bench → Prop} (h : ∀ s', s.Awaits t s' → raised s') :
    Serving cfg t job (throw e) s ok raised :=
  Method.runs_throw fun s' rely _ => h s' rely

theorem serving_bind (inv : s.Consistent cfg) {m : BenchHandler cfg β} {f : β → BenchHandler cfg α} {P : β → Bench → Prop}
    {ok : α → Bench → Prop} {raised : Bench → Prop} (h : Serving cfg t job m s P raised)
    (later : ∀ b s', s'.Consistent cfg → P b s' → Serving cfg t job (f b) s' ok raised) : Serving cfg t job (m >>= f) s ok raised :=
  Method.runs_bind inv (Method.Runs.imp h (fun b _ s' _ ends inv' => later b s' inv' ends) fun _ _ _ _ ends => ends)

theorem serving_tryCatch (inv : s.Consistent cfg) {m : BenchHandler cfg α} {handler : HttpError → BenchHandler cfg α}
    {ok : α → Bench → Prop} {raised P : Bench → Prop} (h : Serving cfg t job m s ok P)
    (handled : ∀ e s', s'.Consistent cfg → P s' → Serving cfg t job (handler e) s' ok raised) :
    Serving cfg t job (tryCatch m handler) s ok raised :=
  Method.runs_tryCatch inv (Method.Runs.imp h (fun _ _ _ _ ends => ends) fun e _ s' _ ends inv' => handled e s' inv' ends)

/-- A step that the request may take whenever it comes to it. -/
theorem serving_ask {c : BenchCommand} {ok : c.Reply → Bench → Prop} {raised : Bench → Prop}
    (permitted : ∀ s', s.Awaits t s' → s'.Consistent cfg → c.May s' .done → c.Permitted cfg t s')
    (answered : ∀ s', s.Awaits t s' → s'.Consistent cfg → c.May s' .done →
      ∀ s'', (Bench.exec cfg c s').2.Awaits t s'' → ok (Bench.exec cfg c s').1 s'')
    (failed : ∀ s' fate, s.Awaits t s' → s'.Consistent cfg → c.May s' fate → fate ≠ .done →
      ∀ s'', ((bench cfg).perform c s' fate).2.Awaits t s'' → raised s'') :
    Serving cfg t job (ask c) s ok raised := by
  refine Method.runs_sent (fun s' fate rely inv may => inv.exec cfg (permitted s' rely inv ?_))
    (fun s' rely inv may s'' later _ => answered s' rely inv may s'' later)
    fun s' fate rely inv may other s'' later _ _ => failed s' fate rely inv may other s'' later
  -- whether a command may come does not depend on its fate, but for those that always succeed
  cases c <;> simp_all [BenchCommand.May]

/-- A step that never fails. -/
theorem serving_sure {c : BenchCommand} {ok : c.Reply → Bench → Prop} {raised : Bench → Prop} (sure : ∀ s fate, c.May s fate → fate = .done)
    (permitted : ∀ s', s.Awaits t s' → s'.Consistent cfg → c.May s' .done → c.Permitted cfg t s')
    (answered : ∀ s', s.Awaits t s' → s'.Consistent cfg → c.May s' .done →
      ∀ s'', (Bench.exec cfg c s').2.Awaits t s'' → ok (Bench.exec cfg c s').1 s'') : Serving cfg t job (ask c) s ok raised :=
  serving_ask permitted answered fun s' fate _ _ may other => absurd (sure s' fate may) other

/-- A step whose failure is passed over; `K` holds after it, whatever has become of it. -/
theorem serving_tried (inv : s.Consistent cfg) {c : BenchCommand} {ok : Option c.Reply → Bench → Prop} {raised K : Bench → Prop}
    (lasts : ∀ s s' : Bench, K s → s.Awaits t s' → K s')
    (permitted : ∀ s', s.Awaits t s' → s'.Consistent cfg → c.May s' .done → c.Permitted cfg t s')
    (answered : ∀ s', s.Awaits t s' → s'.Consistent cfg → c.May s' .done →
      ∀ s'', (Bench.exec cfg c s').2.Awaits t s'' → ok (some (Bench.exec cfg c s').1) s'')
    (undone : ∀ s', s.Awaits t s' → s'.Consistent cfg → K s') (done : ∀ s', s.Awaits t s' → s'.Consistent cfg → K (Bench.exec cfg c s').2)
    (nothing : ∀ s', K s' → ok none s') : Serving cfg t job (tried c) s ok raised := by
  refine serving_tryCatch (P := K) inv (serving_bind (P := fun reply s' => ∀ s'', s'.Awaits t s'' → ok (some reply) s'') inv ?_ ?_)
    fun e s' _ kept => ?_
  · refine serving_ask permitted (fun s' rely inv may s'' later s₃ last => ?_) fun s' fate rely inv may _ s'' later => ?_
    · exact answered s' rely inv may s₃ (later.trans last)
    · exact lasts _ _ ((bench cfg).perform_of (P := K) (undone s' rely inv) (done s' rely inv) fate) later
  · intro reply s' _ answer
    exact serving_pure answer
  · exact serving_pure fun s'' later => nothing s'' (lasts _ _ kept later)

/-! ### Readings of the store -/

/-- A trusted document is the store's at a version between the two states. -/
def SnapshotDoc.ReadBetween (doc : SnapshotDoc) (s s' : Bench) : Prop :=
  doc.trusted = true → s.store.patches.length ≤ doc.snapshot.version ∧ doc.snapshot.version ≤ s'.store.patches.length ∧
    doc.snapshot = atVersion s'.store.patches doc.snapshot.version

omit [PyText] in
theorem SnapshotDoc.ReadBetween.grows {doc : SnapshotDoc} (h : doc.ReadBetween s s') (grown : s'.Grows s'') : doc.ReadBetween s s'' := by
  intro trusted
  obtain ⟨after, before, same⟩ := h trusted
  have reach := grown.patches.length_le
  obtain ⟨more, longer⟩ := grown.patches
  refine ⟨after, by omega, ?_⟩
  rw [← longer, atVersion_append before]
  exact same

/-- What a request may count on stays so when it has only read. -/
theorem awaits_snapshot (t : Nat) (s : Bench) : s.Awaits t (Bench.exec cfg .snapshot s).2 :=
  ⟨.of_eq rfl rfl rfl rfl rfl, fun its => ⟨its, rfl, fun _ => rfl⟩, id, rfl⟩

theorem serving_readSnapshotFull (inv : s.Consistent cfg) (raised : Bench → Prop) :
    Serving cfg t job readSnapshotFull s (fun doc s' => doc.ReadBetween s s' ∧ s.Awaits t s') raised := by
  refine serving_bind (P := fun reply s' => (∀ snapshot, reply = some snapshot → SnapshotDoc.ReadBetween ⟨snapshot, Dict.empty, true⟩ s s') ∧
    s.Awaits t s') inv ?_ fun reply s' inv' read => ?_
  · refine serving_tried (K := fun s' => s.Awaits t s') inv (fun _ _ before later => before.trans later) (fun _ _ _ _ => trivial)
      (fun s' rely inv' _ s'' later => ⟨fun snapshot its => ?_, (rely.trans (awaits_snapshot t s')).trans later⟩) (fun s' rely _ => rely)
      (fun s' rely _ => rely.trans (awaits_snapshot t s')) fun s' rely => ⟨fun _ none => ?_, rely⟩
    · have own : SnapshotDoc.ReadBetween ⟨s'.store.snapshot, Dict.empty, true⟩ s (Bench.exec cfg .snapshot s').2 := by
        intro _
        have reach := rely.grows.patches.length_le
        change _ ≤ s'.store.snapshot.version ∧ s'.store.snapshot.version ≤ s'.store.patches.length ∧
          s'.store.snapshot = atVersion s'.store.patches s'.store.snapshot.version
        rw [inv'.store.version, atVersion_length, ← inv'.store.snapshot]
        exact ⟨reach, Nat.le_refl _, rfl⟩
      obtain rfl := Option.some.inj its
      exact own.grows later.grows
    · cases none
  · obtain ⟨read, rely⟩ := read
    cases reply with
    | some snapshot =>
      exact serving_pure fun s'' later => ⟨(read snapshot rfl).grows later.grows, rely.trans later⟩
    | none =>
      refine serving_bind (P := fun _ s'' => s.Awaits t s'') inv' ?_ fun last s'' _ later => ?_
      · exact serving_sure (fun _ _ may => may) (fun _ _ _ _ => trivial) fun s'' later _ _ s₃ last => (rely.trans later).trans last
      · exact serving_pure fun s₃ last => ⟨fun trusted => (by cases trusted), later.trans last⟩

/-! ### Replication -/

namespace Bench

omit [PyText] in
theorem Held.awaits {n : Nat} (h : s.Held t n) (rely : s.Awaits t s') : s'.Held t n := by
  obtain ⟨lock, sent, still⟩ := rely.held h.lock
  refine ⟨lock, fun own => ?_⟩
  have before := rely.grows.foreign
  exact (h.behind (by omega)).congr sent (still (by omega))

omit [PyText] in
theorem Held.mono {m n : Nat} (h : s.Held t m) (le : m ≤ n) : s.Held t n := ⟨h.lock, fun own => (h.behind own).mono le⟩

end Bench

omit [PyText] in
/-- A document read while the lock is held is still recent. -/
theorem SnapshotDoc.ReadBetween.recent {doc : SnapshotDoc} (h : doc.ReadBetween s s') (rely : s.Awaits t s') (held : s.opaLock = some t) :
    (replicateToOpa doc).Recent s' := by
  constructor
  · intro trusted
    obtain ⟨_, before, same⟩ := h trusted
    refine ⟨before, ?_⟩
    change replicateToOpa doc = replicateToOpa ⟨atVersion s'.store.patches doc.snapshot.version, Dict.empty, true⟩
    rw [← same, replicateToOpa, replicateToOpa, show doc.trusted = true from trusted]
  · intro own trusted
    have lower := rely.grows.foreign
    have still := (rely.held held).2.2 (by omega)
    have after := (h trusted).1
    rw [still]
    exact after

omit [PyText] in
theorem OpaState.Recent.awaits {doc : OpaState} (h : doc.Recent s) (rely : s.Awaits t s') (held : s.opaLock = some t) : doc.Recent s' := by
  refine ⟨h.1.grows rely.grows.patches, fun own trusted => ?_⟩
  have lower := rely.grows.foreign
  rw [(rely.held held).2.2 (by omega)]
  exact h.2 (by omega) trusted

theorem serving_updateStore (inv : s.Consistent cfg) {patch : Members} (wf : patch.WF) (held : s.Held t 0) {raised : Bench → Prop} :
    Serving cfg t job (updateStore patch) s (fun _ s' => s'.Held t 1) raised := by
  have after : ∀ s' : Bench, s.Awaits t s' → s'.Consistent cfg → (Bench.exec cfg (.update patch) s').2.Held t 1 ∧
      ∃ version, (Bench.exec cfg (.update patch) s').1 = .ok version := by
    intro s' rely inv'
    have here := held.awaits rely
    obtain ⟨m, updated, _, patches⟩ := Bench.updated_cases cfg inv'.store wf
    simp only [Bench.exec, updated]
    exact ⟨⟨here.lock, fun own => (here.behind own).update rfl (by simp [patches])⟩, _, rfl⟩
  refine serving_bind (P := fun reply s' => s'.Held t 1 ∧ ∀ e, reply ≠ some (.error e)) inv ?_ fun reply s' inv' ends => ?_
  · refine serving_tried (K := fun s' => s'.Held t 1) inv (fun _ _ held rely => held.awaits rely) (fun s' rely _ _ => ⟨held.awaits rely, wf⟩)
      (fun s' rely inv' _ s'' later => ?_) (fun s' rely _ => (held.awaits rely).mono (Nat.zero_le 1)) (fun s' rely inv' => (after s' rely inv').1)
      fun s' held => ⟨held, fun e same => by cases same⟩
    obtain ⟨held', version, answer⟩ := after s' rely inv'
    refine ⟨held'.awaits later, fun e same => ?_⟩
    rw [answer] at same
    cases same
  · obtain ⟨held', succeeds⟩ := ends
    cases reply with
    | some answer =>
      cases answer with
      | ok version => exact serving_pure fun s'' later => held'.awaits later
      | error e => exact absurd rfl (succeeds e)
    | none =>
      refine serving_bind (P := fun _ s'' => s''.Held t 1) inv' ?_ fun last s'' _ held'' => serving_pure fun s₃ later => held''.awaits later
      exact serving_sure (fun _ _ may => may) (fun _ _ _ _ => trivial) fun s'' rely _ _ s₃ later => (held'.awaits rely).awaits later

theorem serving_replicate (inv : s.Consistent cfg) {doc : OpaState} (held : s.Held t 1) (recent : doc.Recent s) {raised : Bench → Prop} :
    Serving cfg t job (replicate doc) s (fun _ s' => s'.Held t 0) raised := by
  have replicated : ∀ {s' : Bench}, s'.opaLock = some t → s'.sent = some doc → doc.Recent s' → s'.Held t 0 := by
    intro s' lock sent recent
    refine ⟨lock, fun own => ⟨fun none => ?_, fun doc' its trusted => ?_⟩⟩
    · rw [sent] at none
      cases none
    · obtain rfl := Option.some.inj (sent.symm.trans its)
      exact recent.2 own trusted
  refine serving_bind (P := fun reply s' => s'.Held t 1 ∧ doc.Recent s' ∧ (reply = some true → s'.Held t 0)) inv ?_ fun reply s' inv' ends => ?_
  · have put : ∀ s' : Bench, s.Awaits t s' → (Bench.exec cfg (.put doc) s').2.Held t 1 ∧ doc.Recent (Bench.exec cfg (.put doc) s').2 ∧
        ((Bench.exec cfg (.put doc) s').1 = true → (Bench.exec cfg (.put doc) s').2.Held t 0) := by
      intro s' rely
      have here := held.awaits rely
      have recent' := recent.awaits rely held.lock
      simp only [Bench.exec]
      split
      · have now : Bench.Held t 0 { s' with engine := some doc, sent := some doc } := replicated here.lock rfl ⟨recent'.1, recent'.2⟩
        exact ⟨now.mono (Nat.zero_le 1), ⟨recent'.1, recent'.2⟩, fun _ => now⟩
      · exact ⟨here, recent', fun no => by cases no⟩
    refine serving_tried (K := fun s' => s'.Held t 1 ∧ doc.Recent s') inv
      (fun _ _ both rely => ⟨both.1.awaits rely, both.2.awaits rely both.1.lock⟩)
      (fun s' rely _ _ => ⟨(held.awaits rely).lock, recent.awaits rely held.lock⟩) (fun s' rely _ _ s'' later => ?_)
      (fun s' rely _ => ⟨held.awaits rely, recent.awaits rely held.lock⟩) (fun s' rely _ => ⟨(put s' rely).1, (put s' rely).2.1⟩)
      fun s' both => ⟨both.1, both.2, fun no => by cases no⟩
    obtain ⟨held', recent', now⟩ := put s' rely
    exact ⟨held'.awaits later, recent'.awaits later held'.lock, fun yes => (now (Option.some.inj yes)).awaits later⟩
  · obtain ⟨held', recent', now⟩ := ends
    refine Method.runs_ite (fun accepted => ?_) fun _ => ?_
    · exact serving_sure (fun _ _ may => may) (fun _ _ _ _ => trivial) fun s'' rely _ _ s₃ later =>
        Bench.Held.awaits (s := (Bench.exec cfg .countReplication s'').2) ⟨((now accepted).awaits rely).lock,
          fun own => (((now accepted).awaits rely).behind own).congr rfl rfl⟩ later
    · refine serving_sure (fun _ _ may => may) (fun s'' rely _ _ => ⟨(held'.awaits rely).lock, recent'.awaits rely held'.lock⟩)
        fun s'' rely _ _ s₃ later => ?_
      have recent'' := recent'.awaits rely held'.lock
      exact Bench.Held.awaits (s := (Bench.exec cfg (.giveUp doc) s'').2) (replicated (held'.awaits rely).lock rfl ⟨recent''.1, recent''.2⟩) later

/-- `update_context_store_timed` from the outside: it takes the lock and gives it back. -/
theorem serving_updateAndReplicate (inv : s.Consistent cfg) {patch : Members} (wf : patch.WF) :
    Serving cfg t job (updateAndReplicate t patch) s (fun _ s' => s'.opaLock ≠ some t) fun s' => s'.opaLock ≠ some t := by
  refine serving_bind (P := fun _ s' => s'.Held t 0) inv ?_ fun _ s₁ inv₁ held => ?_
  · refine serving_sure (fun _ _ may => may.2) (fun s' _ _ may => ⟨rfl, may.1⟩) fun s' _ inv' may s'' later => ?_
    exact Bench.Held.awaits (s := (Bench.exec cfg (.acquireOpaLock t) s').2) ⟨rfl, fun own => (inv'.current own may.1).congr rfl rfl⟩ later
  have released : ∀ (s' : Bench) {raised' : Bench → Prop}, s'.Held t 0 →
      Serving cfg t job (ask .releaseOpaLock) s' (fun _ s'' => s''.opaLock ≠ some t) raised' := by
    intro s' raised' held'
    refine serving_sure (fun _ _ may => may) (fun s'' rely _ _ => held'.awaits rely) fun s'' _ _ _ s₃ later => later.free ?_
    simp [Bench.exec]
  refine serving_bind (P := fun _ s' => s'.Held t 0) inv₁ (serving_tryCatch (P := fun s' => s'.Held t 0) inv₁ ?_ ?_) fun out s₂ inv₂ held₂ => ?_
  · refine serving_bind inv₁ (serving_updateStore inv₁ wf held) fun version s₂ inv₂ held₂ => ?_
    refine serving_bind (P := fun doc s' => s'.Held t 1 ∧ (replicateToOpa doc).Recent s') inv₂ ?_ fun doc s₃ inv₃ read => ?_
    · refine Method.Runs.imp (serving_readSnapshotFull inv₂ fun s' => s'.Held t 0) (fun doc _ s' _ read => ?_) fun _ _ _ _ h => h
      exact ⟨held₂.awaits read.2, read.1.recent read.2 held₂.lock⟩
    · exact serving_bind inv₃ (serving_replicate inv₃ read.1 read.2) fun _ s₄ _ held₄ => serving_pure fun s' later => held₄.awaits later
  · intro e s₂ inv₂ held₂
    exact serving_bind inv₂ (released s₂ held₂) fun _ s₃ _ free' => serving_throw fun s' later => later.free free'
  · exact serving_bind inv₂ (released s₂ held₂) fun _ s₃ _ free' => serving_pure fun s' later => later.free free'

end

end Xair
