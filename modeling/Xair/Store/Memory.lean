import Xair.Store.Calls

/-!
# The store without a server

`RedisContextStore` when no server is configured: the snapshot, the registered
predicates and every call of the process lock in one step.
-/

namespace Xair

open Library

/-- The fields a process keeps for itself. `patches` is history only. -/
structure MemoryStore where
  snapshot : Snapshot
  preds : Dict Str Entry
  actuations : List LogEntry
  committed : List Str
  patches : List Members

def MemoryStore.init : MemoryStore := ⟨.empty, Dict.empty, [], [], []⟩

namespace MemoryStore

/-- The record a commit appends. -/
def stamped (m : MemoryStore) (now : ℚ) (req : CommitRequest) : Members :=
  stampRecord req.record req.intentId (.int m.snapshot.version) (.float (.fin (now * 1000)))
    (.float (.fin (now * 1000 - req.decisionEpochMs)))

/-- `commit_authorization`; the entry is tagged with its position. -/
def commit (now : ℚ) (req : CommitRequest) (m : MemoryStore) : CommitResult × MemoryStore :=
  let nowMs := now * 1000
  let age := nowMs - req.decisionEpochMs
  let observed := req.observed m.snapshot.pathVersions m.preds
  match req.refusal m.committed age observed with
  | some status => (⟨status, observed, m.snapshot.version, some nowMs, some age, none⟩, m)
  | none =>
    (⟨.committed, observed, m.snapshot.version, some nowMs, some age, some (m.actuations.length + 1)⟩,
      { m with
        actuations := m.actuations ++ [⟨m.stamped now req, m.actuations.length, some ⟨req, m.snapshot.version, m.preds⟩⟩]
        committed := m.committed ++ [req.intentId] })

/-- `append_actuation`. -/
def append (tombstone : Tombstone) (m : MemoryStore) : MemoryStore :=
  { m with actuations := m.actuations ++ [⟨tombstone.record, m.actuations.length, none⟩] }

theorem commit_cases (now : ℚ) (req : CommitRequest) (m : MemoryStore) :
    ((m.commit now req).1.status.refused = true ∧ (m.commit now req).1.seq = none ∧ (m.commit now req).2 = m) ∨
    m.commit now req =
      (⟨.committed, req.expected, m.snapshot.version, some (now * 1000), some (now * 1000 - req.decisionEpochMs),
          some (m.actuations.length + 1)⟩,
        { m with
          actuations := m.actuations ++ [⟨m.stamped now req, m.actuations.length, some ⟨req, m.snapshot.version, m.preds⟩⟩]
          committed := m.committed ++ [req.intentId] }) := by
  simp only [commit]
  split
  · rename_i status refusal
    exact Or.inl ⟨CommitRequest.refused_of_refusal refusal, rfl, rfl⟩
  · rename_i granted
    rw [(CommitRequest.refusal_eq_none granted).2]
    exact Or.inr rfl

end MemoryStore

section

variable [PyText]

namespace MemoryStore

/-- `_update_locked`; an exception leaves the store as it was. -/
def update (retention now : ℚ) (patch : Members) (m : MemoryStore) : Except PyError MemoryStore :=
  (apply retention now m.snapshot patch m.preds).map fun out =>
    { m with snapshot := out.1, preds := out.2, patches := m.patches ++ [patch] }

/-- The loop of `register_and_snapshot` and of `register_predicates`. What it has written before an
exception stays. -/
def register (retention now : ℚ) : List Str → MemoryStore → MemoryStore × Option PyError
  | [], m => (m, none)
  | e :: exprs, m =>
    if allFresh (now - retention / 2) m.preds [e] then register retention now exprs m
    else
      match registration m.snapshot.version m.snapshot.context now (m.preds.get e) e with
      | .ok entry => register retention now exprs { m with preds := m.preds.insert e entry }
      | .error fault => (m, some fault)

end MemoryStore

/-- A call, with the time at which it is made. -/
inductive MemoryCall where
  | update (now : ℚ) (patch : Members)
  | register (now : ℚ) (exprs : List Str)
  | commit (now : ℚ) (req : CommitRequest)
  | append (tombstone : Tombstone)

def MemoryCall.patch : MemoryCall → Option Members
  | update _ patch => some patch
  | _ => none

def MemoryStore.next (retention : ℚ) (m : MemoryStore) : MemoryCall → MemoryStore
  | .update now patch =>
    match m.update retention now patch with
    | .ok m' => m'
    | .error _ => m
  | .register now exprs => (m.register retention now exprs).1
  | .commit now req => (m.commit now req).2
  | .append tombstone => m.append tombstone

def MemoryStore.run (retention : ℚ) (m : MemoryStore) (calls : List MemoryCall) : MemoryStore :=
  calls.foldl (MemoryStore.next retention) m

theorem MemoryStore.run_append (retention : ℚ) (m : MemoryStore) (calls more : List MemoryCall) :
    m.run retention (calls ++ more) = (m.run retention calls).run retention more :=
  List.foldl_append

/-! ### The invariant -/

structure MemoryStore.Inv (m : MemoryStore) : Prop where
  wf : ∀ patch ∈ m.patches, patch.WF
  snapshot : m.snapshot = history m.patches
  entries : EntriesOk m.patches m.preds
  log : LogOk m.patches m.actuations m.committed

namespace MemoryStore

theorem inv_init : Inv init :=
  ⟨fun _ member => absurd member List.not_mem_nil, rfl, (fun _ _ stored => nomatch stored), logOk_nil⟩

theorem Inv.update {m : MemoryStore} (inv : m.Inv) {patch : Members} (wf : patch.WF) (retention now : ℚ) :
    ∃ m', m.update retention now patch = .ok m' ∧ m'.patches = m.patches ++ [patch] ∧ m'.Inv := by
  have registry := inv.entries.registry
  rw [← inv.snapshot] at registry
  obtain ⟨preds', applied, entries⟩ := apply_spec retention now wf registry
  refine ⟨{ m with snapshot := m.snapshot.merge patch, preds := preds', patches := m.patches ++ [patch] },
    by rw [MemoryStore.update, applied]; rfl, rfl, ?_, ?_, ?_, inv.log.append⟩
  · intro p member
    rcases List.mem_append.mp member with old | new
    · exact inv.wf p old
    · rwa [List.mem_singleton.mp new]
  · rw [history_append, ← inv.snapshot]
  · intro expr new stored
    obtain ⟨entry, value, before, evaluated, follows⟩ := entries expr new stored
    rw [inv.snapshot] at evaluated follows
    rw [history_version] at follows
    exact (inv.entries expr entry before).follows (by rwa [history_append]) follows

theorem Inv.register {m : MemoryStore} (inv : m.Inv) (retention now : ℚ) (exprs : List Str) :
    (m.register retention now exprs).1.Inv ∧ (m.register retention now exprs).1.patches = m.patches := by
  induction exprs generalizing m with
  | nil => exact ⟨inv, rfl⟩
  | cons e exprs ih =>
    rw [MemoryStore.register]
    split
    · exact ih inv
    · split
      · rename_i entry registered
        rw [inv.snapshot, history_version] at registered
        have new : EntryOk m.patches e entry := entryOk_registration (inv.entries e) rfl registered
        refine ih ⟨inv.wf, inv.snapshot, fun expr old stored => ?_, inv.log⟩
        change (m.preds.insert e entry).get expr = some old at stored
        rw [Dict.get_insert] at stored
        split at stored
        · rename_i same
          obtain rfl := Option.some.inj stored
          rwa [same]
        · exact inv.entries expr old stored
      · exact ⟨inv, rfl⟩

theorem Inv.version {m : MemoryStore} (inv : m.Inv) : m.snapshot.version = m.patches.length := by
  rw [inv.snapshot, history_version]

theorem Inv.commit {m : MemoryStore} (inv : m.Inv) (now : ℚ) (req : CommitRequest) :
    (m.commit now req).2.Inv ∧ (m.commit now req).2.patches = m.patches := by
  simp only [MemoryStore.commit]
  split
  · exact ⟨inv, rfl⟩
  · rename_i granted
    obtain ⟨new, matched⟩ := CommitRequest.refusal_eq_none granted
    have ok : GrantOk m.patches (m.stamped now req) ⟨req, m.snapshot.version, m.preds⟩ := by
      refine ⟨get_stampRecord_id _ _ _ _ _, ⟨_, get_stampRecord_version _ _ _ _ _, fun _ => rfl⟩, le_of_eq inv.version,
        ?_, ?_⟩
      · rw [inv.version, List.take_length]
        exact inv.entries
      · rw [inv.version, atVersion_length, ← inv.snapshot]
        exact matched.symm
    exact ⟨⟨inv.wf, inv.snapshot, inv.entries, inv.log.commit ok inv.version new _⟩, rfl⟩

/-- One call. -/
theorem Inv.next {m : MemoryStore} (inv : m.Inv) (retention : ℚ) {call : MemoryCall}
    (wf : ∀ patch, call.patch = some patch → patch.WF) : (m.next retention call).Inv ∧
      m.patches <+: (m.next retention call).patches := by
  cases call with
  | update now patch =>
    obtain ⟨m', updated, appended, inv'⟩ := inv.update (wf patch rfl) retention now
    simp only [MemoryStore.next, updated]
    exact ⟨inv', by rw [appended]; exact List.prefix_append _ _⟩
  | register now exprs =>
    obtain ⟨inv', same⟩ := inv.register retention now exprs
    exact ⟨inv', by rw [MemoryStore.next, same]⟩
  | commit now req =>
    obtain ⟨inv', same⟩ := inv.commit now req
    exact ⟨inv', by rw [MemoryStore.next, same]⟩
  | append tombstone =>
    exact ⟨⟨inv.wf, inv.snapshot, inv.entries, inv.log.tombstone _ tombstone⟩, List.prefix_refl _⟩

/-- Any sequence of calls. -/
theorem Inv.run {m : MemoryStore} (inv : m.Inv) (retention : ℚ) {calls : List MemoryCall}
    (wf : ∀ call ∈ calls, ∀ patch, call.patch = some patch → patch.WF) : (m.run retention calls).Inv ∧
      m.patches <+: (m.run retention calls).patches := by
  induction calls generalizing m with
  | nil => exact ⟨inv, List.prefix_refl _⟩
  | cons call calls ih =>
    obtain ⟨inv', first⟩ := inv.next retention (wf call List.mem_cons_self)
    obtain ⟨inv'', later⟩ := ih inv' fun c member => wf c (List.mem_cons_of_mem _ member)
    exact ⟨inv'', first.trans later⟩

end MemoryStore

end

end Xair
