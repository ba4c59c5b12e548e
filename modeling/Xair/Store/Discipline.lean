import Xair.Store.Layouts

/-!
# The discipline of the store

What every method of every layout keeps of the shared Redis state, and what it
may rely on the methods of other processes for. `faultless` says whether commands
may fail: only then is a patch known to be committed at most once.
-/

namespace Xair

open Library

/-! ### What a layout stores -/

/-- The key every transaction on the snapshot watches. -/
def Layout.snapshotKey : Layout → WatchKey
  | .document | .hash => .doc
  | .shard => .ver

namespace Redis

def snapshotPart (s : Redis) : Option Doc × Option Nat × Dict Str RootEntry × List (Nat × Members) :=
  (s.doc, s.ver, s.roots, s.updates)

def registryPart (s : Redis) : Dict Str Entry × (Str → List Str) × Dict Str Nat :=
  (s.preds, s.predRoots, s.predVers)

def counter (s : Redis) (r : Str) : Nat := (s.predVers.get r).getD 0

def indexPart (s : Redis) (r : Str) : Option Nat × List Str := (s.predVers.get r, s.predRoots r)

/-- The registered predicates, where the layout keeps them. -/
def registry (layout : Layout) (s : Redis) : Dict Str Entry :=
  match layout with
  | .document => decodePreds s.doc
  | .hash | .shard => s.preds

/-- The whole snapshot, as a full read returns it. -/
def stored (layout : Layout) (s : Redis) : Snapshot :=
  match layout with
  | .document | .hash => decode s.doc
  | .shard => ⟨(loadRoots s.roots.items).1, s.ver.getD 0, (loadRoots s.roots.items).2⟩

def tickets (s : Redis) : List Nat := s.updates.map Prod.fst

end Redis

/-- The part of a snapshot under some roots. -/
structure Snapshot.RestrictsTo (whole : Snapshot) (reads : Str → Prop) (part : Snapshot) : Prop where
  version : part.version = whole.version
  context : ∀ r, reads r → part.context.get r = whole.context.get r
  outside : ∀ r, ¬ reads r → part.context.get r = none
  pathVersions : ∀ p, reads (rootOf p) → part.pathVersions.get p = whole.pathVersions.get p
  pathsOutside : ∀ p, ¬ reads (rootOf p) → part.pathVersions.get p = none

theorem Snapshot.restrictsTo_self (s : Snapshot) : s.RestrictsTo (fun _ => True) s :=
  ⟨rfl, fun _ _ => rfl, fun _ out => absurd trivial out, fun _ _ => rfl, fun _ out => absurd trivial out⟩

/-- The hash `CTX_KEY`, root by root. -/
structure Redis.Sharded (s : Redis) : Prop where
  version : s.ver.getD 0 = s.patches.length
  subtree : ∀ r, (s.roots.get r).map RootEntry.subtree = (history s.patches).context.get r
  pathVersions : ∀ r p, (s.roots.get r).bind (fun entry => entry.pathVersions.get p) =
    if rootOf p = r then (history s.patches).pathVersions.get p else none

/-- The snapshot keys hold the history of the committed patches. -/
def Redis.Content (layout : Layout) (s : Redis) : Prop :=
  match layout with
  | .document | .hash => decode s.doc = history s.patches
  | .shard => s.Sharded

/-! ### Rely and guarantee -/

/-- A trace that a call leaves: a patch it has committed, or an entry it has appended to the log. -/
abbrev Effect := Nat × Option Members

/-- What the others see of a step: every key that is watched moves its count, the counter of a root
moves with its set, and patches and log entries are only appended. -/
structure Advance (layout : Layout) (mine : Effect → Prop) (s s' : Redis) : Prop where
  updates : ∃ more, s'.updates = s.updates ++ more ∧ ∀ update ∈ more, mine (update.1, some update.2)
  log : ∃ more, s'.actuations = s.actuations ++ more ∧ ∀ entry ∈ more, mine (entry.ticket, none)
  snapshot : Guarded (fun s => s.revs layout.snapshotKey) Redis.snapshotPart s s'
  registry : Guarded (fun s => s.revs .preds) Redis.registryPart s s'
  index : ∀ r, Guarded (Redis.counter · r) (Redis.indexPart · r) s s'

theorem Redis.log_of_eq {mine : LogEntry → Prop} {s s' : Redis} (h : s'.logPart = s.logPart) :
    ∃ more, s'.actuations = s.actuations ++ more ∧ ∀ entry ∈ more, mine entry :=
  ⟨[], (Prod.mk.inj h).1.trans (List.append_nil _).symm, fun _ member => absurd member List.not_mem_nil⟩

namespace Advance

variable {layout : Layout} {mine : Effect → Prop} {s s' s'' : Redis}

theorem refl (s : Redis) : Advance layout mine s s :=
  ⟨⟨[], by simp, by simp⟩, ⟨[], by simp, by simp⟩, Guarded.refl s, Guarded.refl s, fun _ => Guarded.refl s⟩

theorem trans (first : Advance layout mine s s') (second : Advance layout mine s' s'') :
    Advance layout mine s s'' := by
  obtain ⟨more, appended, tags⟩ := first.updates
  obtain ⟨later, appended', tags'⟩ := second.updates
  obtain ⟨entries, logged, owners⟩ := first.log
  obtain ⟨entries', logged', owners'⟩ := second.log
  refine ⟨⟨more ++ later, by rw [appended', appended, List.append_assoc], fun update member => ?_⟩,
    ⟨entries ++ entries', by rw [logged', logged, List.append_assoc], fun entry member => ?_⟩,
    first.snapshot.trans second.snapshot, first.registry.trans second.registry,
    fun r => (first.index r).trans (second.index r)⟩
  · exact (List.mem_append.mp member).elim (tags update) (tags' update)
  · exact (List.mem_append.mp member).elim (owners entry) (owners' entry)

theorem mono {other : Effect → Prop} (h : Advance layout mine s s') (weaker : ∀ effect, mine effect → other effect) :
    Advance layout other s s' := by
  obtain ⟨more, appended, tags⟩ := h.updates
  obtain ⟨entries, logged, owners⟩ := h.log
  exact ⟨⟨more, appended, fun update member => weaker _ (tags update member)⟩,
    ⟨entries, logged, fun entry member => weaker _ (owners entry member)⟩, h.snapshot, h.registry, h.index⟩

theorem patches (h : Advance layout mine s s') : ∃ more, s'.patches = s.patches ++ more := by
  obtain ⟨more, appended, _⟩ := h.updates
  exact ⟨more.map Prod.snd, by rw [Redis.patches, appended, List.map_append, Redis.patches]⟩

theorem getElem?_updates (h : Advance layout mine s s') {n : Nat} {update : Nat × Members}
    (stored : s.updates[n]? = some update) : s'.updates[n]? = some update := by
  obtain ⟨more, appended, _⟩ := h.updates
  rw [appended, List.getElem?_append_left (by
    rw [List.getElem?_eq_some_iff] at stored
    exact stored.1), stored]

theorem getElem?_actuations (h : Advance layout mine s s') {n : Nat} {entry : LogEntry}
    (stored : s.actuations[n]? = some entry) : s'.actuations[n]? = some entry := by
  obtain ⟨more, appended, _⟩ := h.log
  rw [appended, List.getElem?_append_left (by
    rw [List.getElem?_eq_some_iff] at stored
    exact stored.1), stored]

theorem unlogged (h : Advance layout mine s s') {t : Nat} (others : ¬ mine (t, none))
    (absent : ∀ entry ∈ s.actuations, entry.ticket ≠ t) : ∀ entry ∈ s'.actuations, entry.ticket ≠ t := by
  obtain ⟨more, appended, owners⟩ := h.log
  rw [appended]
  intro entry member same
  rcases List.mem_append.mp member with old | new
  · exact absent entry old same
  · exact others (same ▸ owners entry new)

theorem not_mem_tickets (h : Advance layout mine s s') {t : Nat} (others : ∀ patch, ¬ mine (t, some patch)) (absent : t ∉ s.tickets) :
    t ∉ s'.tickets := by
  obtain ⟨more, appended, tags⟩ := h.updates
  rw [Redis.tickets, appended, List.map_append, List.mem_append, not_or]
  refine ⟨absent, fun member => ?_⟩
  obtain ⟨update, listed, rfl⟩ := List.mem_map.mp member
  exact others update.2 (tags update listed)

end Advance

section

variable [PyText]

/-- The stored truth value has been the truth value from the stored version on. -/
def EntryOk (patches : List Members) (expr : Str) (entry : Entry) : Prop :=
  entry.version ≤ patches.length ∧
    ∀ n, entry.version ≤ n → n ≤ patches.length → truth expr (atVersion patches n).context = .ok entry.truth

/-- Every registered predicate has a correct entry. -/
def EntriesOk (patches : List Members) (preds : Dict Str Entry) : Prop :=
  ∀ expr entry, preds.get expr = some entry → EntryOk patches expr entry

/-- An authorizing entry: its version, and what the commit compared at that version. -/
structure GrantOk (patches : List Members) (record : Members) (g : Grant) : Prop where
  id : record.get "intent_id".toList = some (.str g.request.intentId)
  stamp : ∃ v, record.get "commit_version".toList = some v ∧ (g.version < 10 ^ 14 → v = .int g.version)
  version : g.version ≤ patches.length
  preds : EntriesOk (patches.take g.version) g.preds
  expected : g.request.expected = g.request.observed (atVersion patches g.version).pathVersions g.preds

/-- The log and the set of committed ids agree with each other and with the history. -/
structure LogOk (patches : List Members) (actuations : List LogEntry) (committed : List Str) : Prop where
  authorizing : ∀ entry ∈ actuations, ∀ g, entry.grant = some g → GrantOk patches entry.record g
  tombstones : ∀ entry ∈ actuations, entry.grant = none → entry.record.get "commit_version".toList = none
  once : ((grants actuations).map fun g => g.request.intentId).Nodup
  committed : ∀ id, id ∈ committed ↔ ∃ g ∈ grants actuations, g.request.intentId = id
  ordered : (grants actuations).Pairwise fun g g' => g.version ≤ g'.version

/-- The sets of a root hold exactly the registered predicates under it. -/
def Redis.Indexed (s : Redis) : Prop := ∀ r e, e ∈ s.predRoots r ↔ s.preds.contains e = true ∧ exprRoot e = r

structure StoreInv (layout : Layout) (faultless : Prop) (s : Redis) : Prop where
  wf : ∀ patch ∈ s.patches, patch.WF
  plain : layout = .shard → ∀ patch ∈ s.patches, PlainKeys patch
  content : s.Content layout
  entries : EntriesOk s.patches (s.registry layout)
  index : layout ≠ .document → s.Indexed
  once : faultless → s.tickets.Nodup
  log : LogOk s.patches s.actuations s.committed

/-! ### Entries of predicates -/

theorem EntryOk.now {patches : List Members} {expr : Str} {entry : Entry} (h : EntryOk patches expr entry) :
    truth expr (history patches).context = .ok entry.truth := by
  have last := h.2 patches.length h.1 (Nat.le_refl _)
  rwa [atVersion_length] at last

theorem EntriesOk.registry {patches : List Members} {preds : Dict Str Entry} (h : EntriesOk patches preds) :
    Registry (history patches).context preds := fun expr entry stored => (h expr entry stored).now

/-- An entry that follows the truth value through one more patch. -/
theorem EntryOk.follows {patches : List Members} {patch : Members} {expr : Str} {old new : Entry} {value : Bool}
    (h : EntryOk patches expr old) (evaluated : truth expr (history (patches ++ [patch])).context = .ok value)
    (follows : old.Follows new (patches.length + 1) value) : EntryOk (patches ++ [patch]) expr new := by
  have length : (patches ++ [patch]).length = patches.length + 1 := by simp
  have past : ∀ n, n ≤ patches.length → atVersion (patches ++ [patch]) n = atVersion patches n := fun n bound =>
    atVersion_append bound
  have last : atVersion (patches ++ [patch]) (patches.length + 1) = history (patches ++ [patch]) := by
    rw [← length, atVersion_length]
  by_cases same : value = old.truth
  · have version : new.version = old.version := by rw [follows.version, if_pos same]
    have before := h.1
    refine ⟨by omega, fun n after bound => ?_⟩
    rw [follows.truth]
    by_cases newest : n = patches.length + 1
    · rw [newest, last, evaluated]
    · rw [past n (by omega), h.2 n (by omega) (by omega), same]
  · have version : new.version = patches.length + 1 := by rw [follows.version, if_neg same]
    refine ⟨by omega, fun n after bound => ?_⟩
    obtain rfl : n = patches.length + 1 := by omega
    rw [last, evaluated, follows.truth]

/-- A new registration starts at the present version. -/
theorem entryOk_new {patches : List Members} {expr : Str} {value : Bool} {now : ℚ}
    (evaluated : truth expr (history patches).context = .ok value) :
    EntryOk patches expr ⟨patches.length, value, now⟩ := by
  refine ⟨Nat.le_refl _, fun n after bound => ?_⟩
  obtain rfl : n = patches.length := Nat.le_antisymm bound after
  rw [atVersion_length, evaluated]

theorem EntryOk.refresh {patches : List Members} {expr : Str} {entry : Entry} (h : EntryOk patches expr entry)
    (now : ℚ) : EntryOk patches expr { entry with registeredAt := now } := h

/-! ### The log -/

theorem GrantOk.append {patches more : List Members} {record : Members} {g : Grant} (h : GrantOk patches record g) :
    GrantOk (patches ++ more) record g := by
  obtain ⟨id, stamp, version, preds, expected⟩ := h
  refine ⟨id, stamp, by rw [List.length_append]; omega, ?_, by rw [atVersion_append version]; exact expected⟩
  rw [List.take_append_of_le_length version]
  exact preds

theorem LogOk.append {patches more : List Members} {actuations : List LogEntry} {committed : List Str}
    (h : LogOk patches actuations committed) : LogOk (patches ++ more) actuations committed :=
  ⟨fun entry member g granted => (h.authorizing entry member g granted).append, h.tombstones, h.once, h.committed, h.ordered⟩

theorem logOk_nil : LogOk [] [] [] :=
  ⟨fun _ member => absurd member List.not_mem_nil, fun _ member => absurd member List.not_mem_nil, List.nodup_nil,
    fun _ => ⟨fun member => absurd member List.not_mem_nil, fun ⟨_, member, _⟩ => absurd member List.not_mem_nil⟩, List.Pairwise.nil⟩

/-- A record that authorizes nothing. -/
theorem LogOk.tombstone {patches : List Members} {actuations : List LogEntry} {committed : List Str}
    (h : LogOk patches actuations committed) (ticket : Nat) (tombstone : Tombstone) :
    LogOk patches (actuations ++ [⟨tombstone.record, ticket, none⟩]) committed := by
  have same : grants (actuations ++ [⟨tombstone.record, ticket, none⟩]) = grants actuations := by
    rw [grants_append]
    exact List.append_nil _
  refine ⟨fun entry member g granted => ?_, fun entry member none => ?_, by rw [same]; exact h.once,
    by rw [same]; exact h.committed, by rw [same]; exact h.ordered⟩
  · rcases List.mem_append.mp member with old | new
    · exact h.authorizing entry old g granted
    · rw [List.mem_singleton.mp new] at granted
      cases granted
  · rcases List.mem_append.mp member with old | new
    · exact h.tombstones entry old none
    · rw [List.mem_singleton.mp new]
      exact tombstone.unauthorized

/-- A commit at the present version, of an id that has none. -/
theorem LogOk.commit {patches : List Members} {actuations : List LogEntry} {committed : List Str}
    (h : LogOk patches actuations committed) {record : Members} {g : Grant} (ok : GrantOk patches record g)
    (present : g.version = patches.length) (new : g.request.intentId ∉ committed) (ticket : Nat) :
    LogOk patches (actuations ++ [⟨record, ticket, some g⟩]) (committed ++ [g.request.intentId]) := by
  have appended : grants (actuations ++ [⟨record, ticket, some g⟩]) = grants actuations ++ [g] := grants_append _ _
  refine ⟨fun entry member g' granted => ?_, fun entry member none => ?_, ?_, fun id => ?_, ?_⟩
  · rcases List.mem_append.mp member with old | last
    · exact h.authorizing entry old g' granted
    · rw [List.mem_singleton.mp last] at granted ⊢
      cases granted
      exact ok
  · rcases List.mem_append.mp member with old | last
    · exact h.tombstones entry old none
    · rw [List.mem_singleton.mp last] at none
      cases none
  · rw [appended, List.map_append, List.nodup_append]
    refine ⟨h.once, List.nodup_singleton _, fun id old id' last same => ?_⟩
    rw [List.map_singleton, List.mem_singleton] at last
    obtain ⟨g', member, rfl⟩ := List.mem_map.mp old
    exact new ((h.committed _).mpr ⟨g', member, same.trans last⟩)
  · rw [appended, List.mem_append, List.mem_singleton, h.committed id]
    constructor
    · rintro (⟨g', member, same⟩ | rfl)
      · exact ⟨g', List.mem_append_left _ member, same⟩
      · exact ⟨g, List.mem_append_right _ List.mem_cons_self, rfl⟩
    · rintro ⟨g', member, same⟩
      rcases List.mem_append.mp member with old | last
      · exact Or.inl ⟨g', old, same⟩
      · rw [List.mem_singleton.mp last] at same
        exact Or.inr same.symm
  · rw [appended, List.pairwise_append]
    refine ⟨h.ordered, List.pairwise_singleton _ _, fun g' old g'' last => ?_⟩
    rw [List.mem_singleton.mp last, present]
    obtain ⟨entry, member, granted⟩ := List.mem_filterMap.mp old
    exact (h.authorizing entry member g' granted).version

/-! ### The discipline -/

/-- The discipline of a layout. -/
def storeDiscipline (layout : Layout) (faultless : Prop) : Discipline redis StoreJob where
  Inv := StoreInv layout faultless
  Step t job := Advance layout fun effect => effect.1 = t ∧ ∀ patch, effect.2 = some patch → job.patch = some patch
  Rely t := Advance layout fun effect => effect.1 ≠ t
  step_refl _ _ s := Advance.refl s
  rely_refl _ s := Advance.refl s
  rely_trans _ _ _ _ first second := first.trans second
  rely_of_step _ _ _ _ _ ne step := Advance.mono step fun _ same => same.1 ▸ ne

end

end Xair
