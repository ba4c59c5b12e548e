import Xair.Store.Calls

/-!
# The commit script

What the script observes in each layout is the version that the store without a
server compares, and what it appends keeps the log in agreement with the history.
-/

namespace Xair

open Library

/-! ### Observations -/

theorem luaReadSet_le_iff {paths : List Str} {items : List (Str × Nat)} {observed n : Nat} :
    luaReadSet paths items observed ≤ n ↔
      observed ≤ n ∧ ∀ item ∈ items, paths.any (related item.1) = true → item.2 ≤ n := by
  rw [luaReadSet_eq, Nat.max_le, maxOf_le_iff]
  simp only [List.mem_map, List.mem_filter]
  constructor
  · rintro ⟨start, bound⟩
    exact ⟨start, fun item member covered => bound item.2 ⟨item, ⟨member, covered⟩, rfl⟩⟩
  · rintro ⟨start, bound⟩
    refine ⟨start, ?_⟩
    rintro _ ⟨item, ⟨member, covered⟩, rfl⟩
    exact bound item member covered

namespace Redis

/-- The root-by-root loop sees every path version under the roots of the paths. -/
theorem shardReadSet_le_iff {s : Redis} {paths rest seen : List Str} {observed result n : Nat}
    (h : s.shardReadSet paths rest seen observed = some result) :
    result ≤ n ↔ observed ≤ n ∧ ∀ r ∈ rest, rootOf r ∉ seen → ∀ entry, s.roots.get (rootOf r) = some entry →
      ∀ item ∈ entry.pathVersions.items, paths.any (related item.1) = true → item.2 ≤ n := by
  induction rest generalizing seen observed with
  | nil =>
    cases h
    simp
  | cons r rest ih =>
    rw [shardReadSet, luaRoot_eq] at h
    by_cases rootless : rootOf r = []
    · simp [rootless] at h
    simp only [if_neg rootless] at h
    by_cases known : rootOf r ∈ seen
    · rw [if_pos known] at h
      rw [ih h, List.forall_mem_cons]
      simp [known]
    rw [if_neg known] at h
    -- the later paths of the root add nothing to what its entry has given
    have others : ∀ r' ∈ rest, rootOf r' ∉ seen → rootOf r' = rootOf r ∨ rootOf r' ∉ rootOf r :: seen := by
      intro r' _ new
      by_cases same : rootOf r' = rootOf r
      · exact Or.inl same
      · exact Or.inr (by simp [same, new])
    rw [ih h, List.forall_mem_cons]
    cases stored : s.roots.get (rootOf r) with
    | none =>
      constructor
      · rintro ⟨start, later⟩
        refine ⟨start, fun _ entry found => ?_, fun r' member new entry found => ?_⟩
        · cases found
        · rcases others r' member new with same | fresh
          · rw [same, stored] at found
            cases found
          · exact later r' member fresh entry found
      · rintro ⟨start, _, later⟩
        exact ⟨start, fun r' member new => later r' member fun old => new (List.mem_cons_of_mem _ old)⟩
    | some entry =>
      simp only [luaReadSet_le_iff]
      constructor
      · rintro ⟨⟨start, here⟩, later⟩
        refine ⟨start, fun _ entry' found => ?_, fun r' member new entry' found => ?_⟩
        · cases found
          exact here
        · rcases others r' member new with same | fresh
          · rw [same, stored] at found
            cases found
            exact here
          · exact later r' member fresh entry' found
      · rintro ⟨start, here, later⟩
        exact ⟨⟨start, here known entry rfl⟩, fun r' member new =>
          later r' member fun old => new (List.mem_cons_of_mem _ old)⟩

/-- The loop fails at a path without a first segment, and only there. -/
theorem shardReadSet_eq_none {s : Redis} {paths rest seen : List Str} {observed : Nat} :
    s.shardReadSet paths rest seen observed = none ↔ ∃ r ∈ rest, rootOf r = [] := by
  induction rest generalizing seen observed with
  | nil => simp [shardReadSet]
  | cons r rest ih =>
    rw [shardReadSet, luaRoot_eq, List.exists_mem_cons_iff]
    by_cases rootless : rootOf r = []
    · simp [rootless]
    simp only [if_neg rootless]
    rw [or_iff_right rootless]
    split
    · exact ih
    · exact ih

end Redis

/-- A server shows a version, path versions and registered predicates. -/
structure Redis.Shows (layout : Layout) (s : Redis) (version : Nat) (pathVersions : Dict Str Nat)
    (preds : Dict Str Entry) : Prop where
  version : (s.scriptVersions layout).1 = version
  whole : layout ≠ .shard → ∀ p, (decode s.doc).pathVersions.get p = pathVersions.get p
  sharded : layout = .shard → ∀ r p, (s.roots.get r).bind (fun entry => entry.pathVersions.get p) =
    if rootOf p = r then pathVersions.get p else none
  preds : ∀ e, (s.registry layout).get e = preds.get e

theorem Redis.scriptPreds_eq (layout : Layout) (s : Redis) : s.scriptPreds layout = s.registry layout := by
  cases layout with
  | document =>
    simp only [scriptPreds, registry, decodePreds]
    cases s.doc <;> rfl
  | hash => rfl
  | shard => rfl

theorem Redis.scriptVersions_whole {layout : Layout} (whole : layout ≠ .shard) (s : Redis) :
    s.scriptVersions layout = ((decode s.doc).version, (decode s.doc).pathVersions.items) := by
  cases layout with
  | document =>
    simp only [scriptVersions, decode]
    cases s.doc <;> rfl
  | hash =>
    simp only [scriptVersions, decode]
    cases s.doc <;> rfl
  | shard => exact absurd rfl whole

theorem predicateVersion_congr {preds preds' : Dict Str Entry} (same : ∀ e, preds.get e = preds'.get e)
    (exprs : List Str) : predicateVersion preds exprs = predicateVersion preds' exprs := by
  have loop : ∀ out, predicateVersion.loop preds out exprs = predicateVersion.loop preds' out exprs := by
    induction exprs with
    | nil => exact fun _ => rfl
    | cons e exprs ih =>
      intro out
      simp only [predicateVersion.loop, same e, ih]
  exact loop 0

namespace Redis.Shows

variable {layout : Layout} {s : Redis} {version : Nat} {pathVersions : Dict Str Nat} {preds : Dict Str Entry}

theorem readSet_whole (shown : s.Shows layout version pathVersions preds) (whole : layout ≠ .shard) (paths : List Str) :
    luaReadSet paths (s.scriptVersions layout).2 0 = readSetVersion pathVersions paths := by
  have same := shown.whole whole
  apply le_antisymm
  · rw [luaReadSet_le_iff, s.scriptVersions_whole whole]
    refine ⟨Nat.zero_le _, ?_⟩
    rintro ⟨p, v⟩ member covered
    obtain ⟨r, listed, rel⟩ := List.any_eq_true.mp covered
    exact le_readSetVersion ((same p).symm.trans (Dict.mem_items.mp member)) listed rel
  · rw [readSetVersion_le_iff]
    rintro p v stored ⟨r, listed, rel⟩
    have bound := luaReadSet_le_iff.mp (le_refl (luaReadSet paths (s.scriptVersions layout).2 0))
    rw [s.scriptVersions_whole whole] at bound ⊢
    exact bound.2 (p, v) (Dict.mem_items.mpr ((same p).trans stored)) (List.any_eq_true.mpr ⟨r, listed, rel⟩)

theorem readSet_shard (shown : s.Shows layout version pathVersions preds) (shard : layout = .shard) {paths : List Str}
    {result : Nat} (h : s.shardReadSet paths paths [] 0 = some result) : result = readSetVersion pathVersions paths := by
  have sharded := shown.sharded shard
  apply le_antisymm
  · rw [Redis.shardReadSet_le_iff h]
    refine ⟨Nat.zero_le _, fun r listed _ entry found => ?_⟩
    rintro ⟨p, v⟩ member covered
    obtain ⟨r', listed', rel⟩ := List.any_eq_true.mp covered
    have stored := sharded (rootOf r) p
    rw [found, Option.bind_some, Dict.mem_items.mp member] at stored
    split at stored
    · exact le_readSetVersion stored.symm listed' rel
    · cases stored
  · rw [readSetVersion_le_iff]
    rintro p v stored ⟨r, listed, rel⟩
    have root := rootOf_eq_of_related rel
    have inEntry := sharded (rootOf r) p
    rw [if_pos root, stored] at inEntry
    obtain ⟨entry, found, value⟩ := Option.bind_eq_some_iff.mp inEntry
    have bound := (Redis.shardReadSet_le_iff (n := result) h).mp le_rfl
    exact bound.2 r listed List.not_mem_nil entry found (p, v) (Dict.mem_items.mpr value)
      (List.any_eq_true.mpr ⟨r, listed, rel⟩)

/-- What the script observes is the version the store without a server compares. -/
theorem observed (shown : s.Shows layout version pathVersions preds) {req : CommitRequest} {result : Int}
    (h : s.scriptObserved layout req = some result) : result = req.observed pathVersions preds := by
  unfold Redis.scriptObserved at h
  unfold CommitRequest.observed
  cases scope : req.scope with
  | truth =>
    simp only [scope, Option.some.injEq] at h ⊢
    rw [← h, luaTruth_eq, s.scriptPreds_eq]
    exact predicateVersion_congr shown.preds req.keys
  | readset =>
    simp only [scope] at h ⊢
    by_cases shard : layout = .shard
    · subst shard
      obtain ⟨result', read, rfl⟩ := Option.map_eq_some_iff.mp h
      exact congrArg Int.ofNat (shown.readSet_shard rfl read)
    · have whole := shown.readSet_whole shard req.keys
      cases layout with
      | shard => exact absurd rfl shard
      | document =>
        cases h
        exact congrArg Int.ofNat whole
      | hash =>
        cases h
        exact congrArg Int.ofNat whole

end Redis.Shows

/-- The script fails while it observes at a path without a first segment, and only there. -/
theorem Redis.scriptObserved_eq_none {layout : Layout} {req : CommitRequest} {s : Redis} :
    s.scriptObserved layout req = none ↔ layout = .shard ∧ req.scope = .readset ∧ ∃ p ∈ req.keys, rootOf p = [] := by
  unfold scriptObserved
  cases scope : req.scope with
  | truth => simp
  | readset =>
    cases layout with
    | shard => simp [shardReadSet_eq_none]
    | document => simp
    | hash => simp

/-! ### The record -/

theorem Members.get_set_cjson {record encoded : Members} {key text : Str}
    (h : (record.set key (.str text)).cjson = some encoded) : encoded.get key = some (.str text) := by
  have stored : (record.set key (.str text)).get key = some (.str text) := by rw [Members.get_set, if_pos rfl]
  obtain ⟨w, same, value⟩ := Members.get_cjson h stored
  cases same
  exact value

theorem get_scriptRecord {req : CommitRequest} {version : Nat} {now age : ℚ} {record : Members}
    (h : scriptRecord req version now age = some record) :
    record.get "intent_id".toList = some (.str req.intentId) ∧
      record.get "commit_version".toList = some (luaNumber version) := by
  obtain ⟨encoded, decoded, rfl⟩ := Option.map_eq_some_iff.mp h
  simp only [Members.get_set]
  exact ⟨Members.get_set_cjson decoded, rfl⟩

/-- One more entry of the log. -/
theorem Advance.logged {layout : Layout} {mine : Effect → Prop} {s : Redis} {entry : LogEntry} (own : mine (entry.ticket, none))
    {committed : List Str} :
    Advance layout mine s { s with actuations := s.actuations ++ [entry], committed := committed } := by
  refine ⟨⟨[], (List.append_nil _).symm, by simp⟩, ⟨[entry], rfl, ?_⟩, Guarded.of_eq rfl rfl, Guarded.of_eq rfl rfl,
    fun _ => Guarded.of_eq rfl rfl⟩
  intro other member
  rw [List.mem_singleton.mp member]
  exact own

section

variable [PyText]

/-- The stored state shows the history. -/
theorem StoreInv.shown {layout : Layout} {faultless : Prop} {s : Redis} (inv : StoreInv layout faultless s) :
    s.Shows layout s.patches.length (history s.patches).pathVersions (s.registry layout) := by
  refine ⟨?_, fun whole p => by rw [inv.decode_doc whole], fun shard => ?_, fun _ => rfl⟩
  · by_cases shard : layout = .shard
    · subst shard
      have content := inv.content
      exact content.version
    · rw [s.scriptVersions_whole shard, inv.decode_doc shard, history_version]
  · subst shard
    have content := inv.content
    exact content.pathVersions

/-- The script keeps the discipline: at most one entry is appended, and it is the call's own. -/
theorem StoreInv.commitScript {layout : Layout} {faultless : Prop} {s : Redis} (inv : StoreInv layout faultless s)
    (ticket : Nat) (req : CommitRequest) {mine : Effect → Prop} (own : mine (ticket, none)) :
    StoreInv layout faultless (s.commitScript layout ticket req).2 ∧
      Advance layout mine s (s.commitScript layout ticket req).2 := by
  rcases s.commitScript_cases layout ticket req with ⟨same, _⟩ | ⟨record, observed, new, seen, matched, _, encoded, _, result⟩
  · rw [same]
    exact ⟨inv, Advance.refl s⟩
  rw [result]
  have shown := inv.shown
  have version := shown.version
  obtain ⟨id, stamp⟩ := get_scriptRecord encoded
  have ok : GrantOk s.patches record ⟨req, (s.scriptVersions layout).1, s.scriptPreds layout⟩ := by
    refine ⟨id, ⟨_, stamp, fun small => luaNumber_natCast small⟩, le_of_eq version, ?_, ?_⟩
    · rw [version, List.take_length, s.scriptPreds_eq]
      exact inv.entries
    · rw [version, atVersion_length, s.scriptPreds_eq, ← matched]
      exact shown.observed seen
  exact ⟨inv.congr (s := s) rfl rfl (inv.log.commit ok version new ticket), Advance.logged own⟩

/-- So does the append of a record that authorizes nothing. -/
theorem StoreInv.rpushActuation {layout : Layout} {faultless : Prop} {s : Redis} (inv : StoreInv layout faultless s)
    (ticket : Nat) (tombstone : Tombstone) {mine : Effect → Prop} (own : mine (ticket, none)) :
    StoreInv layout faultless (Redis.exec (.rpushActuation ticket tombstone) s).2 ∧
      Advance layout mine s (Redis.exec (.rpushActuation ticket tombstone) s).2 := by
  exact ⟨inv.congr (s := s) rfl rfl (inv.log.tombstone ticket tombstone), Advance.logged own⟩

end

end Xair
