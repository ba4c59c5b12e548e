import Xair.Library.Solo
import Xair.Store.Memory
import Xair.Store.Shard

/-!
# An update by itself

What one update does in each layout when the server answers and nobody else writes:
the version is one more, the context is merged and the connection stays. The shard
layout does so for every patch that names a root.
-/

namespace Xair

open Library

/-! ### The store while only its clock moves -/

def Redis.atTime (s : Redis) (now : ℚ) : Redis := { s with clock := now }

/-- Time passes. -/
def Redis.Ticks (s s' : Redis) : Prop := ∃ now, s' = s.atTime now

theorem Redis.ticks_refl (s : Redis) : s.Ticks s := ⟨s.clock, rfl⟩

/-- The call ends so, whatever time passes between its commands. -/
abbrev Alone {α : Type} (m : StoreM α) (l : StoreObject) (s : Redis) (ok : α → StoreObject → Redis → Prop)
    (raised : Fault → StoreObject → Redis → Prop) : Prop :=
  Method.Served (S := redis) Redis.Ticks m l s ok raised

section

variable {α β : Type} {l : StoreObject} {s : Redis} {now : ℚ} {ok : α → StoreObject → Redis → Prop}
  {raised : Fault → StoreObject → Redis → Prop}

theorem alone_ask {c : Command} {fault : Failure → Fault} {ok : c.Reply → StoreObject → Redis → Prop}
    (reads : ∀ s', (Redis.exec c s').2 = s') (answered : ∀ now, ok (Redis.exec c (s.atTime now)).1 l (s.atTime now)) :
    Alone (Method.command fault (show redis.Command from c) : StoreM c.Reply) l (s.atTime now) ok raised := by
  refine Method.served_command ?_
  rintro _ ⟨now', rfl⟩
  change ok (Redis.exec c (s.atTime now')).1 l (Redis.exec c (s.atTime now')).2
  rw [reads]
  exact answered now'

theorem alone_ask_bind {c : Command} {fault : Failure → Fault} {f : c.Reply → StoreM α}
    (reads : ∀ s', (Redis.exec c s').2 = s')
    (next : ∀ now, Alone (f (Redis.exec c (s.atTime now)).1) l (s.atTime now) ok raised) :
    Alone ((Method.command fault (show redis.Command from c) : StoreM c.Reply) >>= f) l (s.atTime now) ok raised :=
  Method.served_bind (alone_ask reads next)

theorem Redis.unchanged_atTime (s : Redis) (keys : List WatchKey) (now : ℚ) :
    (s.atTime now).unchanged (keys.map fun k => (k, s.revs k)) = true := by
  simp [Redis.unchanged, Redis.atTime]

/-- A transaction that watches what nobody else writes is accepted. -/
theorem alone_execute_bind (keys : List WatchKey) {writes : List Write} {patch : Option (Nat × Members)} {f : PUnit → StoreM α}
    (next : ∀ now, Alone (f ⟨⟩) l ((s.atTime now).commit writes patch) ok raised) :
    Alone (execute (keys.map fun k => (k, s.revs k)) writes patch >>= f) l (s.atTime now) ok raised := by
  refine Method.served_bind (Method.served_bind (Method.served_command ?_))
  rintro _ ⟨now', rfl⟩
  have accepted := s.unchanged_atTime keys now'
  change Alone (if (s.atTime now').unchanged (keys.map fun k => (k, s.revs k)) then pure () else throw Fault.watchError) l
    (if (s.atTime now').unchanged (keys.map fun k => (k, s.revs k)) then (s.atTime now').commit writes patch else s.atTime now')
    (fun b l' s' => Alone (f b) l' s' ok raised) raised
  rw [accepted]
  exact next now'

theorem alone_nonEmpty_bind {γ : Type} {keys : List γ} {m : StoreM β} {f : β → StoreM α} (some_ : keys ≠ [])
    (next : Alone (m >>= f) l s ok raised) : Alone (nonEmpty keys m >>= f) l s ok raised := by
  rw [nonEmpty, if_neg (by rwa [List.isEmpty_iff])]
  exact next

/-- The first attempt succeeds. -/
theorem alone_retry {attempt : StoreM α} (n : Nat) (h : Alone attempt l s ok fun _ _ _ => False) :
    Alone (retry attempt (n + 1)) l s ok raised :=
  Method.served_tryCatch (h.imp (fun _ _ _ => id) fun _ _ _ never => never.elim)

end

/-! ### What an update leaves -/

/-- The version is one more, the context is merged. -/
structure Snapshot.Advances (patch : Members) (old new : Snapshot) (version : Nat) : Prop where
  returned : version = old.version + 1
  version : new.version = version
  context : ∀ key, new.context.get key = (deepMerge old.context patch).get key

theorem Snapshot.advances_merge (s : Snapshot) (patch : Members) : s.Advances patch (s.merge patch) (s.version + 1) :=
  ⟨rfl, rfl, fun _ => rfl⟩

/-- The update is committed and its version returned, and the client is kept. -/
structure Updated (layout : Layout) (ticket : Nat) (patch : Members) (s : Redis) (version : Nat) (l' : StoreObject)
    (s' : Redis) : Prop where
  advances : (s.stored layout).Advances patch (s'.stored layout) version
  committed : s'.updates = s.updates ++ [(ticket, patch)]
  connected : l'.connected = true

/-- The changed entries are not part of the snapshot. -/
theorem Redis.snapshotPart_commit (s : Redis) (first : List Write) (updates : List (Str × Entry)) (patch : Option (Nat × Members)) :
    (s.commit (first ++ hsetPredsIf updates) patch).snapshotPart = (s.commit first patch).snapshotPart := by
  rw [Redis.commit, Redis.commit, List.foldl_append, hsetPredsIf]
  split <;> rfl

theorem Redis.stored_congr {s s' : Redis} (layout : Layout) (same : s'.snapshotPart = s.snapshotPart) :
    s'.stored layout = s.stored layout := by
  obtain ⟨doc, rest⟩ := Prod.mk.inj same
  obtain ⟨ver, rest⟩ := Prod.mk.inj rest
  cases layout with
  | document => exact congrArg decode doc
  | hash => exact congrArg decode doc
  | shard => rw [Redis.stored, Redis.stored, ver, (Prod.mk.inj rest).1]

/-- `_ensure_client` finds a server that answers. -/
theorem alone_ensureClient_bind {α : Type} {f : PUnit → StoreM α} {l : StoreObject} {s : Redis}
    {ok : α → StoreObject → Redis → Prop} {raised : Fault → StoreObject → Redis → Prop}
    (next : ∀ now, Alone (f ⟨⟩) { l with connected := true } (s.atTime now) ok raised) :
    Alone (ensureClient >>= f) l s ok raised := by
  change Alone (ensureClient >>= f) l (s.atTime s.clock) ok raised
  refine Method.served_bind (Method.served_get_bind (Method.served_ite (fun _ => ?_) fun connected => ?_))
  · exact Method.served_tryCatch (alone_ask_bind (fun _ => rfl) fun now => next now)
  · have same : { l with connected := true } = l := by
      rw [← Bool.eq_true_of_not_eq_false connected]
    have here := next s.clock
    rw [same] at here
    exact Method.served_pure here

/-! ### The candidates -/

theorem alone_members (r : Str) (v : Option Nat) {l : StoreObject} {s : Redis} {now : ℚ} (connected : l.connected = true)
    {raised : Fault → StoreObject → Redis → Prop} :
    Alone (members r v) l (s.atTime now) (fun _ l' s' => l'.connected = true ∧ s.Ticks s') raised := by
  refine Method.served_get_bind ?_
  dsimp only
  split
  · exact Method.served_pure ⟨connected, now, rfl⟩
  · exact alone_ask_bind (fun _ => rfl) fun now => Method.served_modify_bind (Method.served_pure ⟨connected, now, rfl⟩)

theorem alone_candidates {roots : List Str} (some_ : roots ≠ []) {l : StoreObject} {s : Redis} {now : ℚ}
    (connected : l.connected = true) {raised : Fault → StoreObject → Redis → Prop} :
    Alone (candidates roots) l (s.atTime now) (fun _ l' s' => l'.connected = true ∧ s.Ticks s') raised := by
  have loop : ∀ (todo : List (Str × Option Nat)) (l : StoreObject) (now : ℚ), l.connected = true →
      Alone (candidatesLoop todo) l (s.atTime now) (fun _ l' s' => l'.connected = true ∧ s.Ticks s') raised := by
    intro todo
    induction todo with
    | nil => exact fun l now connected => Method.served_pure ⟨connected, now, rfl⟩
    | cons item rest ih =>
      intro l now connected
      refine Method.served_bind ((alone_members item.1 item.2 connected).imp (fun exprs l' s' ends => ?_) fun _ _ _ => id)
      obtain ⟨connected', now', rfl⟩ := ends
      exact Method.served_bind ((ih l' now' connected').imp (fun _ _ _ ends => Method.served_pure ends) fun _ _ _ => id)
  have named : sortedSet roots ≠ [] := by
    obtain ⟨r, member⟩ := List.exists_mem_of_ne_nil roots some_
    exact List.ne_nil_of_mem (mem_sortedSet.mpr member)
  exact alone_nonEmpty_bind named (alone_ask_bind (fun _ => rfl) fun now => loop _ l now connected)

theorem roots_ofPaths_ne_nil {changed : List Str} (some_ : changed ≠ []) : (Changed.ofPaths changed).roots ≠ [] := by
  obtain ⟨path, member⟩ := List.exists_mem_of_ne_nil changed some_
  exact List.ne_nil_of_mem (Changed.mem_roots.mpr ⟨path, member, rfl⟩)

/-! ### The roots of the shard layout -/

theorem get_stored_shard (s : Redis) (r : Str) :
    (s.stored .shard).context.get r = (s.roots.get r).map RootEntry.subtree := by
  refine (get_loadRoots_fst (f := fun r => (s.roots.get r).map RootEntry.subtree) (fun item member => ?_) r).trans ?_
  · rw [Dict.mem_items.mp member]
    rfl
  · split
    · rfl
    · rename_i absent
      rw [show s.roots.get r = none from lookup_eq_none.mpr absent]
      rfl

/-- The roots a patch names, as they are stored. -/
theorem get_loadRoots_present (s : Redis) {roots : List Str} {r : Str} (member : r ∈ roots) :
    (loadRoots (present roots (roots.map s.roots.get))).1.get r = (s.stored .shard).context.get r := by
  rw [get_stored_shard]
  refine (get_loadRoots_fst (f := fun r => (s.roots.get r).map RootEntry.subtree) (fun item listed => ?_) r).trans ?_
  · rw [(mem_present.mp listed).2]
    rfl
  · cases stored : s.roots.get r with
    | none =>
      split
      · rfl
      · rfl
    | some entry => exact if_pos (List.mem_map.mpr ⟨(r, entry), mem_present.mpr ⟨member, stored⟩, rfl⟩)

/-- Merging the named roots is merging the whole context. -/
theorem get_stored_hsetRoots {s c : Redis} {patch : Members} (wf : patch.WF) {roots : List Str}
    (named : ∀ r, r ∈ roots ↔ r ∈ patch.keys) {part : Members} (loaded : ∀ r ∈ roots, part.get r = (s.stored .shard).context.get r)
    (pathVersions : Dict Str Nat) (written : c.roots = s.roots.insertAll (shardEntries (deepMerge part patch) pathVersions roots))
    (r : Str) : (c.stored .shard).context.get r = (deepMerge (s.stored .shard).context patch).get r := by
  rw [get_stored_shard, written]
  rcases get_insertAll_fields s.roots pathVersions (fun r member => get_deepMerge_ne_none wf ((named r).mp member) part) r with
    ⟨member, entry, stored, merged, _⟩ | ⟨other, old⟩
  · rw [stored, ← get_deepMerge_congr wf (loaded r member), merged]
    rfl
  · have absent : patch.get r = none := Members.get_eq_none.mpr fun key => other ((named r).mpr key)
    rw [old, get_deepMerge_of_get_none absent, get_stored_shard]

theorem shardEntries_ne_nil {merged : Members} {pathVersions : Dict Str Nat} {roots : List Str} {r : Str} (member : r ∈ roots)
    (held : merged.get r ≠ none) : shardEntries merged pathVersions roots ≠ [] := by
  obtain ⟨subtree, found⟩ := Option.ne_none_iff_exists'.mp held
  exact List.ne_nil_of_mem (List.mem_filterMap.mpr ⟨r, member, by rw [found]; rfl⟩)

section

variable [PyText]

/-! ### Predicates that have a truth value -/

/-- The predicate has a truth value: on one context, and so on every other. -/
def HasTruth (expr : Str) : Prop := ∃ context value, truth expr context = .ok value

/-- Every registered predicate has a truth value, as a registration finds out before it stores one. -/
def Evaluable (preds : Dict Str Entry) : Prop := ∀ expr entry, preds.get expr = some entry → HasTruth expr

theorem HasTruth.on {expr : Str} (h : HasTruth expr) (context : Members) : ∃ value, truth expr context = .ok value := by
  obtain ⟨_, _, evaluated⟩ := h
  exact truth_isOk expr evaluated context

theorem EntriesOk.evaluable {patches : List Members} {preds : Dict Str Entry} (h : EntriesOk patches preds) : Evaluable preds :=
  fun expr entry stored => ⟨_, _, (h expr entry stored).now⟩

theorem StoreInv.evaluable {layout : Layout} {faultless : Prop} {s : Redis} (inv : StoreInv layout faultless s) :
    Evaluable (s.registry layout) :=
  inv.entries.evaluable

/-- A registration stores nothing else. -/
theorem evaluable_registrations {version : Nat} {context : Members} {now : ℚ} {preds : Dict Str Entry} {exprs : List Str}
    {new : List (Str × Entry)} (known : Evaluable preds) (registered : registrations version context now preds exprs = .ok new) :
    Evaluable (preds.insertAll new) := by
  intro expr entry stored
  rcases Dict.get_insertAll_cases stored with member | ⟨_, old⟩
  · have made := (registrations_spec registered).2 _ member
    cases before : preds.get expr with
    | some entry => exact known expr entry before
    | none =>
      rw [before, registration] at made
      cases evaluated : truth expr context with
      | error fault => rw [evaluated] at made; cases made
      | ok value => exact ⟨context, value, evaluated⟩
  · exact known expr entry old

theorem reEvaluate_ok {expr : Str} (h : HasTruth expr) (merged : Members) (version : Nat) (entry : Entry) :
    ∃ out, reEvaluate merged version expr entry = .ok out := by
  obtain ⟨value, evaluated⟩ := h.on merged
  obtain ⟨out, result, _⟩ := follows_reEvaluate version entry evaluated
  exact ⟨out, result⟩

theorem reEvaluateItems_ok (ch : Changed) (merged : Members) (version : Nat) {items : List (Str × Entry)}
    (h : ∀ item ∈ items, HasTruth item.1) (out : Dict Str Entry) :
    ∃ out', items.foldlM (reEvaluateItem ch merged version) out = .ok out' := by
  induction items generalizing out with
  | nil => exact ⟨out, rfl⟩
  | cons item items ih =>
    have first : ∃ mid, reEvaluateItem ch merged version out item = .ok mid := by
      rw [reEvaluateItem]
      split
      · obtain ⟨changed, result⟩ := reEvaluate_ok (h item List.mem_cons_self) merged version item.2
        exact ⟨_, by rw [result]; rfl⟩
      · exact ⟨out, rfl⟩
    obtain ⟨mid, first⟩ := first
    obtain ⟨out', later⟩ := ih (fun item' member => h item' (List.mem_cons_of_mem _ member)) mid
    exact ⟨out', by rw [List.foldlM_cons, first]; exact later⟩

theorem apply_ok {preds : Dict Str Entry} (h : Evaluable preds) (retention now : ℚ) (s : Snapshot) (patch : Members) :
    ∃ preds', apply retention now s patch preds = .ok (s.merge patch, preds') := by
  simp only [apply]
  split
  · exact ⟨_, rfl⟩
  · have known : ∀ item ∈ (preds.filter fun _ entry => decide (now - retention ≤ entry.registeredAt)).items,
        HasTruth item.1 := fun item member => by
      have stored := Dict.mem_items.mp member
      rw [Dict.get_filter, Option.filter_eq_some_iff] at stored
      exact h item.1 item.2 stored.1
    obtain ⟨out, result⟩ := reEvaluateItems_ok (.ofPaths (changedPaths s.context patch)) (s.merge patch).context
      (s.merge patch).version known _
    exact ⟨out, by rw [reEvaluateAll, result]; rfl⟩

theorem reEvaluateCandidates_ok (ch : Changed) (merged : Members) (version : Nat) {items : List (Str × Entry)}
    (h : ∀ item ∈ items, HasTruth item.1) : ∃ updates, reEvaluateCandidates ch merged version items = .ok updates := by
  induction items with
  | nil => exact ⟨[], rfl⟩
  | cons item items ih =>
    obtain ⟨later, rest⟩ := ih fun item' member => h item' (List.mem_cons_of_mem _ member)
    rw [reEvaluateCandidates]
    split
    · obtain ⟨changed, result⟩ := reEvaluate_ok (h item List.mem_cons_self) merged version item.2
      exact ⟨_, by rw [result, rest]; rfl⟩
    · exact ⟨later, rest⟩

/-! ### Document layout -/

theorem alone_updateDocument {cfg : StoreConfig} {ticket : Nat} {patch : Members} {l : StoreObject} {s : Redis} {now : ℚ}
    (known : Evaluable (decodePreds s.doc)) (connected : l.connected = true) :
    Alone (updateDocument cfg ticket patch) l (s.atTime now) (Updated .document ticket patch s) fun _ _ _ => False := by
  refine alone_retry 31 (alone_ask_bind (fun _ => rfl) fun _ => ?_)
  refine alone_ask_bind (fun _ => rfl) fun _ => alone_ask_bind (fun _ => rfl) fun now => ?_
  obtain ⟨preds, applied⟩ := apply_ok known cfg.retention now (decode s.doc) patch
  change Alone (liftPy (apply cfg.retention now (decode s.doc) patch (decodePreds s.doc)) >>= _) _ _ _ _
  rw [applied]
  refine alone_execute_bind [.doc] fun now => Method.served_modify_bind (Method.served_pure ?_)
  exact ⟨Snapshot.advances_merge _ _, rfl, connected⟩

/-! ### Hash layout -/

theorem hasTruth_present {s : Redis} (known : Evaluable s.preds) (cands : List Str) :
    ∀ item ∈ present cands (cands.map s.preds.get), HasTruth item.1 :=
  fun item member => known item.1 item.2 (mem_present.mp member).2

theorem alone_changedHash {l : StoreObject} {s : Redis} {now : ℚ} (known : Evaluable s.preds) (connected : l.connected = true)
    (changed : List Str) (merged : Snapshot) {raised : Fault → StoreObject → Redis → Prop} :
    Alone (changedHash changed merged) l (s.atTime now) (fun _ l' s' => l'.connected = true ∧ s.Ticks s') raised := by
  refine Method.served_ite (fun _ => Method.served_pure ⟨connected, now, rfl⟩) fun some_ => ?_
  refine Method.served_bind ((alone_candidates (roots_ofPaths_ne_nil some_) connected).imp (fun cands l' s' ends => ?_)
    fun _ _ _ => id)
  obtain ⟨connected', now', rfl⟩ := ends
  refine Method.served_ite (fun _ => Method.served_pure ⟨connected', now', rfl⟩) fun _ => ?_
  refine alone_ask_bind (fun _ => rfl) fun now => ?_
  obtain ⟨updates, evaluated⟩ := reEvaluateCandidates_ok (.ofPaths changed) merged.context merged.version
    (hasTruth_present known cands)
  change Alone (liftPy (reEvaluateCandidates (.ofPaths changed) merged.context merged.version
    (present cands (cands.map s.preds.get)))) _ _ _ _
  rw [evaluated]
  exact Method.served_pure ⟨connected', now, rfl⟩

theorem alone_updateHash {ticket : Nat} {patch : Members} {l : StoreObject} {s : Redis} {now : ℚ}
    (known : Evaluable s.preds) (connected : l.connected = true) :
    Alone (updateHash ticket patch) l (s.atTime now) (Updated .hash ticket patch s) fun _ _ _ => False := by
  refine alone_retry 31 (alone_ask_bind (fun _ => rfl) fun _ => alone_ask_bind (fun _ => rfl) fun now => ?_)
  refine Method.served_bind ((alone_changedHash known connected _ _).imp (fun updates l' s' ends => ?_) fun _ _ _ => id)
  obtain ⟨connected', now', rfl⟩ := ends
  refine alone_execute_bind [.doc, .preds] fun now => Method.served_modify_bind (Method.served_pure ⟨?_, rfl, connected'⟩)
  rw [Redis.stored_congr .hash (Redis.snapshotPart_commit _ _ _ _)]
  exact Snapshot.advances_merge (s.stored .hash) patch

/-! ### Shard layout -/

theorem alone_completeRoots {l : StoreObject} {s : Redis} {now : ℚ} (connected : l.connected = true) (cands : List Str)
    (merged : Members) {raised : Fault → StoreObject → Redis → Prop} :
    Alone (completeRoots cands merged) l (s.atTime now) (fun _ l' s' => l'.connected = true ∧ s.Ticks s') raised := by
  refine Method.served_ite (fun _ => Method.served_pure ⟨connected, now, rfl⟩) fun _ => ?_
  exact alone_ask_bind (fun _ => rfl) fun now => Method.served_pure ⟨connected, now, rfl⟩

theorem alone_changedShard {l : StoreObject} {s : Redis} {now : ℚ} (known : Evaluable s.preds) (connected : l.connected = true)
    (changed : List Str) (merged : Members) (version : Nat) {raised : Fault → StoreObject → Redis → Prop} :
    Alone (changedShard changed merged version) l (s.atTime now) (fun _ l' s' => l'.connected = true ∧ s.Ticks s') raised := by
  refine Method.served_ite (fun _ => Method.served_pure ⟨connected, now, rfl⟩) fun some_ => ?_
  refine Method.served_bind ((alone_candidates (roots_ofPaths_ne_nil some_) connected).imp (fun cands l' s' ends => ?_)
    fun _ _ _ => id)
  obtain ⟨connected', now', rfl⟩ := ends
  refine Method.served_ite (fun _ => Method.served_pure ⟨connected', now', rfl⟩) fun _ => ?_
  refine Method.served_bind ((alone_completeRoots connected' cands merged).imp (fun full l' s' ends => ?_) fun _ _ _ => id)
  obtain ⟨connected'', now'', rfl⟩ := ends
  refine alone_ask_bind (fun _ => rfl) fun now => ?_
  obtain ⟨updates, evaluated⟩ := reEvaluateCandidates_ok (.ofPaths changed) full version (hasTruth_present known cands)
  change Alone (liftPy (reEvaluateCandidates (.ofPaths changed) full version (present cands (cands.map s.preds.get)))) _ _ _ _
  rw [evaluated]
  exact Method.served_pure ⟨connected'', now, rfl⟩

theorem alone_updateShard {ticket : Nat} {patch : Members} (wf : patch.WF) (names : patch ≠ .nil) {l : StoreObject} {s : Redis}
    {now : ℚ} (known : Evaluable s.preds) (connected : l.connected = true) :
    Alone (updateShard ticket patch) l (s.atTime now) (Updated .shard ticket patch s) fun _ _ _ => False := by
  obtain ⟨key, keyed⟩ : ∃ key, key ∈ patch.keys := by
    cases patch with
    | nil => exact absurd rfl names
    | cons key value rest => exact ⟨key, List.mem_cons_self⟩
  have listed : key ∈ sortedSet patch.keys := mem_sortedSet.mpr keyed
  refine alone_retry 31 (alone_ask_bind (fun _ => rfl) fun _ => alone_ask_bind (fun _ => rfl) fun _ => ?_)
  refine alone_nonEmpty_bind (List.ne_nil_of_mem listed) (alone_ask_bind (fun _ => rfl) fun _ => ?_)
  refine Method.served_bind ((alone_changedShard known connected _ _ _).imp (fun updates l' s' ends => ?_) fun _ _ _ => id)
  obtain ⟨connected', now', rfl⟩ := ends
  refine alone_nonEmpty_bind (shardEntries_ne_nil listed (get_deepMerge_ne_none wf keyed _)) ?_
  refine alone_execute_bind [.ver, .preds] fun now => Method.served_modify_bind (Method.served_pure ⟨?_, rfl, connected'⟩)
  rw [Redis.stored_congr .shard (Redis.snapshotPart_commit _ _ _ _)]
  exact ⟨rfl, rfl, get_stored_hsetRoots wf (fun _ => mem_sortedSet)
    (fun r member => get_loadRoots_present s member) _ rfl⟩

/-- A patch that names no root asks the server for no field, which the client library refuses. -/
theorem alone_updateShard_nil {ticket : Nat} {l : StoreObject} {s : Redis} {now : ℚ} :
    Alone (updateShard ticket .nil) l (s.atTime now) (fun _ _ _ => False) fun _ l' s' => l' = l ∧ s.Ticks s' := by
  have none : sortedSet (Members.nil.keys) = [] := by simp [sortedSet, Members.keys]
  refine Method.served_tryCatch (alone_ask_bind (fun _ => rfl) fun _ => alone_ask_bind (fun _ => rfl) fun now => ?_)
  rw [none]
  exact Method.served_throw (Method.served_throw ⟨rfl, now, rfl⟩)

/-! ### Every layout -/

theorem alone_updateRedis {cfg : StoreConfig} {ticket : Nat} {patch : Members} (wf : patch.WF)
    (names : ¬(cfg.layout = .shard ∧ patch = .nil)) {l : StoreObject} {s : Redis} {now : ℚ}
    (known : Evaluable (s.registry cfg.layout)) (connected : l.connected = true) :
    Alone (updateRedis cfg ticket patch) l (s.atTime now) (Updated cfg.layout ticket patch s) fun _ _ _ => False := by
  unfold updateRedis
  cases layout : cfg.layout with
  | document =>
    rw [layout] at known
    exact alone_updateDocument known connected
  | hash =>
    rw [layout] at known
    exact alone_updateHash known connected
  | shard =>
    rw [layout] at known
    exact alone_updateShard wf (fun none => names ⟨layout, none⟩) known connected

theorem alone_updateTimed {cfg : StoreConfig} {ticket : Nat} {patch : Members} (wf : patch.WF)
    (names : ¬(cfg.layout = .shard ∧ patch = .nil)) (l : StoreObject) {s : Redis} (known : Evaluable (s.registry cfg.layout)) :
    Alone (updateTimed cfg ticket patch) l s (fun out => Updated cfg.layout ticket patch s out.1) fun _ _ _ => False := by
  refine Method.served_modify_bind (Method.served_bind ?_)
  refine alone_ensureClient_bind fun now => Method.served_get_bind (Method.served_ite (fun _ => ?_) fun never => absurd rfl never)
  refine Method.served_tryCatch ((alone_updateRedis wf names known rfl).imp (fun version l' s' updated => ?_) fun _ _ _ never => never.elim)
  exact Method.served_get_bind (Method.served_pure updated)

/-- The shard layout drops its client over the patch without a root; nothing is committed. -/
theorem alone_updateTimed_nil {cfg : StoreConfig} (shard : cfg.layout = .shard) (ticket : Nat) (l : StoreObject) (s : Redis) :
    Alone (updateTimed cfg ticket .nil) l s (fun out l' s' => out.1 = l.version ∧ l'.connected = false ∧ s.Ticks s')
      fun _ _ _ => False := by
  refine Method.served_modify_bind (Method.served_bind ?_)
  refine alone_ensureClient_bind fun now => Method.served_get_bind (Method.served_ite (fun _ => ?_) fun never => absurd rfl never)
  refine Method.served_tryCatch ?_
  rw [updateRedis, shard]
  refine alone_updateShard_nil.imp (fun _ _ _ never => never.elim) fun _ l' s' ends => ?_
  obtain ⟨rfl, ticks⟩ := ends
  exact Method.served_modify_bind (Method.served_get_bind (Method.served_pure (Method.served_get_bind (Method.served_pure ⟨rfl, rfl, ticks⟩))))

theorem not_alone_updateTimed_nil {cfg : StoreConfig} (shard : cfg.layout = .shard) (ticket : Nat) (l : StoreObject) (s : Redis)
    {raised : Fault → StoreObject → Redis → Prop} :
    ¬Alone (updateTimed cfg ticket .nil) l s (fun out => Updated cfg.layout ticket .nil s out.1) raised := by
  intro updates
  have kept := Prog.Served.serve Redis.ticks_refl updates
  have dropped := Prog.Served.serve Redis.ticks_refl (alone_updateTimed_nil shard ticket l s)
  cases ends : (((updateTimed cfg ticket .nil).program l).serve s).1.1 with
  | ok out =>
    rw [ends] at kept dropped
    exact absurd (kept.connected.symm.trans dropped.2.1) (by decide)
  | error e =>
    rw [ends] at dropped
    exact dropped

/-- An update by itself commits, in the process and in every layout; in the shard layout exactly if its patch
names a root. -/
theorem updates_advance {patch : Members} (wf : patch.WF) :
    (∀ (m : MemoryStore) (retention now : ℚ), Evaluable m.preds → ∃ m', m.update retention now patch = .ok m' ∧
      m.snapshot.Advances patch m'.snapshot m'.snapshot.version ∧ m'.patches = m.patches ++ [patch]) ∧
    ∀ (cfg : StoreConfig) (ticket : Nat) (l : StoreObject) (s : Redis), Evaluable (s.registry cfg.layout) →
      (Alone (updateTimed cfg ticket patch) l s (fun out => Updated cfg.layout ticket patch s out.1) (fun _ _ _ => False) ↔
        ¬(cfg.layout = .shard ∧ patch = .nil)) := by
  refine ⟨fun m retention now known => ?_, fun cfg ticket l s known => ⟨fun updates none => ?_, fun names => ?_⟩⟩
  · obtain ⟨preds, applied⟩ := apply_ok known retention now m.snapshot patch
    exact ⟨_, by rw [MemoryStore.update, applied]; rfl, Snapshot.advances_merge _ _, rfl⟩
  · obtain ⟨shard, rfl⟩ := none
    exact not_alone_updateTimed_nil shard ticket l s updates
  · exact alone_updateTimed wf names l known

end

/-! ### The first update of a store -/

def shardConfig : StoreConfig := ⟨.shard, 3600⟩

/-- `{"a": 1}`. -/
def firstPatch : Members := .cons "a".toList (.int 1) .nil

theorem updates_advance_firstPatch :
    (∃ m', @MemoryStore.update PyText.ascii 3600 0 firstPatch .init = .ok m' ∧
      MemoryStore.init.snapshot.Advances firstPatch m'.snapshot m'.snapshot.version ∧ m'.patches = [firstPatch]) ∧
    Alone (@updateTimed PyText.ascii shardConfig 0 firstPatch) .init (Redis.empty 0)
      (fun out => Updated .shard 0 firstPatch (Redis.empty 0) out.1) fun _ _ _ => False :=
  have advance := @updates_advance PyText.ascii firstPatch (by simp [firstPatch, Members.WF, Json.WF, Members.keys])
  ⟨advance.1 .init 3600 0 fun _ _ stored => (nomatch stored),
    (advance.2 shardConfig 0 .init (Redis.empty 0) fun _ _ stored => (nomatch stored)).mpr (by decide)⟩

/-- The patch `{}` costs the shard layout its client. -/
theorem emptyPatch_drops_client : ¬Alone (@updateTimed PyText.ascii shardConfig 0 .nil) .init (Redis.empty 0)
    (fun out => Updated .shard 0 .nil (Redis.empty 0) out.1) fun _ _ _ => False :=
  @not_alone_updateTimed_nil PyText.ascii shardConfig rfl 0 .init (Redis.empty 0) _

end Xair
