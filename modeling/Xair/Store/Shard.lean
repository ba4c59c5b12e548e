import Xair.Store.Hash

/-!
# The shard layout

Each root of the context is a field of a hash, and the version a key of its own.
A transaction watches the version alone, which every update moves; it reads and
writes the roots its patch names, and a registration the roots its predicates read.
-/

namespace Xair

open Library

/-! ### Loading roots -/

theorem get_loadRoots_fst {items : List (Str × RootEntry)} {f : Str → Option Json}
    (consistent : ∀ item ∈ items, f item.1 = some item.2.subtree) (r : Str) :
    (loadRoots items).1.get r = if r ∈ items.map Prod.fst then f r else none := by
  have general : ∀ ctx : Members, (items.foldl (fun ctx item => ctx.set item.1 item.2.subtree) ctx).get r =
      if r ∈ items.map Prod.fst then f r else ctx.get r := by
    induction items with
    | nil => exact fun _ => rfl
    | cons item rest ih =>
      intro ctx
      rw [List.foldl_cons, ih fun item member => consistent item (List.mem_cons_of_mem _ member), Members.get_set,
        ← consistent item List.mem_cons_self]
      by_cases here : r = item.1
      · simp [here]
      · simp only [List.map_cons, List.mem_cons, here, if_false, false_or]
  exact general .nil

theorem get_loadRoots_snd {items : List (Str × RootEntry)} {g : Str → Option Nat}
    (consistent : ∀ item ∈ items, ∀ p, item.2.pathVersions.get p = if rootOf p = item.1 then g p else none) (p : Str) :
    (loadRoots items).2.get p = if rootOf p ∈ items.map Prod.fst then g p else none := by
  have general : ∀ pv : Dict Str Nat, (pv.get p = none ∨ pv.get p = g p) →
      (items.foldl (fun pv item => pv.insertAll item.2.pathVersions.items) pv).get p =
        if rootOf p ∈ items.map Prod.fst then g p else pv.get p := by
    induction items with
    | nil => exact fun _ _ => rfl
    | cons item rest ih =>
      intro pv start
      have next : (pv.insertAll item.2.pathVersions.items).get p = if rootOf p = item.1 then g p else pv.get p := by
        rw [Dict.get_insertAll_items, consistent item List.mem_cons_self p]
        by_cases here : rootOf p = item.1
        · rw [if_pos here, if_pos here]
          rcases start with none | same
          · rw [none, Option.or_none]
          · rw [same, Option.or_self]
        · rw [if_neg here, if_neg here, Option.none_or]
      rw [List.foldl_cons, ih (fun item member => consistent item (List.mem_cons_of_mem _ member)) _ ?_, next]
      · by_cases here : rootOf p = item.1
        · simp [here]
        · simp only [List.map_cons, List.mem_cons, here, if_false, false_or]
      · rw [next]
        split
        · exact Or.inr rfl
        · exact start
  exact general Dict.empty (Or.inl rfl)

namespace Redis.Sharded

variable {s : Redis}

/-- Loading some of the roots gives the part of the snapshot under them. -/
theorem load (h : s.Sharded) {items : List (Str × RootEntry)} {reads : Str → Prop}
    (listed : ∀ r entry, (r, entry) ∈ items ↔ reads r ∧ s.roots.get r = some entry) :
    (history s.patches).RestrictsTo reads ⟨(loadRoots items).1, s.ver.getD 0, (loadRoots items).2⟩ := by
  have keys : ∀ r, r ∈ items.map Prod.fst ↔ reads r ∧ (s.roots.get r).isSome := fun r => by
    rw [List.mem_map, Option.isSome_iff_exists]
    constructor
    · rintro ⟨⟨r, entry⟩, member, rfl⟩
      exact ⟨((listed r entry).mp member).1, entry, ((listed r entry).mp member).2⟩
    · rintro ⟨read, entry, stored⟩
      exact ⟨(r, entry), (listed r entry).mpr ⟨read, stored⟩, rfl⟩
  have context := fun r => get_loadRoots_fst (f := (history s.patches).context.get) (fun item member => by
    rw [← h.subtree, ((listed item.1 item.2).mp member).2]
    rfl) r
  have versions := fun p => get_loadRoots_snd (g := (history s.patches).pathVersions.get) (fun item member p => by
    rw [← h.pathVersions, ((listed item.1 item.2).mp member).2]
    rfl) p
  refine ⟨by rw [h.version, history_version], fun r read => ?_, fun r out => ?_, fun p read => ?_, fun p out => ?_⟩
  · rw [context, ← h.subtree]
    cases stored : s.roots.get r with
    | none => rw [if_neg (by rw [keys, stored]; simp)]; rfl
    | some entry => rw [if_pos ((keys r).mpr ⟨read, by rw [stored]; rfl⟩)]
  · rw [context, if_neg fun member => out ((keys r).mp member).1]
  · rw [versions]
    cases stored : s.roots.get (rootOf p) with
    | none =>
      have absent := h.pathVersions (rootOf p) p
      rw [stored, if_pos rfl] at absent
      rw [if_neg (by rw [keys, stored]; simp)]
      exact absent
    | some entry => rw [if_pos ((keys _).mpr ⟨read, by rw [stored]; rfl⟩)]
  · rw [versions, if_neg fun member => out ((keys _).mp member).1]

theorem load_present (h : s.Sharded) (roots : List Str) :
    (history s.patches).RestrictsTo (· ∈ roots) ⟨(loadRoots (present roots (roots.map s.roots.get))).1, s.ver.getD 0,
      (loadRoots (present roots (roots.map s.roots.get))).2⟩ :=
  h.load fun _ _ => mem_present

theorem load_all (h : s.Sharded) : (history s.patches).RestrictsTo (fun _ => True) (s.stored .shard) :=
  h.load fun _ _ => by rw [Dict.mem_items, true_and]

end Redis.Sharded

/-! ### The roots an update writes -/

theorem get_groupPv (pathVersions : Dict Str Nat) (r p : Str) :
    (groupPv pathVersions r).get p = if rootOf p = r then pathVersions.get p else none := by
  rw [groupPv, Dict.get_filter]
  by_cases here : rootOf p = r
  · cases pathVersions.get p <;> simp [here]
  · cases pathVersions.get p <;> simp [here]

theorem get_insertAll_shardEntries {d : Dict Str RootEntry} {merged : Members} {pathVersions : Dict Str Nat}
    {roots : List Str} {r : Str} {entry : RootEntry} (stored : (d.insertAll (shardEntries merged pathVersions roots)).get r = some entry) :
    (r ∈ roots ∧ merged.get r = some entry.subtree ∧ entry.pathVersions = groupPv pathVersions r) ∨
      ((r ∉ roots ∨ merged.get r = none) ∧ d.get r = some entry) := by
  rcases Dict.get_insertAll_cases stored with member | ⟨absent, old⟩
  · obtain ⟨r', listed, made⟩ := List.mem_filterMap.mp member
    obtain ⟨subtree, present, same⟩ := Option.map_eq_some_iff.mp made
    obtain ⟨rfl, rfl⟩ := Prod.mk.inj same
    exact Or.inl ⟨listed, present, rfl⟩
  · refine Or.inr ⟨or_iff_not_imp_left.mpr fun listed => ?_, old⟩
    by_contra present
    obtain ⟨subtree, present⟩ := Option.ne_none_iff_exists'.mp present
    refine absent (List.mem_map.mpr ⟨(r, ⟨subtree, groupPv pathVersions r⟩), List.mem_filterMap.mpr ⟨r, not_not.mp listed, ?_⟩, rfl⟩)
    rw [present]
    rfl

/-- A field is one of the new entries or an old one, when every named root has a subtree. -/
theorem get_insertAll_fields (d : Dict Str RootEntry) {merged : Members} (pathVersions : Dict Str Nat) {roots : List Str}
    (some_ : ∀ r ∈ roots, merged.get r ≠ none) (r : Str) :
    (r ∈ roots ∧ ∃ entry, (d.insertAll (shardEntries merged pathVersions roots)).get r = some entry ∧
        merged.get r = some entry.subtree ∧ entry.pathVersions = groupPv pathVersions r) ∨
      (r ∉ roots ∧ (d.insertAll (shardEntries merged pathVersions roots)).get r = d.get r) := by
  by_cases member : r ∈ roots
  · left
    refine ⟨member, ?_⟩
    have contained : (d.insertAll (shardEntries merged pathVersions roots)).contains r = true := by
      obtain ⟨subtree, found⟩ := Option.ne_none_iff_exists'.mp (some_ r member)
      rw [Dict.contains_insertAll]
      refine Or.inr (List.mem_map.mpr ⟨(r, ⟨subtree, groupPv pathVersions r⟩), List.mem_filterMap.mpr ⟨r, member, ?_⟩, rfl⟩)
      rw [found]
      rfl
    obtain ⟨entry, stored⟩ := Option.isSome_iff_exists.mp contained
    refine ⟨entry, stored, ?_⟩
    rcases get_insertAll_shardEntries stored with ⟨_, made⟩ | ⟨none, _⟩
    · exact made
    · exact absurd (none.resolve_left (not_not.mpr member)) (some_ r member)
  · refine Or.inr ⟨member, Dict.get_insertAll_of_not_mem _ _ fun key => member ?_⟩
    obtain ⟨item, listed, rfl⟩ := List.mem_map.mp key
    obtain ⟨r, here, made⟩ := List.mem_filterMap.mp listed
    obtain ⟨subtree, _, rfl⟩ := Option.map_eq_some_iff.mp made
    exact here

theorem get_deepMerge_ne_none {patch : Members} (wf : patch.WF) {key : Str} (named : key ∈ patch.keys) (base : Members) :
    (deepMerge base patch).get key ≠ none := by
  rw [← not_not (a := key ∈ patch.keys), ← Members.get_eq_none] at named
  obtain ⟨v, found⟩ := Option.ne_none_iff_exists'.mp named
  rw [get_deepMerge_of_get_some wf found]
  simp

/-- An update through the roots its patch names is an update of the whole. -/
theorem Redis.Sharded.update {s c : Redis} (h : s.Sharded) {patch : Members} (wf : patch.WF) (plain : PlainKeys patch)
    {roots : List Str} (named : ∀ r, r ∈ roots ↔ r ∈ patch.keys) {part : Snapshot}
    (loaded : (history s.patches).RestrictsTo (· ∈ roots) part) (ver : c.ver = some (part.version + 1))
    (written : c.roots = s.roots.insertAll
      (shardEntries (part.merge patch).context (part.merge patch).pathVersions roots))
    (appended : c.patches = s.patches ++ [patch]) : c.Sharded := by
  have changed : changedPaths part.context patch = changedPaths (history s.patches).context patch :=
    changedPaths_congr_roots plain fun r member => loaded.context r ((named r).mpr member)
  have merged : ∀ r ∈ roots, (part.merge patch).context.get r = (history c.patches).context.get r := fun r member => by
    rw [appended, history_append]
    exact get_deepMerge_congr wf (loaded.context r member)
  have some_ : ∀ r ∈ roots, (part.merge patch).context.get r ≠ none := fun r member =>
    get_deepMerge_ne_none wf ((named r).mp member) _
  have kept : ∀ r, r ∉ roots → (history c.patches).context.get r = (history s.patches).context.get r := fun r other => by
    rw [appended, history_append]
    exact get_deepMerge_of_get_none (Members.get_eq_none.mpr fun key => other ((named r).mpr key)) _
  have versions : ∀ p, rootOf p ∈ roots →
      (part.merge patch).pathVersions.get p = (history c.patches).pathVersions.get p := fun p member => by
    rw [appended, history_append, Snapshot.get_merge_pathVersions, Snapshot.get_merge_pathVersions, changed,
      loaded.version, loaded.pathVersions p member]
  have versionsKept : ∀ p, rootOf p ∉ roots →
      (history c.patches).pathVersions.get p = (history s.patches).pathVersions.get p := fun p other => by
    rw [appended, history_append, Snapshot.get_merge_pathVersions, if_neg fun path =>
      other ((named _).mpr (rootOf_changed_mem_keys plain path))]
  have field := get_insertAll_fields s.roots (part.merge patch).pathVersions some_
  rw [← written] at field
  refine ⟨?_, fun r => ?_, fun r p => ?_⟩
  · rw [ver, loaded.version, history_version, appended, List.length_append]
    rfl
  · rcases field r with ⟨member, entry, stored, subtree, _⟩ | ⟨other, old⟩
    · rw [stored, ← merged r member, subtree]
      rfl
    · rw [old, kept r other, h.subtree]
  · rcases field r with ⟨member, entry, stored, _, group⟩ | ⟨other, old⟩
    · rw [stored, Option.bind_some, group, get_groupPv]
      by_cases here : rootOf p = r
      · rw [if_pos here, if_pos here, versions p (here ▸ member)]
      · rw [if_neg here, if_neg here]
    · rw [old, h.pathVersions]
      by_cases here : rootOf p = r
      · rw [if_pos here, if_pos here, versionsKept p (here ▸ other)]
      · rw [if_neg here, if_neg here]

theorem get_extend (extra merged : Members) (r : Str) : (extend extra merged).get r = (merged.get r).or (extra.get r) := by
  induction merged with
  | nil => rfl
  | cons key value rest ih =>
    rw [extend, Members.get_set, Members.get]
    by_cases here : key = r
    · rw [if_pos here.symm, if_pos here, Option.some_or]
    · rw [if_neg (Ne.symm here), if_neg here, ih]

section

variable [PyText]

/-! ### What predicates read -/

/-- A predicate reads nothing but the root of its path. -/
theorem truth_congr_root {expr : Str} {c c' : Members} (same : ∀ r ∈ exprRoots expr, c.get r = c'.get r) :
    truth expr c = truth expr c' := by
  refine truth_congr fun path matched => ?_
  have root : rootOf path ∈ exprRoots expr :=
    mem_sortedSet.mpr (List.mem_map.mpr ⟨path, mem_readSet.mpr ⟨expr, List.mem_singleton.mpr rfl, matched⟩, rfl⟩)
  rw [resolve_eq_getPath, resolve_eq_getPath, getPath_congr_root (same _ root)]

theorem exprRoots_subset {expr r : Str} (member : r ∈ exprRoots expr) : r = exprRoot expr := by
  obtain ⟨path, read, rfl⟩ := List.mem_map.mp (mem_sortedSet.mp member)
  obtain ⟨e, here, matched⟩ := mem_readSet.mp read
  obtain rfl := List.mem_singleton.mp here
  rw [exprRoot, exprPath, matched]
  rfl

theorem mem_rootsOf {exprs : List Str} {expr r : Str} (member : expr ∈ exprs) (root : r ∈ exprRoots expr) :
    r ∈ rootsOf exprs :=
  mem_sortedSet.mpr (List.mem_flatMap.mpr ⟨expr, member, root⟩)

namespace Call

variable {K : Call} {watched : List (WatchKey × Nat)} {l : StoreObject} {s : Redis}

theorem content_shard (inv : K.Inv s) (shard : K.cfg.layout = .shard) : s.Sharded := by
  have content := inv.content
  rw [shard] at content
  exact content

/-! ### Updates -/

theorem runs_completeRoots {cands : List Str} {merged : Members} (inv : K.Inv s) (pending : K.Pending l s) :
    K.Runs (completeRoots cands merged) l s (fun full l' s' => K.Rely s s' ∧ K.Pending l' s' ∧
      ∀ r v, merged.get r = some v → full.get r = some v) K.Pending := by
  refine runs_ite (fun _ => runs_pure fun s' rely _ => ⟨rely, stable_pending _ _ _ pending rely, fun _ _ => id⟩) fun _ => ?_
  refine runs_ask_bind stable_pending inv pending (fun _ => rfl) fun s₁ s₂ rely₁ _ _ rely₂ _ pending₂ => ?_
  refine runs_pure fun s₃ rely₃ _ => ⟨rely₁.trans (rely₂.trans rely₃), stable_pending _ _ _ pending₂ rely₃, fun r v found => ?_⟩
  rw [get_extend, found, Option.some_or]

theorem runs_changedShard (shard : K.cfg.layout = .shard) {patch : Members} (wf : patch.WF) (plain : PlainKeys patch)
    (part : Snapshot) (inv : K.Inv s) (pending : K.Pending l s) (watching : K.Watching [.ver, .preds] watched s)
    (found : ∀ z, K.Rely s z → K.Inv z → z.unchanged watched = true →
      (history z.patches).RestrictsTo (· ∈ sortedSet patch.keys) part) :
    K.Runs (changedShard (changedPaths part.context patch) (deepMerge part.context patch) (part.version + 1)) l s
      (fun updates l' s' => K.Rely s s' ∧ K.Pending l' s' ∧ K.Settles patch watched updates s') K.Pending := by
  have apart : K.cfg.layout ≠ .document := by rw [shard]; simp
  have facts : ∀ full : Members, (∀ r v, (deepMerge part.context patch).get r = some v → full.get r = some v) →
      ∀ z, K.Rely s z → K.Inv z → z.unchanged watched = true →
      changedPaths part.context patch = changedPaths (history z.patches).context patch ∧
        part.version + 1 = z.patches.length + 1 ∧
        ∀ e, exprRoot e ∈ (Changed.ofPaths (changedPaths part.context patch)).roots →
          truth e full = truth e (history (z.patches ++ [patch])).context := by
    intro full extends_ z rely inv' won
    have restricts := found z rely inv' won
    refine ⟨changedPaths_congr_roots plain fun r key => restricts.context r (mem_sortedSet.mpr key),
      by rw [restricts.version, history_version], fun e root => truth_congr_root fun r read => ?_⟩
    obtain rfl := exprRoots_subset read
    obtain ⟨path, changed, same⟩ := Changed.mem_roots.mp root
    have key : exprRoot e ∈ patch.keys := same ▸ rootOf_changed_mem_keys plain changed
    have merged := get_deepMerge_congr wf (restricts.context _ (mem_sortedSet.mpr key))
    have named := key
    rw [← not_not (a := exprRoot e ∈ patch.keys), ← Members.get_eq_none] at named
    obtain ⟨v, present⟩ := Option.ne_none_iff_exists'.mp named
    rw [get_deepMerge_of_get_some wf present] at merged
    rw [extends_ _ _ (get_deepMerge_of_get_some wf present _), history_append]
    exact merged
  refine runs_ite (fun none => runs_pure fun s' rely _ => ⟨rely, stable_pending _ _ _ pending rely, ?_⟩) fun _ => ?_
  · refine settles_reEvaluated (s := s) apart wf (changedPaths part.context patch) [] _ (fun z _ _ e => ?_)
      watching (by simp) rely rfl fun z later => facts (deepMerge part.context patch) (fun _ _ => id) z (rely.trans later)
    rw [none]
    simp [Changed.ofPaths]
  refine runs_bind inv ((runs_candidates inv pending watching (by simp)).imp (fun cands l₁ s₁ _ ends inv₁ => ?_)
    fun _ _ _ hold => hold)
  obtain ⟨rely₁, pending₁, names⟩ := ends
  refine runs_ite (fun none => runs_pure fun s' rely _ => ⟨rely₁.trans rely, stable_pending _ _ _ pending₁ rely, ?_⟩) fun _ => ?_
  · subst none
    exact settles_reEvaluated apart wf _ [] _ names (watching.rely rely₁) (by simp) rely rfl fun z later =>
      facts (deepMerge part.context patch) (fun _ _ => id) z (rely₁.trans (rely.trans later))
  refine runs_bind inv₁ ((runs_completeRoots inv₁ pending₁).imp (fun full l₂ s₂ _ ends inv₂ => ?_) fun _ _ _ hold => hold)
  obtain ⟨rely₂, pending₂, extends_⟩ := ends
  refine runs_ask_bind stable_pending inv₂ pending₂ (fun _ => rfl) fun s₃ s₄ rely₃ _ _ rely₄ inv₄ pending₄ => ?_
  refine runs_liftPy stable_pending pending₄ fun updates evaluated s₅ rely₅ _ pending₅ =>
    ⟨rely₁.trans (rely₂.trans (rely₃.trans (rely₄.trans rely₅))), pending₅, ?_⟩
  exact (settles_reEvaluated apart wf _ _ _ names (watching.rely rely₁) (by simp) (rely₂.trans rely₃) evaluated fun z later =>
    facts full extends_ z (rely₁.trans (rely₂.trans (rely₃.trans later)))).rely (rely₄.trans rely₅)

theorem runs_updateShard (shard : K.cfg.layout = .shard) {patch : Members} (wf : patch.WF) (plain : PlainKeys patch)
    (mine : K.job.patch = some patch) (inv : K.Inv s) (pending : K.Pending l s) :
    K.Runs (updateShard K.ticket patch) l s (K.Committed patch) K.Pending := by
  have apart : K.cfg.layout ≠ .document := by rw [shard]; simp
  refine runs_retry stable_pending (fun l s inv pending => ?_) _ _ _ inv pending
  refine runs_ask_bind stable_pending inv pending (fun _ => rfl) fun s₁ s₂ _ _ _ rely₂ inv₂ pending₂ => ?_
  have watching : K.Watching [.ver, .preds] [(.ver, s₁.revs .ver), (.preds, s₁.revs .preds)] s₂ := ⟨s₁, rely₂, rfl⟩
  refine runs_ask_bind stable_pending inv₂ pending₂ (fun _ => rfl) fun s₃ s₄ rely₃ inv₃ _ rely₄ inv₄ pending₄ => ?_
  refine runs_nonEmpty_bind stable_pending inv₄ pending₄ ?_
  refine runs_ask_bind stable_pending inv₄ pending₄ (fun _ => rfl) fun s₅ s₆ rely₅ inv₅ _ rely₆ inv₆ pending₆ => ?_
  let loaded := loadRoots (present (sortedSet patch.keys) ((sortedSet patch.keys).map s₅.roots.get))
  let part : Snapshot := ⟨loaded.1, s₃.ver.getD 0, loaded.2⟩
  -- a transaction that wins finds the version and the roots that were read
  have found : ∀ z, K.Rely s₆ z → K.Inv z → z.unchanged [(.ver, s₁.revs .ver), (.preds, s₁.revs .preds)] = true →
      (history z.patches).RestrictsTo (· ∈ sortedSet patch.keys) part := fun z rely invz won => by
    have key : K.cfg.layout.snapshotKey ∈ [WatchKey.ver, WatchKey.preds] := by simp [shard, Layout.snapshotKey]
    have first := (watching.rely rely₃).snapshotPart_eq (rely₄.trans (rely₅.trans (rely₆.trans rely))) won key
    have second := ((watching.rely rely₃).rely (rely₄.trans rely₅)).snapshotPart_eq (rely₆.trans rely) won key
    have ver : z.ver = s₃.ver := congrArg (fun part => part.2.1) first
    have roots : z.roots = s₅.roots := congrArg (fun part => part.2.2.1) second
    have restricts := (content_shard invz shard).load_present (sortedSet patch.keys)
    rw [ver, roots] at restricts
    exact restricts
  refine runs_bind inv₆ ((runs_changedShard shard wf plain part inv₆ pending₆
    ((watching.rely rely₃).rely (rely₄.trans (rely₅.trans rely₆))) found).imp (fun updates l₇ s₇ _ ends inv₇ => ?_)
    fun _ _ _ hold => hold)
  obtain ⟨rely₇, pending₇, settles⟩ := ends
  refine runs_nonEmpty_bind stable_pending inv₇ pending₇ ?_
  have effect : ∀ s', K.Rely s₇ s' → K.Inv s' → s'.unchanged [(.ver, s₁.revs .ver), (.preds, s₁.revs .preds)] = true →
      K.Inv (s'.commit ([.hsetRoots (shardEntries (part.merge patch).context (part.merge patch).pathVersions
        (sortedSet patch.keys)), .setVer (part.version + 1)] ++ hsetPredsIf updates) (some (K.ticket, patch))) ∧
      K.Step s' (s'.commit ([.hsetRoots (shardEntries (part.merge patch).context (part.merge patch).pathVersions
        (sortedSet patch.keys)), .setVer (part.version + 1)] ++ hsetPredsIf updates) (some (K.ticket, patch))) ∧
      part.version + 1 = s'.patches.length + 1 := fun s' rely inv' won => by
    have restricts := found s' (rely₇.trans rely) inv' won
    obtain ⟨after, step⟩ := commit_update (K := K) [.hsetRoots (shardEntries (part.merge patch).context
      (part.merge patch).pathVersions (sortedSet patch.keys)), .setVer (part.version + 1)] rfl rfl rfl
      (by rw [shard]; exact Nat.lt_succ_self (s'.revs .ver)) apart inv' wf mine (fun _ => plain)
      (stable_pending _ _ _ pending₇ rely).absent (settles s' rely inv' won) (by
        rw [shard]
        refine (content_shard inv' shard).update wf plain (fun r => mem_sortedSet) restricts rfl rfl ?_
        change List.map Prod.snd (s'.updates ++ [(K.ticket, patch)]) = _
        rw [List.map_append]
        rfl)
    exact ⟨after, step, by rw [restricts.version, history_version]⟩
  refine runs_execute_bind stable_pending inv₇ pending₇ (fun s' rely inv' won => ?_) fun s' s'' rely inv' won later inv'' => ?_
  · obtain ⟨after, step, _⟩ := effect s' rely inv' won
    exact ⟨after, step, fun faulty =>
      ⟨(pending₇.idx.advance rely).advance step, pending₇.lastIo, fun exact_ => absurd exact_ faulty⟩⟩
  · obtain ⟨_, step, version⟩ := effect s' rely inv' won
    refine runs_modify_bind inv'' fun s₈ rely₈ _ => runs_pure fun s₉ rely₉ _ => ?_
    rw [show Option.getD (Redis.exec .pipeGetVer s₃).1 0 + 1 = s'.patches.length + 1 from version]
    exact (committed_last (l := { l₇ with version := s'.patches.length + 1, lastIo := true })
      ((pending₇.idx.advance rely).advance step) rfl rfl).rely (later.trans (rely₈.trans rely₉))

/-! ### Registrations -/

/-- The roots these predicates read, as they are stored. -/
def rootsRead (exprs : List Str) (s : Redis) : Members × Dict Str Nat :=
  loadRoots (present (rootsOf exprs) ((rootsOf exprs).map s.roots.get))

theorem runs_readShard (exprs : List Str) (inv : K.Inv s) {held : StoreObject → Redis → Prop}
    (failed : ¬ K.faultless → ∀ s', K.Rely s s' → held l s') :
    K.Runs (readShard exprs) l s (fun out l' s' => l' = l ∧ ∃ s₁, K.Rely s s₁ ∧ K.Inv s₁ ∧ K.Rely s₁ s' ∧
      out = (s₁.ver.getD 0, rootsRead exprs s₁, Dict.empty.insertAll (present exprs (exprs.map s₁.preds.get)))) held :=
  runs_bind inv (runs_read (fun _ => rfl) (fun s₁ _ rely₁ inv₁ _ rely₂ _ _ =>
    runs_pure fun _ rely₃ _ => ⟨rfl, s₁, rely₁, inv₁, rely₂.trans rely₃, rfl⟩) failed)

theorem runs_pipeLoadRoots (exprs : List Str) (inv : K.Inv s) (idx : IdxOk l s) :
    K.Runs (pipeLoadRoots (rootsOf exprs)) l s (fun view l' s' => l' = l ∧ ∃ s₁, K.Rely s s₁ ∧ K.Rely s₁ s' ∧
      view = rootsRead exprs s₁) IdxOk := by
  refine runs_ite (fun none => ?_) fun _ => ?_
  · refine runs_pure fun s₁ rely _ => ⟨rfl, s₁, rely, Advance.refl s₁, ?_⟩
    rw [rootsRead, none]
    rfl
  · exact runs_ask_bind stable_idx inv idx (fun _ => rfl) fun s₁ _ rely₁ _ _ rely₂ _ _ =>
      runs_pure fun _ rely₃ _ => ⟨rfl, s₁, rely₁, rely₂.trans rely₃, rfl⟩

theorem seen_shard (inv : K.Inv s) (shard : K.cfg.layout = .shard) (exprs : List Str) {preds : Dict Str Entry}
    (entries : EntriesOk s.patches preds) :
    Seen (K.cfg.layout.reads exprs) ⟨(rootsRead exprs s).1, s.ver.getD 0, (rootsRead exprs s).2⟩ preds s := by
  have reads : K.cfg.layout.reads exprs = (· ∈ rootsOf exprs) :=
    funext fun r => propext ⟨fun member => member shard, fun member _ => member⟩
  rw [reads]
  exact seen_now ((content_shard inv shard).load_present (rootsOf exprs)) entries

theorem registered_shard (inv : K.Inv s) (shard : K.cfg.layout = .shard) (exprs : List Str) {l : StoreObject}
    (idx : IdxOk l s) {preds : Dict Str Entry} (entries : EntriesOk s.patches preds) :
    K.Registered exprs { l with version := s.ver.getD 0, preds := preds, shardView := rootsRead exprs s } s := by
  refine ⟨idx, ?_⟩
  have shown := seen_shard inv shard exprs entries
  rw [shard] at shown ⊢
  exact shown

theorem runs_registerShard (shard : K.cfg.layout = .shard) (scanned : List (Str × Entry)) (exprs : List Str)
    (inv : K.Inv s) (idx : IdxOk l s) :
    K.Runs (registerShard K.cfg scanned exprs) l s (fun _ => K.Registered exprs) IdxOk := by
  have apart : K.cfg.layout ≠ .document := by rw [shard]; simp
  have key : K.cfg.layout.snapshotKey ∈ [WatchKey.ver, WatchKey.preds] := by simp [shard, Layout.snapshotKey]
  refine runs_bind inv ((runs_gcIfDue scanned inv idx).imp (fun _ l s _ idx inv => ?_) fun _ _ _ hold => hold)
  refine runs_bind inv ((runs_readShard exprs inv fun _ _ => idx.advance).imp (fun out l₁ s₁ _ ends inv₁ => ?_) fun _ _ _ hold => hold)
  obtain ⟨rfl, s₀, rely₀, inv₀, rely₁, rfl⟩ := ends
  have idx₀ := idx.advance rely₀
  refine runs_time_bind stable_idx inv₁ (idx₀.advance rely₁) fun now s₂ rely₂ inv₂ idx₂ => ?_
  refine runs_ite (fun _ => runs_modify fun s₃ rely₃ _ => ?_) fun _ => ?_
  · exact (registered_shard inv₀ shard exprs idx₀ ((inv₀.registered apart).present exprs)).advance
      (rely₁.trans (rely₂.trans rely₃))
  refine runs_retry stable_idx (fun l s inv idx => ?_) _ _ _ inv₂ idx₂
  refine runs_ask_bind stable_idx inv idx (fun _ => rfl) fun s₁ s₂ rely₁ inv₁ _ rely₂ inv₂ idx₂ => ?_
  have watching : K.Watching [.ver, .preds] [(.ver, s₁.revs .ver), (.preds, s₁.revs .preds)] s₂ := ⟨s₁, rely₂, rfl⟩
  refine runs_ask_bind stable_idx inv₂ idx₂ (fun _ => rfl) fun s₃ s₄ rely₃ inv₃ _ rely₄ inv₄ idx₄ => ?_
  refine runs_bind inv₄ ((runs_pipeLoadRoots exprs inv₄ idx₄).imp (fun view l₆ s₆ _ ends inv₆ => ?_) fun _ _ _ hold => hold)
  obtain ⟨rfl, s₅, rely₅, rely₆, rfl⟩ := ends
  have idx₆ := idx₄.advance (rely₅.trans rely₆)
  refine runs_ask_bind stable_idx inv₆ idx₆ (fun _ => rfl) fun s₇ s₈ rely₇ _ _ rely₈ inv₈ idx₈ => ?_
  refine runs_time_bind stable_idx inv₈ idx₈ fun now s₉ rely₉ inv₉ idx₉ => ?_
  refine runs_liftPy_bind stable_idx inv₉ idx₉ fun new registered s₁₀ rely₁₀ inv₁₀ idx₁₀ => ?_
  have effect : ∀ s', K.Rely s₁₀ s' → K.Inv s' → s'.unchanged [(.ver, s₁.revs .ver), (.preds, s₁.revs .preds)] = true →
      s'.ver = s₃.ver ∧ s'.roots = s₅.roots ∧
      K.Inv (s'.commit (registryWrites (Dict.empty.insertAll (present exprs (exprs.map s₇.preds.get))) exprs new) none) ∧
      K.Step s' (s'.commit (registryWrites (Dict.empty.insertAll (present exprs (exprs.map s₇.preds.get))) exprs new) none) ∧
      EntriesOk s'.patches (Dict.empty.insertAll new) := fun s' rely inv' won => by
    have third := rely₈.trans (rely₉.trans (rely₁₀.trans rely))
    have second := rely₆.trans (rely₇.trans third)
    have watching₅ := (watching.rely rely₃).rely (rely₄.trans rely₅)
    have ver : s'.ver = s₃.ver := congrArg (fun part => part.2.1) ((watching.rely rely₃).snapshotPart_eq
      (rely₄.trans (rely₅.trans second)) won key)
    have roots : s'.roots = s₅.roots := congrArg (fun part => part.2.2.1) (watching₅.snapshotPart_eq second won key)
    have preds : s'.preds = s₇.preds := congrArg Prod.fst ((watching₅.rely (rely₆.trans rely₇)).registryPart_eq third won
      (by simp))
    have restricts := (content_shard inv' shard).load_present (rootsOf exprs)
    refine ⟨ver, roots, ?_⟩
    rw [← preds]
    refine commit_register apart inv' (rootsRead exprs s₅).1 now (fun e member => ?_) ?_
    · exact truth_congr_root fun r root => by
        rw [← restricts.context r (mem_rootsOf member root), rootsRead, roots]
    · rw [preds, show s'.patches.length = s₃.ver.getD 0 by rw [← ver, (content_shard inv' shard).version]]
      exact registered
  refine runs_execute_bind stable_idx inv₁₀ idx₁₀ (fun s' rely inv' won => ?_) fun s' s'' rely inv' won later inv'' => ?_
  · obtain ⟨_, _, after, step, _⟩ := effect s' rely inv' won
    exact ⟨after, step, fun _ => (idx₁₀.advance rely).advance step⟩
  · obtain ⟨ver, roots, _, step, entries⟩ := effect s' rely inv' won
    refine runs_modify fun s₁₁ rely₁₁ _ => ?_
    have shown := registered_shard inv' shard exprs (idx₁₀.advance rely) entries
    rw [ver, rootsRead, roots] at shown
    exact (shown.advance step).advance (later.trans rely₁₁)

end Call

end

end Xair
