import Xair.Context.Merge

/-!
# One update of the store

`_apply` and its helpers: the merged context, the path versions and the truth
versions of the registered predicates after one patch.
-/

namespace Xair

open Library

/-! ### Changed leaf paths -/

/-- `c[:i]` for every dot of the string. -/
def dotPrefixes : Str → List Str
  | [] => []
  | c :: cs => (if c = '.' then [[]] else []) ++ (dotPrefixes cs).map (c :: ·)

theorem mem_dotPrefixes {p s : Str} : p ∈ dotPrefixes s ↔ ∃ rest, s = p ++ '.' :: rest := by
  induction s generalizing p with
  | nil => simp [dotPrefixes]
  | cons c s ih =>
    rw [dotPrefixes, List.mem_append, List.mem_map]
    constructor
    · rintro (here | ⟨q, later, rfl⟩)
      · split at here
        · rename_i dot
          obtain rfl := List.mem_singleton.mp here
          exact ⟨s, by rw [dot]; rfl⟩
        · cases here
      · obtain ⟨rest, rfl⟩ := ih.mp later
        exact ⟨rest, rfl⟩
    · rintro ⟨rest, split⟩
      cases p with
      | nil =>
        obtain ⟨rfl, rfl⟩ := List.cons.inj split
        exact Or.inl (by simp)
      | cons d p =>
        obtain ⟨rfl, rfl⟩ := List.cons.inj split
        exact Or.inr ⟨p, ih.mpr ⟨rest, rfl⟩, rfl⟩

/-- `_Changed`: the changed leaf paths, with their proper prefixes and their roots. -/
structure Changed where
  paths : List Str
  prefixes : List Str
  roots : List Str

namespace Changed

def ofPaths (changed : List Str) : Changed where
  paths := changed
  prefixes := changed.flatMap dotPrefixes
  roots := (changed.map rootOf).dedup

def related (ch : Changed) (path : Str) : Bool :=
  ch.paths.contains path || ch.prefixes.contains path || (dotPrefixes path).any fun p => ch.paths.contains p

/-- The test by sets of prefixes is relatedness to some changed path. -/
theorem related_iff {changed : List Str} {path : Str} :
    (ofPaths changed).related path = true ↔ ∃ c ∈ changed, Xair.related c path = true := by
  simp only [related, ofPaths, Bool.or_eq_true, List.contains_iff_mem, decide_eq_true_eq, List.any_eq_true,
    List.mem_flatMap, mem_dotPrefixes, Xair.related, startsWith_iff, List.append_assoc, List.singleton_append]
  constructor
  · rintro ((here | ⟨c, member, below⟩) | ⟨p, above, member⟩)
    · exact ⟨path, here, Or.inl (Or.inl rfl)⟩
    · exact ⟨c, member, Or.inl (Or.inr below)⟩
    · exact ⟨p, member, Or.inr above⟩
  · rintro ⟨c, member, (rfl | below) | above⟩
    · exact Or.inl (Or.inl member)
    · exact Or.inl (Or.inr ⟨c, member, below⟩)
    · exact Or.inr ⟨c, above, member⟩

theorem mem_roots {changed : List Str} {r : Str} :
    r ∈ (ofPaths changed).roots ↔ ∃ c ∈ changed, rootOf c = r := by
  rw [ofPaths, List.mem_dedup, List.mem_map]

/-- The root filter skips no related path. -/
theorem root_mem_of_related {changed : List Str} {path : Str} (rel : (ofPaths changed).related path = true) :
    rootOf path ∈ (ofPaths changed).roots := by
  obtain ⟨c, member, rel⟩ := related_iff.mp rel
  exact mem_roots.mpr ⟨c, member, rootOf_eq_of_related rel⟩

end Changed

/-! ### Context, version and path versions -/

structure Snapshot where
  context : Members
  version : Nat
  pathVersions : Dict Str Nat

namespace Snapshot

def empty : Snapshot := ⟨.nil, 0, Dict.empty⟩

/-- The part of `_apply` that does not concern predicates. -/
def merge (s : Snapshot) (patch : Members) : Snapshot where
  context := deepMerge s.context patch
  version := s.version + 1
  pathVersions := s.pathVersions.insertAll
    ((changedPaths s.context patch).map fun path => (path, s.version + 1))

theorem get_merge_pathVersions (s : Snapshot) (patch : Members) (p : Str) :
    (s.merge patch).pathVersions.get p =
      if p ∈ changedPaths s.context patch then some (s.version + 1) else s.pathVersions.get p :=
  (Dict.get_insertAll_map _ _ (fun _ => s.version + 1) p).trans (by congr)

/-- Every path version is a version of the past. -/
def Bounded (s : Snapshot) : Prop := ∀ p v, s.pathVersions.get p = some v → v ≤ s.version

theorem Bounded.merge {s : Snapshot} (bounded : s.Bounded) (patch : Members) : (s.merge patch).Bounded := by
  intro p v stored
  rw [get_merge_pathVersions] at stored
  split at stored
  · obtain rfl := Option.some.inj stored
    exact Nat.le_refl _
  · exact Nat.le_succ_of_le (bounded p v stored)

theorem Bounded.readSetVersion_le {s : Snapshot} (bounded : s.Bounded) (paths : List Str) :
    readSetVersion s.pathVersions paths ≤ s.version :=
  readSetVersion_le_iff.mpr fun p v stored _ => bounded p v stored

/-- A read-set version never goes back. -/
theorem Bounded.readSetVersion_mono {s : Snapshot} (bounded : s.Bounded) (patch : Members) (paths : List Str) :
    readSetVersion s.pathVersions paths ≤ readSetVersion (s.merge patch).pathVersions paths := by
  refine readSetVersion_le_iff.mpr fun p v stored ⟨r, member, rel⟩ => ?_
  have after := get_merge_pathVersions s patch p
  split at after
  · exact Nat.le_trans (Nat.le_succ_of_le (bounded p v stored)) (le_readSetVersion after member rel)
  · exact le_readSetVersion (after.trans stored) member rel

/-- A change related to the read-set moves its version to the present. -/
theorem Bounded.unrelated_of_readSetVersion_eq {s : Snapshot} (bounded : s.Bounded) {patch : Members}
    {paths : List Str}
    (same : readSetVersion (s.merge patch).pathVersions paths = readSetVersion s.pathVersions paths) :
    ∀ r ∈ paths, ∀ q ∈ changedPaths s.context patch, related q r = false := by
  intro r member q changed
  by_contra rel
  rw [Bool.not_eq_false] at rel
  have stored : (s.merge patch).pathVersions.get q = some (s.version + 1) := by
    rw [get_merge_pathVersions, if_pos changed]
  have now := le_readSetVersion stored member rel
  have past := bounded.readSetVersion_le paths
  omega

end Snapshot

/-! ### Truth entries -/

/-- The entry of an evaluated predicate after an update: its truth value is the present one,
and its version has moved exactly if the value has. -/
structure Entry.Follows (old new : Entry) (version : Nat) (value : Bool) : Prop where
  truth : new.truth = value
  version : new.version = if value = old.truth then old.version else version
  registeredAt : new.registeredAt = old.registeredAt

theorem Entry.follows_self {entry : Entry} {version : Nat} {value : Bool} (same : entry.truth = value) :
    entry.Follows entry version value :=
  ⟨same, by rw [if_pos same.symm], rfl⟩

section

variable [PyText]

/-! ### Registered predicates -/

/-- The first component of `_expr_path`. -/
def exprPath (expr : Str) : Str := (matchPath expr).getD []

/-- The second component of `_expr_path`. -/
def exprRoot (expr : Str) : Str := rootOf (exprPath expr)

/-- `_expr_roots`. -/
def exprRoots (expr : Str) : List Str := sortedSet ((readSet [expr]).map rootOf)

/-- The entry a candidate gets when its truth value has changed, `none` when it has not. -/
def reEvaluate (merged : Members) (version : Nat) (expr : Str) (entry : Entry) :
    Except PyError (Option Entry) :=
  (truth expr merged).map fun now =>
    if now ≠ entry.truth then some { entry with version := version, truth := now } else none

/-- One turn of the loop over the registered predicates: only those with a changed root and a
related path are evaluated. -/
def reEvaluateItem (ch : Changed) (merged : Members) (version : Nat) (out : Dict Str Entry) (item : Str × Entry) :
    Except PyError (Dict Str Entry) :=
  if exprRoot item.1 ∈ ch.roots ∧ ch.related (exprPath item.1) = true then
    (reEvaluate merged version item.1 item.2).map fun changed =>
      match changed with
      | some entry => out.insert item.1 entry
      | none => out
  else .ok out

def reEvaluateAll (ch : Changed) (merged : Members) (version : Nat) (preds : Dict Str Entry) :
    Except PyError (Dict Str Entry) :=
  preds.items.foldlM (reEvaluateItem ch merged version) preds

/-- The same loop with the plain test, against every changed path. -/
def reEvaluatePairwise (changed : List Str) (merged : Members) (version : Nat) (preds : Dict Str Entry) :
    Except PyError (Dict Str Entry) :=
  preds.items.foldlM (fun out item =>
    if ∃ c ∈ changed, related c (exprPath item.1) = true then
      (reEvaluate merged version item.1 item.2).map fun entry =>
        match entry with
        | some entry => out.insert item.1 entry
        | none => out
    else .ok out) preds

/-- The tests by roots and by prefixes pass exactly what the plain test passes, and so does the loop. -/
theorem related_pairwise (changed : List Str) :
    (∀ path, ((Changed.ofPaths changed).related path = true ↔ ∃ c ∈ changed, related c path = true) ∧
      ((Changed.ofPaths changed).related path = true → rootOf path ∈ (Changed.ofPaths changed).roots)) ∧
    ∀ merged version preds, reEvaluateAll (.ofPaths changed) merged version preds =
      reEvaluatePairwise changed merged version preds := by
  refine ⟨fun path => ⟨Changed.related_iff, Changed.root_mem_of_related⟩, fun merged version preds => ?_⟩
  rw [reEvaluateAll, reEvaluatePairwise]
  congr 1
  funext out item
  have passes : exprRoot item.1 ∈ (Changed.ofPaths changed).roots ∧ (Changed.ofPaths changed).related (exprPath item.1) = true ↔
      ∃ c ∈ changed, related c (exprPath item.1) = true :=
    ⟨fun both => Changed.related_iff.mp both.2,
      fun rel => ⟨Changed.root_mem_of_related (Changed.related_iff.mpr rel), Changed.related_iff.mpr rel⟩⟩
  rw [reEvaluateItem, if_congr passes rfl rfl]

/-- `_apply`, at the time `now`. -/
def apply (retention now : ℚ) (s : Snapshot) (patch : Members) (preds : Dict Str Entry) :
    Except PyError (Snapshot × Dict Str Entry) :=
  let merged := s.merge patch
  let changed := changedPaths s.context patch
  let preds := preds.filter fun _ entry => decide (now - retention ≤ entry.registeredAt)
  if changed = [] then .ok (merged, preds)
  else (reEvaluateAll (.ofPaths changed) merged.context merged.version preds).map fun preds => (merged, preds)

/-! ### Stored truth values -/

/-- The truth value an entry has after a merge: kept if nothing it reads has changed. -/
theorem truth_merge_of_not_related {s : Snapshot} {patch : Members} (wf : patch.WF) {expr : Str}
    (quiet : (Changed.ofPaths (changedPaths s.context patch)).related (exprPath expr) = false) :
    truth expr (s.merge patch).context = truth expr s.context := by
  refine congrArg (Except.map Prod.fst) (checkExpression_deepMerge wf fun path matched q changed => ?_)
  rw [exprPath, matched, Option.getD_some] at quiet
  by_contra rel
  rw [Bool.not_eq_false] at rel
  rw [Changed.related_iff.mpr ⟨q, changed, rel⟩] at quiet
  cases quiet

theorem follows_reEvaluate {merged : Members} (version : Nat) {expr : Str} (entry : Entry) {value : Bool}
    (evaluated : truth expr merged = .ok value) :
    ∃ out, reEvaluate merged version expr entry = .ok out ∧ entry.Follows (out.getD entry) version value := by
  rw [reEvaluate, evaluated]
  by_cases same : value = entry.truth
  · refine ⟨none, by simp [Except.map, same], ?_⟩
    exact ⟨same.symm, by rw [if_pos same]; rfl, rfl⟩
  · refine ⟨some { entry with version := version, truth := value }, by simp [Except.map, same], ?_⟩
    exact ⟨rfl, by rw [if_neg same]; rfl, rfl⟩

/-- The stored truth of every registered predicate is its truth on this context. -/
def Registry (ctx : Members) (preds : Dict Str Entry) : Prop :=
  ∀ expr entry, preds.get expr = some entry → truth expr ctx = .ok entry.truth

/-- One turn settles its own item and leaves the others. -/
theorem reEvaluateItem_spec {s : Snapshot} {patch : Members} (wf : patch.WF) (version : Nat) (out : Dict Str Entry)
    {item : Str × Entry} (before : truth item.1 s.context = .ok item.2.truth) :
    ∃ out', reEvaluateItem (.ofPaths (changedPaths s.context patch)) (s.merge patch).context version out item = .ok out' ∧
      (∀ expr, expr ≠ item.1 → out'.get expr = out.get expr) ∧
      (out.get item.1 = some item.2 → ∃ new value, out'.get item.1 = some new ∧
        truth item.1 (s.merge patch).context = .ok value ∧ item.2.Follows new version value) := by
  rw [reEvaluateItem]
  by_cases rel : (Changed.ofPaths (changedPaths s.context patch)).related (exprPath item.1) = true
  · obtain ⟨value, after⟩ := truth_isOk item.1 before (s.merge patch).context
    obtain ⟨changed, result, follows⟩ := follows_reEvaluate version item.2 after
    rw [if_pos ⟨Changed.root_mem_of_related rel, rel⟩, result]
    cases changed with
    | none => exact ⟨out, rfl, fun _ _ => rfl, fun here => ⟨item.2, value, here, after, follows⟩⟩
    | some entry =>
      exact ⟨out.insert item.1 entry, rfl, fun expr other => Dict.get_insert_ne _ _ other,
        fun _ => ⟨entry, value, Dict.get_insert_self _ _ _, after, follows⟩⟩
  · have after := (truth_merge_of_not_related wf (Bool.eq_false_iff.mpr rel)).trans before
    rw [if_neg (fun both => rel both.2)]
    exact ⟨out, rfl, fun _ _ => rfl, fun here => ⟨item.2, item.2.truth, here, after, Entry.follows_self rfl⟩⟩

/-- The loop keeps what it does not reach and settles every item it passes. -/
theorem reEvaluateItems_spec {s : Snapshot} {patch : Members} (wf : patch.WF) (version : Nat)
    {todo : List (Str × Entry)} (out : Dict Str Entry) (distinct : (todo.map Prod.fst).Nodup)
    (before : ∀ item ∈ todo, truth item.1 s.context = .ok item.2.truth) :
    ∃ out', todo.foldlM (reEvaluateItem (.ofPaths (changedPaths s.context patch)) (s.merge patch).context version) out
        = .ok out' ∧
      (∀ expr, expr ∉ todo.map Prod.fst → out'.get expr = out.get expr) ∧
      ∀ item ∈ todo, out.get item.1 = some item.2 → ∃ new value, out'.get item.1 = some new ∧
        truth item.1 (s.merge patch).context = .ok value ∧ item.2.Follows new version value := by
  induction todo generalizing out with
  | nil => exact ⟨out, rfl, fun _ _ => rfl, fun _ member => absurd member List.not_mem_nil⟩
  | cons item rest ih =>
    rw [List.map_cons, List.nodup_cons] at distinct
    obtain ⟨mid, first, others, settled⟩ := reEvaluateItem_spec wf version out (before item List.mem_cons_self)
    obtain ⟨out', later, kept, settledRest⟩ :=
      ih mid distinct.2 fun item' member => before item' (List.mem_cons_of_mem _ member)
    refine ⟨out', by rw [List.foldlM_cons, first]; exact later, ?_, ?_⟩
    · intro expr absent
      rw [List.map_cons, List.mem_cons, not_or] at absent
      rw [kept expr absent.2, others expr absent.1]
    · intro item' member here
      rcases List.mem_cons.mp member with rfl | member
      · obtain ⟨new, value, present, after⟩ := settled here
        exact ⟨new, value, by rw [kept _ distinct.1, present], after⟩
      · have other : item'.1 ≠ item.1 := fun same =>
          distinct.1 (same ▸ List.mem_map.mpr ⟨item', member, rfl⟩)
        exact settledRest item' member (by rw [others _ other, here])

theorem reEvaluateAll_spec {s : Snapshot} {patch : Members} (wf : patch.WF) (version : Nat) {preds : Dict Str Entry}
    (registry : Registry s.context preds) :
    ∃ out, reEvaluateAll (.ofPaths (changedPaths s.context patch)) (s.merge patch).context version preds = .ok out ∧
      (∀ expr, preds.get expr = none → out.get expr = none) ∧
      ∀ expr entry, preds.get expr = some entry → ∃ new value, out.get expr = some new ∧
        truth expr (s.merge patch).context = .ok value ∧ entry.Follows new version value := by
  obtain ⟨out, result, kept, settled⟩ := reEvaluateItems_spec wf version preds preds.distinct
    fun item member => registry item.1 item.2 (Dict.mem_items.mp member)
  refine ⟨out, result, fun expr absent => ?_, fun expr entry stored => ?_⟩
  · rw [kept expr (lookup_eq_none.mp absent), absent]
  · exact settled (expr, entry) (Dict.mem_items.mpr stored) stored

/-- One update: the snapshot is merged, a predicate registered after it was registered before, and
its entry follows its truth value. -/
theorem apply_spec (retention now : ℚ) {s : Snapshot} {patch : Members} (wf : patch.WF) {preds : Dict Str Entry}
    (registry : Registry s.context preds) :
    ∃ preds', apply retention now s patch preds = .ok (s.merge patch, preds') ∧
      ∀ expr new, preds'.get expr = some new → ∃ entry value, preds.get expr = some entry ∧
        truth expr (s.merge patch).context = .ok value ∧ entry.Follows new (s.version + 1) value := by
  have kept : ∀ expr entry,
      (preds.filter fun _ entry => decide (now - retention ≤ entry.registeredAt)).get expr = some entry →
        preds.get expr = some entry := by
    intro expr entry stored
    rw [Dict.get_filter, Option.filter_eq_some_iff] at stored
    exact stored.1
  simp only [apply]
  by_cases none : changedPaths s.context patch = []
  · rw [if_pos none]
    refine ⟨_, rfl, fun expr new stored => ?_⟩
    have quiet : (Changed.ofPaths (changedPaths s.context patch)).related (exprPath expr) = false := by
      rw [Bool.eq_false_iff, ne_eq, Changed.related_iff, none]
      rintro ⟨c, member, _⟩
      cases member
    have before := kept _ _ stored
    exact ⟨new, new.truth, before,
      (truth_merge_of_not_related wf quiet).trans (registry _ _ before), Entry.follows_self rfl⟩
  · rw [if_neg none]
    obtain ⟨out, result, absent, present⟩ := reEvaluateAll_spec wf (s.merge patch).version
      (show Registry s.context (preds.filter fun _ entry => decide (now - retention ≤ entry.registeredAt)) from
        fun expr entry stored => registry _ _ (kept _ _ stored))
    refine ⟨out, by rw [result]; rfl, fun expr new stored => ?_⟩
    cases found : (preds.filter fun _ entry => decide (now - retention ≤ entry.registeredAt)).get expr with
    | none => rw [absent expr found] at stored; cases stored
    | some entry =>
      obtain ⟨new', value, stored', evaluated, follows⟩ := present expr entry found
      obtain rfl := Option.some.inj (stored'.symm.trans stored)
      exact ⟨entry, value, kept _ _ found, evaluated, follows⟩

end

end Xair
