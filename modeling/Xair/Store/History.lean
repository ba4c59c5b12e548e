import Xair.Store.Apply

/-!
# Histories of updates

The context store after each of a sequence of patches. Versions number the
patches from 1 on, so the snapshot of version `n` is the fold of the first `n`.
-/

namespace Xair

open Library

/-- The snapshot after these patches, from the empty store. -/
def history (patches : List Members) : Snapshot := patches.foldl Snapshot.merge Snapshot.empty

/-- The snapshot of a version of this history. -/
def atVersion (patches : List Members) (n : Nat) : Snapshot := history (patches.take n)

@[simp] theorem history_append (patches : List Members) (patch : Members) :
    history (patches ++ [patch]) = (history patches).merge patch := by
  rw [history, List.foldl_append]
  rfl

@[simp] theorem history_version (patches : List Members) : (history patches).version = patches.length := by
  induction patches using List.reverseRecOn with
  | nil => rfl
  | append_singleton patches patch ih =>
    rw [history_append, List.length_append, List.length_singleton, ← ih]
    rfl

theorem history_context (patches : List Members) : (history patches).context = patches.foldl deepMerge .nil := by
  induction patches using List.reverseRecOn with
  | nil => rfl
  | append_singleton patches patch ih =>
    rw [history_append, List.foldl_append, ← ih]
    rfl

theorem history_bounded (patches : List Members) : (history patches).Bounded := by
  induction patches using List.reverseRecOn with
  | nil => exact fun p v stored => absurd stored (by simp [history, Snapshot.empty])
  | append_singleton patches patch ih => rw [history_append]; exact ih.merge patch

theorem atVersion_of_length_le {patches : List Members} {n : Nat} (h : patches.length ≤ n) :
    atVersion patches n = history patches := by rw [atVersion, List.take_of_length_le h]

theorem atVersion_length (patches : List Members) : atVersion patches patches.length = history patches :=
  atVersion_of_length_le (Nat.le_refl _)

theorem atVersion_version {patches : List Members} {n : Nat} (h : n ≤ patches.length) :
    (atVersion patches n).version = n := by
  rw [atVersion, history_version, List.length_take, Nat.min_eq_left h]

theorem atVersion_succ {patches : List Members} {n : Nat} (h : n < patches.length) :
    atVersion patches (n + 1) = (atVersion patches n).merge patches[n] := by
  rw [atVersion, List.take_succ_eq_append_getElem h, history_append, atVersion]

/-- The past of a history does not depend on what follows. -/
theorem atVersion_append {patches more : List Members} {n : Nat} (h : n ≤ patches.length) :
    atVersion (patches ++ more) n = atVersion patches n := by
  rw [atVersion, atVersion, List.take_append_of_le_length h]

/-! ### Path versions -/

/-- The patch of this version changed the path, and no later one did. -/
def LastChange (patches : List Members) (p : Str) (v : Nat) : Prop :=
  (∃ n, ∃ h : n < patches.length, v = n + 1 ∧ p ∈ changedPaths (atVersion patches n).context patches[n]) ∧
    ∀ n, ∀ h : n < patches.length, v ≤ n → p ∉ changedPaths (atVersion patches n).context patches[n]

theorem get_pathVersions_iff {patches : List Members} {p : Str} {v : Nat} :
    (history patches).pathVersions.get p = some v ↔ LastChange patches p v := by
  unfold LastChange
  induction patches using List.reverseRecOn with
  | nil =>
    simp [history, Snapshot.empty]
  | append_singleton patches patch ih =>
    have past : ∀ n, ∀ h : n < patches.length, ∀ h' : n < (patches ++ [patch]).length,
        changedPaths (atVersion (patches ++ [patch]) n).context (patches ++ [patch])[n] =
          changedPaths (atVersion patches n).context patches[n] := fun n h _ => by
      rw [atVersion_append (Nat.le_of_lt h), List.getElem_append_left h]
    have last : ∀ h : patches.length < (patches ++ [patch]).length,
        changedPaths (atVersion (patches ++ [patch]) patches.length).context (patches ++ [patch])[patches.length] =
          changedPaths (history patches).context patch := fun _ => by
      rw [atVersion_append (Nat.le_refl _), atVersion_length, List.getElem_concat_length rfl]
    rw [history_append, Snapshot.get_merge_pathVersions, history_version]
    split
    · rename_i changed
      rw [Option.some.injEq]
      constructor
      · rintro rfl
        refine ⟨⟨patches.length, by simp, rfl, by rw [last]; exact changed⟩, fun n h later => ?_⟩
        rw [List.length_append, List.length_singleton] at h
        omega
      · rintro ⟨⟨n, h, rfl, _⟩, later⟩
        rw [List.length_append, List.length_singleton] at h
        by_contra other
        exact later patches.length (by simp) (by omega) (by rw [last]; exact changed)
    · rename_i unchanged
      rw [ih]
      constructor
      · rintro ⟨⟨n, h, rfl, changed⟩, later⟩
        refine ⟨⟨n, by rw [List.length_append]; omega, rfl, by rw [past n h]; exact changed⟩, fun m bound after => ?_⟩
        by_cases old : m < patches.length
        · rw [past m old]
          exact later m old after
        · rw [List.length_append, List.length_singleton] at bound
          obtain rfl : m = patches.length := by omega
          rw [last]
          exact unchanged
      · rintro ⟨⟨n, h, rfl, changed⟩, later⟩
        have old : n < patches.length := by
          rw [List.length_append, List.length_singleton] at h
          by_contra newest
          obtain rfl : n = patches.length := by omega
          rw [last] at changed
          exact unchanged changed
        exact ⟨⟨n, old, rfl, by rw [← past n old]; exact changed⟩, fun m bound after => by
          rw [← past m bound]
          exact later m (by rw [List.length_append]; omega) after⟩

theorem readSetVersion_mono (patches : List Members) {m n : Nat} (h : m ≤ n) (paths : List Str) :
    readSetVersion (atVersion patches m).pathVersions paths ≤
      readSetVersion (atVersion patches n).pathVersions paths := by
  induction n, h using Nat.le_induction with
  | base => exact Nat.le_refl _
  | succ n _ ih =>
    by_cases later : n < patches.length
    · rw [atVersion_succ later]
      exact Nat.le_trans ih (Snapshot.Bounded.readSetVersion_mono (history_bounded _) _ _)
    · have ended : patches.length ≤ n := Nat.le_of_not_lt later
      rwa [atVersion_of_length_le (Nat.le_succ_of_le ended), ← atVersion_of_length_le ended]

section

variable [PyText]

/-! ### Truth over a history -/

/-- An update that leaves the read-set version leaves every predicate of the read-set. -/
theorem checkExpression_succ {patches : List Members} (wf : ∀ patch ∈ patches, patch.WF) {exprs : List Str}
    {n : Nat} (h : n < patches.length)
    (same : readSetVersion (atVersion patches (n + 1)).pathVersions (readSet exprs) =
      readSetVersion (atVersion patches n).pathVersions (readSet exprs)) {expr : Str} (member : expr ∈ exprs) :
    checkExpression expr (atVersion patches (n + 1)).context = checkExpression expr (atVersion patches n).context := by
  rw [atVersion_succ h] at same ⊢
  refine checkExpression_deepMerge (wf _ (List.getElem_mem h)) fun path matched q changed => ?_
  exact (history_bounded _).unrelated_of_readSetVersion_eq same path
    (mem_readSet.mpr ⟨expr, member, matched⟩) q changed

theorem checkExpression_of_readSetVersion_eq {patches : List Members} (wf : ∀ patch ∈ patches, patch.WF)
    {exprs : List Str} {v v' : Nat} (bound : v' ≤ patches.length)
    (same : readSetVersion (atVersion patches v').pathVersions (readSet exprs) =
      readSetVersion (atVersion patches v).pathVersions (readSet exprs)) {expr : Str} (member : expr ∈ exprs) {u : Nat}
    (after : v ≤ u) (before : u ≤ v') :
    checkExpression expr (atVersion patches u).context = checkExpression expr (atVersion patches v).context := by
  induction u, after using Nat.le_induction with
  | base => rfl
  | succ u after ih =>
    -- between two equal values of a monotone version every version is equal
    have lower := readSetVersion_mono patches after (readSet exprs)
    have step := readSetVersion_mono patches (Nat.le_succ u) (readSet exprs)
    have upper := readSetVersion_mono patches before (readSet exprs)
    have level : readSetVersion (atVersion patches (u + 1)).pathVersions (readSet exprs) =
        readSetVersion (atVersion patches u).pathVersions (readSet exprs) := by
      rw [same] at upper
      exact Nat.le_antisymm (Nat.le_trans upper lower) step
    rw [checkExpression_succ wf (by omega) level member, ih (by omega)]

/-! ### Histories of `_apply` -/

/-- `_apply` one patch after the other, each at its own time, from the empty store. -/
def applyAll (retention : ℚ) (updates : List (ℚ × Members)) : Except PyError (Snapshot × Dict Str Entry) :=
  updates.foldlM (fun store update => apply retention update.1 store.1 update.2 store.2) (.empty, Dict.empty)

theorem apply_no_predicates (retention now : ℚ) (s : Snapshot) (patch : Members) :
    apply retention now s patch Dict.empty = .ok (s.merge patch, Dict.empty) := by
  simp only [apply]
  split <;> rfl

theorem applyAll_eq (retention : ℚ) (updates : List (ℚ × Members)) :
    applyAll retention updates = .ok (history (updates.map Prod.snd), Dict.empty) := by
  induction updates using List.reverseRecOn with
  | nil => rfl
  | append_singleton updates update ih =>
    rw [applyAll] at ih ⊢
    rw [List.foldlM_append, ih, List.map_append, List.map_singleton, history_append]
    exact (bind_pure _).trans (apply_no_predicates retention update.1 _ update.2)

/-- Versions with one read-set version have one truth value for each predicate, and so has every
version between them. -/
theorem truth_between_equal_readSetVersions {retention : ℚ} {updates : List (ℚ × Members)}
    (wf : ∀ update ∈ updates, update.2.WF) (exprs : List Str) {v v' : Nat} (bound : v' ≤ updates.length)
    {old new : Snapshot × Dict Str Entry} (first : applyAll retention (updates.take v) = .ok old)
    (last : applyAll retention (updates.take v') = .ok new)
    (same : readSetVersion old.1.pathVersions (readSet exprs) = readSetVersion new.1.pathVersions (readSet exprs)) :
    ∀ u, v ≤ u → u ≤ v' → ∃ mid, applyAll retention (updates.take u) = .ok mid ∧
      ∀ expr ∈ exprs, truth expr mid.1.context = truth expr old.1.context := by
  intro u after before
  rw [applyAll_eq, List.map_take] at first last
  obtain rfl := Except.ok.inj first
  obtain rfl := Except.ok.inj last
  refine ⟨_, applyAll_eq retention _, fun expr member => ?_⟩
  rw [List.map_take]
  refine congrArg (Except.map Prod.fst)
    (checkExpression_of_readSetVersion_eq ?_ (by simpa using bound) same.symm member after before)
  intro patch listed
  obtain ⟨update, present, rfl⟩ := List.mem_map.mp listed
  exact wf update present

end

/-- `a` is set, another path moves, and `a` is written again with the same value. -/
def rewrittenHistory : List (ℚ × Members) :=
  [(0, .single "a" (.int 1)), (1, .single "b" (.int 2)), (2, .single "a" (.float (.fin 1)))]

theorem truth_between_equal_readSetVersions_rewrite :
    ∃ mid, @applyAll PyText.ascii 3600 (rewrittenHistory.take 2) = .ok mid ∧
      ∀ expr ∈ ["a == 1".toList], @truth PyText.ascii expr mid.1.context = .ok true := by
  obtain ⟨mid, run, same⟩ := @truth_between_equal_readSetVersions PyText.ascii 3600 rewrittenHistory
    (by simp [rewrittenHistory, Members.WF, Json.WF, Members.keys]) ["a == 1".toList] 1 3 (by decide)
    _ _ (@applyAll_eq PyText.ascii 3600 (rewrittenHistory.take 1)) (@applyAll_eq PyText.ascii 3600 rewrittenHistory)
    (by decide +kernel) 2 (by decide) (by decide)
  refine ⟨mid, run, fun expr member => (same expr member).trans ?_⟩
  obtain rfl := List.mem_singleton.mp member
  decide +kernel

end Xair
