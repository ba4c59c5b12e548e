import Xair.Context.Merge

/-!
# Equal values

`same_value` tells apart whatever a predicate can, and `changed_paths` is empty exactly
when a merge leaves the value at every path the same.
-/

namespace Xair

/-! ### `same_value` -/

theorem sameValue_self {v : Json} (numbers : v.NoNaN) (wf : v.WF) : sameValue (some v) v = true := by
  cases v with
  | float x => exact PyFloat.eq_self numbers
  | arr xs => exact Elems.pyEq_self xs numbers wf
  | obj m => exact Json.pyEq_self (.obj m) numbers wf
  | _ => simp [sameValue]

/-- Values that are the same are equal to Python's `==`. -/
theorem pyEq_of_sameValue {v w : Json} (h : sameValue (some v) w = true) : v.pyEq w = true := by
  cases v <;> cases w <;> simp_all [sameValue, Json.pyEq, Json.number?, PyFloat.eq]

/-- The values at a path before and after: both missing, or the same. -/
def Same (old new : Option Json) : Prop :=
  match new with
  | none => old = none
  | some v => sameValue old v = true

theorem Same.refl {v : Option Json} (numbers : ∀ w, v = some w → w.NoNaN) (wf : ∀ w, v = some w → w.WF) : Same v v := by
  cases v with
  | none => rfl
  | some w => exact sameValue_self (numbers w rfl) (wf w rfl)

/-! ### What a path leads to -/

theorem Json.noNaN_walk {path : List Str} {v w : Json} (numbers : v.NoNaN) (found : v.walk path = some w) : w.NoNaN := by
  induction path generalizing v with
  | nil => exact Option.some.inj found ▸ numbers
  | cons key rest ih =>
    cases v with
    | obj m =>
      obtain ⟨u, present, found⟩ := Option.bind_eq_some_iff.mp found
      exact ih (Members.NoNaN.of_get numbers present) found
    | _ => cases found

theorem Json.wf_walk {path : List Str} {v w : Json} (wf : v.WF) (found : v.walk path = some w) : w.WF := by
  induction path generalizing v with
  | nil => exact Option.some.inj found ▸ wf
  | cons key rest ih =>
    cases v with
    | obj m =>
      obtain ⟨u, present, found⟩ := Option.bind_eq_some_iff.mp found
      exact ih (Members.WF.of_get wf present) found
    | _ => cases found

theorem same_walk_self {v : Json} (numbers : v.NoNaN) (wf : v.WF) (path : List Str) : Same (v.walk path) (v.walk path) :=
  .refl (fun _ => Json.noNaN_walk numbers) fun _ => Json.wf_walk wf

mutual

/-- Keys that each are one segment of a path, wherever a path leads. -/
def Json.Plain : Json → Prop
  | .obj m => m.Plain
  | _ => True

def Members.Plain : Members → Prop
  | .nil => True
  | .cons key value rest => (key ≠ [] ∧ '.' ∉ key) ∧ value.Plain ∧ rest.Plain

end

mutual

/-- What holds of a value and of what is below it holds of its leaves. -/
theorem leafItems_inherit {P : Json → Prop} {Q : Members → Prop} (items : ∀ key v rest, Q (.cons key v rest) → P v ∧ Q rest)
    (below : ∀ m, P (.obj m) → Q m) {pre : Str} : ∀ m : Members, Q m → ∀ leaf ∈ leafItems pre m, P leaf.2
  | .nil, _, _, member => absurd member List.not_mem_nil
  | .cons key val rest, h, leaf, member => by
    rcases List.mem_append.mp member with first | later
    · exact leafValue_inherit items below val (items _ _ _ h).1 leaf first
    · exact leafItems_inherit items below rest (items _ _ _ h).2 leaf later

theorem leafValue_inherit {P : Json → Prop} {Q : Members → Prop} (items : ∀ key v rest, Q (.cons key v rest) → P v ∧ Q rest)
    (below : ∀ m, P (.obj m) → Q m) {path : Str} : ∀ v : Json, P v → ∀ leaf ∈ leafValue path v, P leaf.2
  | .obj (.cons key val rest), h, leaf, member => by
    have inside := below _ h
    rcases List.mem_append.mp member with first | later
    · exact leafValue_inherit items below val (items _ _ _ inside).1 leaf first
    · exact leafItems_inherit items below rest (items _ _ _ inside).2 leaf later
  | .obj .nil, h, _, member | .null, h, _, member | .bool _, h, _, member | .int _, h, _, member
  | .float _, h, _, member | .str _, h, _, member | .arr _, h, _, member => by
    rw [List.mem_singleton.mp member]
    exact h

end

mutual

/-- A leaf is no object with items. -/
theorem leafItems_atomic {pre : Str} : ∀ m : Members, ∀ leaf ∈ leafItems pre m, ∀ n, leaf.2 = .obj n → n = .nil
  | .nil, _, member => absurd member List.not_mem_nil
  | .cons key val rest, leaf, member => by
    rcases List.mem_append.mp member with first | later
    · exact leafValue_atomic val leaf first
    · exact leafItems_atomic rest leaf later

theorem leafValue_atomic {path : Str} : ∀ v : Json, ∀ leaf ∈ leafValue path v, ∀ n, leaf.2 = .obj n → n = .nil
  | .obj (.cons key val rest), leaf, member => by
    rcases List.mem_append.mp member with first | later
    · exact leafValue_atomic val leaf first
    · exact leafItems_atomic rest leaf later
  | .obj .nil, _, member => by
    rw [List.mem_singleton.mp member]
    exact fun n same => (Json.obj.inj same).symm
  | .null, _, member | .bool _, _, member | .int _, _, member | .float _, _, member | .str _, _, member
  | .arr _, _, member => by
    rw [List.mem_singleton.mp member]
    exact fun n same => nomatch same

end

/-! ### What a merge puts at the leaves -/

theorem Json.walk_key (m : Members) (key : Str) : (Json.obj m).walk [key] = m.get key := by
  rw [walk]
  cases m.get key <;> rfl

/-- Under each key of a patch below `pre` there is the merge of the old value with the patch's. -/
def MergedBelow (old new : Members) (pre : Str) (patch : Members) : Prop :=
  ∀ key v, patch.get key = some v → getPath new (joinPath pre key) = some (mergeValue (getPath old (joinPath pre key)) v)

theorem MergedBelow.rest {old new : Members} {pre key : Str} {v : Json} {rest : Members}
    (merged : MergedBelow old new pre (.cons key v rest)) (fresh : key ∉ rest.keys) : MergedBelow old new pre rest := by
  intro key' u later
  refine merged key' u ?_
  have other : key ≠ key' := by
    rintro rfl
    rw [Members.get_eq_none.mpr fresh] at later
    cases later
  rw [Members.get, if_neg other, later]

theorem Members.Plain.key_of_get {m : Members} (plain : m.Plain) {key : Str} {v : Json} (found : m.get key = some v) :
    key ≠ [] ∧ '.' ∉ key := by
  induction m with
  | nil => cases found
  | cons k w rest ih =>
    rw [Members.get] at found
    split at found
    · rename_i same
      exact same ▸ plain.1
    · exact ih plain.2.2 found

theorem MergedBelow.of_value {old new : Members} {pre : Str} (nonempty : pre ≠ []) {m : Members} (plain : m.Plain) (wf : m.WF)
    (merged : getPath new pre = some (mergeValue (getPath old pre) (.obj m))) : MergedBelow old new pre m := by
  intro key v found
  have dotless := (plain.key_of_get found).2
  rw [getPath_joinPath nonempty dotless, getPath_joinPath nonempty dotless, merged, Option.bind_some]
  by_cases object : ∃ base, getPath old pre = some (.obj base)
  · obtain ⟨base, stored⟩ := object
    rw [stored, mergeValue_obj_obj, Option.bind_some, Json.walk_key, Json.walk_key, get_deepMerge_of_get_some wf found]
  · have scalar : ∀ base, getPath old pre ≠ some (.obj base) := not_exists.mp object
    rw [mergeValue_of_not_obj scalar, Json.walk_key, found]
    have missing : (getPath old pre).bind (Json.walk [key]) = none := by
      cases stored : getPath old pre with
      | none => rfl
      | some w =>
        cases w with
        | obj base => exact absurd stored (scalar base)
        | _ => rfl
    rw [missing, mergeValue_of_not_obj (by simp)]

theorem joinPath_key_ne_nil (pre : Str) {key : Str} (nonempty : key ≠ []) : joinPath pre key ≠ [] := by
  rw [joinPath]
  split
  · exact nonempty
  · simp

mutual

theorem getPath_leafItems {old new : Members} {pre : Str} : ∀ m : Members, m.Plain → m.WF → MergedBelow old new pre m →
    ∀ leaf ∈ leafItems pre m, getPath new leaf.1 = some (mergeValue (getPath old leaf.1) leaf.2)
  | .nil, _, _, _, _, member => absurd member List.not_mem_nil
  | .cons key val rest, plain, wf, merged, leaf, member => by
    rcases List.mem_append.mp member with first | later
    · have here := merged key val (by rw [Members.get, if_pos rfl])
      exact getPath_leafValue val (joinPath_key_ne_nil pre plain.1.1) plain.2.1 wf.2.1 here leaf first
    · exact getPath_leafItems rest plain.2.2 wf.2.2 (merged.rest wf.1) leaf later

theorem getPath_leafValue {old new : Members} {pre : Str} : ∀ v : Json, pre ≠ [] → v.Plain → v.WF →
    getPath new pre = some (mergeValue (getPath old pre) v) →
    ∀ leaf ∈ leafValue pre v, getPath new leaf.1 = some (mergeValue (getPath old leaf.1) leaf.2)
  | .obj (.cons key val rest), nonempty, plain, wf, merged, leaf, member => by
    have below := MergedBelow.of_value nonempty plain wf merged
    rcases List.mem_append.mp member with first | later
    · have here := below key val (by rw [Members.get, if_pos rfl])
      exact getPath_leafValue val (joinPath_key_ne_nil pre plain.1.1) plain.2.1 wf.2.1 here leaf first
    · exact getPath_leafItems rest plain.2.2 wf.2.2 (below.rest wf.1) leaf later
  | .obj .nil, _, _, _, merged, _, member | .null, _, _, _, merged, _, member | .bool _, _, _, _, merged, _, member
  | .int _, _, _, _, merged, _, member | .float _, _, _, _, merged, _, member | .str _, _, _, _, merged, _, member
  | .arr _, _, _, _, merged, _, member => by
    rw [List.mem_singleton.mp member]
    exact merged

end

theorem getPath_key (ctx : Members) {key : Str} (dotless : '.' ∉ key) : getPath ctx (joinPath [] key) = ctx.get key := by
  rw [joinPath, if_pos rfl, getPath, segments_of_no_dot dotless, Json.walk_key]

theorem getPath_leaf {patch : Members} (plain : patch.Plain) (wf : patch.WF) (ctx : Members) {leaf : Str × Json}
    (member : leaf ∈ leafItems [] patch) :
    getPath (deepMerge ctx patch) leaf.1 = some (mergeValue (getPath ctx leaf.1) leaf.2) := by
  refine getPath_leafItems patch plain wf (fun key v found => ?_) leaf member
  have dotless := (plain.key_of_get found).2
  rw [getPath_key _ dotless, getPath_key _ dotless, get_deepMerge_of_get_some wf found]

/-! ### What a merge leaves the same -/

theorem Members.length_set_of_get {m : Members} {key : Str} (stored : m.get key ≠ none) (v : Json) :
    (m.set key v).length = m.length := by
  induction m with
  | nil => exact absurd rfl stored
  | cons k w rest ih =>
    rw [get] at stored
    rw [set]
    split
    · rfl
    · rename_i other
      rw [if_neg other] at stored
      rw [length, length, ih stored]

/-- Merging values under old keys alone adds none. -/
theorem length_deepMerge {base patch : Members} (old : ∀ key v, patch.get key = some v → base.get key ≠ none) (wf : patch.WF) :
    (deepMerge base patch).length = base.length := by
  induction patch generalizing base with
  | nil => rfl
  | cons key val rest ih =>
    have here : base.get key ≠ none := old key val (by rw [Members.get, if_pos rfl])
    rw [deepMerge_cons, ih (fun key' v later => ?_) wf.2.2, Members.length_set_of_get here]
    rw [Members.get_set]
    split
    · simp
    · rename_i other
      exact old key' v (by rw [Members.get, if_neg (Ne.symm other), later])

/-- A patch that keeps what it names keeps the whole object. -/
theorem same_deepMerge {base patch : Members} (numbers : base.NoNaN) (wf : base.WF) (wfPatch : patch.WF)
    (kept : ∀ key v, patch.get key = some v →
      ∃ w, base.get key = some w ∧ ∀ path, Same (w.walk path) ((mergeValue (some w) v).walk path)) (path : List Str) :
    Same ((Json.obj base).walk path) ((Json.obj (deepMerge base patch)).walk path) := by
  cases path with
  | nil =>
    have items : base.pySub (deepMerge base patch) = true := by
      refine Members.pySub_of_get wf fun key v found => ?_
      cases named : patch.get key with
      | none => exact ⟨v, by rw [get_deepMerge_of_get_none named, found], Members.pyEq_item base numbers wf key v found⟩
      | some u =>
        obtain ⟨w, present, same⟩ := kept key u named
        obtain rfl := Option.some.inj (found.symm.trans present)
        exact ⟨_, by rw [get_deepMerge_of_get_some wfPatch named, found], pyEq_of_sameValue (same [])⟩
    have length : base.length = (deepMerge base patch).length := by
      refine (length_deepMerge (fun key v named => ?_) wfPatch).symm
      obtain ⟨w, present, _⟩ := kept key v named
      rw [present]
      simp
    change (Json.obj base).pyEq (.obj (deepMerge base patch)) = true
    rw [Json.pyEq, items, decide_eq_true length]
    rfl
  | cons key rest =>
    rw [Json.walk, Json.walk]
    cases named : patch.get key with
    | none =>
      rw [get_deepMerge_of_get_none named]
      exact same_walk_self (v := .obj base) numbers wf (key :: rest)
    | some v =>
      obtain ⟨w, present, same⟩ := kept key v named
      rw [get_deepMerge_of_get_some wfPatch named, present]
      exact same rest

theorem Json.walk_of_not_obj {v : Json} (h : ∀ m, v ≠ .obj m) (key : Str) (rest : List Str) : v.walk (key :: rest) = none := by
  cases v with
  | obj m => exact absurd rfl (h m)
  | _ => rfl

/-- One unchanged leaf. -/
theorem same_leaf {ctx : Members} (numbers : ctx.NoNaN) (wf : ctx.WF) {pre : Str} {v : Json} (leaf : ∀ m, v = .obj m → m = .nil)
    (unchanged : unchangedLeaf ctx (pre, v) = true) :
    ∃ w, getPath ctx pre = some w ∧ ∀ path, Same (w.walk path) ((mergeValue (some w) v).walk path) := by
  obtain ⟨w, stored⟩ : ∃ w, getPath ctx pre = some w := by
    cases stored : getPath ctx pre with
    | none =>
      rw [@unchangedLeaf_missing ctx (pre, v) stored] at unchanged
      cases unchanged
    | some w => exact ⟨w, rfl⟩
  refine ⟨w, stored, ?_⟩
  rw [unchangedLeaf, stored] at unchanged
  by_cases object : v = .obj .nil
  · subst object
    obtain ⟨base, rfl⟩ : ∃ base, w = .obj base := by
      cases w with
      | obj base => exact ⟨base, rfl⟩
      | _ => simp [isObject, sameValue] at unchanged
    exact same_walk_self (Json.noNaN_walk (v := .obj ctx) numbers stored) (Json.wf_walk (v := .obj ctx) wf stored)
  · have other : ∀ m, v ≠ .obj m := fun m same => object (leaf m same ▸ same)
    rw [decide_eq_false object, Bool.false_and, Bool.false_or] at unchanged
    have scalar := sameValue_not_obj unchanged other
    rw [mergeValue_of_not_obj (fun base same => scalar base (Option.some.inj same))]
    intro path
    cases path with
    | nil => exact unchanged
    | cons key rest =>
      rw [Json.walk_of_not_obj scalar, Json.walk_of_not_obj other]
      rfl

mutual

/-- Where every leaf is unchanged, there was a value already, and a merge keeps it. -/
theorem same_leafItems {ctx : Members} (numbers : ctx.NoNaN) (wf : ctx.WF) {pre : Str} : ∀ m : Members, m.Plain → m.WF →
    (∀ leaf ∈ leafItems pre m, unchangedLeaf ctx leaf = true) → ∀ key v, m.get key = some v →
      ∃ w, getPath ctx (joinPath pre key) = some w ∧ ∀ path, Same (w.walk path) ((mergeValue (some w) v).walk path)
  | .nil, _, _, _, _, _, found => nomatch found
  | .cons k u rest, plain, wfPatch, unchanged, key, v, found => by
    rw [Members.get] at found
    split at found
    · rename_i same
      obtain rfl := Option.some.inj found
      exact same ▸ same_leafValue numbers wf u (joinPath_key_ne_nil pre plain.1.1) plain.2.1 wfPatch.2.1
        fun leaf member => unchanged leaf (List.mem_append_left _ member)
    · exact same_leafItems numbers wf rest plain.2.2 wfPatch.2.2
        (fun leaf member => unchanged leaf (List.mem_append_right _ member)) key v found

theorem same_leafValue {ctx : Members} (numbers : ctx.NoNaN) (wf : ctx.WF) {pre : Str} : ∀ v : Json, pre ≠ [] → v.Plain → v.WF →
    (∀ leaf ∈ leafValue pre v, unchangedLeaf ctx leaf = true) →
      ∃ w, getPath ctx pre = some w ∧ ∀ path, Same (w.walk path) ((mergeValue (some w) v).walk path)
  | .obj (.cons key val rest), nonempty, plain, wfPatch, unchanged => by
    have object : ∃ base, getPath ctx pre = some (.obj base) := by
      by_contra scalar
      obtain ⟨leaf, member⟩ := List.exists_mem_of_ne_nil _ (leafValue_ne_nil (joinPath pre key) val)
      have below : leaf ∈ leafItems pre (.cons key val rest) := List.mem_append_left _ member
      have missing := unchangedLeaf_missing (missing_below nonempty (not_exists.mp scalar) below)
      rw [unchanged leaf below] at missing
      cases missing
    obtain ⟨base, stored⟩ := object
    have numbersBase : (Json.obj base).NoNaN := Json.noNaN_walk (v := .obj ctx) numbers stored
    have wfBase : (Json.obj base).WF := Json.wf_walk (v := .obj ctx) wf stored
    refine ⟨.obj base, stored, same_deepMerge numbersBase wfBase wfPatch fun key' u found => ?_⟩
    -- the value under a key of the old object is the old value at the longer path
    obtain ⟨w, present, same⟩ : ∃ w, getPath ctx (joinPath pre key') = some w ∧
        ∀ path, Same (w.walk path) ((mergeValue (some w) u).walk path) := by
      rw [Members.get] at found
      split at found
      · rename_i here
        obtain rfl := Option.some.inj found
        exact here ▸ same_leafValue numbers wf val (joinPath_key_ne_nil pre plain.1.1) plain.2.1 wfPatch.2.1
          fun leaf member => unchanged leaf (List.mem_append_left _ member)
      · exact same_leafItems numbers wf rest plain.2.2 wfPatch.2.2
          (fun leaf member => unchanged leaf (List.mem_append_right _ member)) key' u found
    refine ⟨w, ?_, same⟩
    rwa [getPath_joinPath nonempty (Members.Plain.key_of_get plain found).2, stored, Option.bind_some, Json.walk_key] at present
  | .obj .nil, _, _, _, unchanged =>
    same_leaf numbers wf (fun _ same => (Json.obj.inj same).symm) (unchanged _ (List.mem_singleton_self _))
  | .null, _, _, _, unchanged | .bool _, _, _, _, unchanged | .int _, _, _, _, unchanged | .float _, _, _, _, unchanged
  | .str _, _, _, _, unchanged | .arr _, _, _, _, unchanged =>
    same_leaf numbers wf (fun _ same => nomatch same) (unchanged _ (List.mem_singleton_self _))

end

/-! ### Changed paths -/

/-- What is merged at a leaf of the patch that changes. -/
theorem getPath_changed {ctx patch : Members} (plain : patch.Plain) (wf : patch.WF) {leaf : Str × Json}
    (member : leaf ∈ leafItems [] patch) (changed : unchangedLeaf ctx leaf = false) :
    getPath (deepMerge ctx patch) leaf.1 = some leaf.2 ∧ sameValue (getPath ctx leaf.1) leaf.2 = false := by
  rw [unchangedLeaf, Bool.or_eq_false_iff] at changed
  refine ⟨?_, changed.2⟩
  rw [getPath_leaf plain wf ctx member]
  cases value : leaf.2 with
  | obj m =>
    obtain rfl := leafItems_atomic patch leaf member m value
    rw [value, decide_eq_true rfl, Bool.true_and] at changed
    rw [mergeValue_of_not_obj]
    intro base stored
    rw [stored] at changed
    cases changed.1
  | _ => rfl

/-- A patch that has just been merged changes nothing. -/
theorem changedPaths_deepMerge {ctx patch : Members} (plain : patch.Plain) (numbers : patch.NoNaN) (wf : patch.WF) :
    changedPaths (deepMerge ctx patch) patch = [] := by
  rw [changedPaths, List.map_eq_nil_iff, List.filter_eq_nil_iff]
  intro leaf member
  have number : leaf.2.NoNaN := leafItems_inherit (P := Json.NoNaN) (Q := Members.NoNaN) (fun _ _ _ h => h) (fun _ h => h) patch
    numbers leaf member
  have unique : leaf.2.WF := leafItems_inherit (P := Json.WF) (Q := Members.WF) (fun _ _ _ h => h.2) (fun _ h => h) patch wf
    leaf member
  rw [unchangedLeaf, getPath_leaf plain wf ctx member]
  cases value : leaf.2 with
  | obj m =>
    obtain rfl := leafItems_atomic patch leaf member m value
    cases old : getPath ctx leaf.1 with
    | none => simp [mergeValue, isObject]
    | some w => cases w <;> simp [mergeValue, isObject]
  | _ =>
    rw [value] at number unique
    simp [mergeValue, sameValue_self number unique]

theorem same_of_unchanged {ctx patch : Members} (plain : patch.Plain) (numbers : ctx.NoNaN) (wf : ctx.WF) (wfPatch : patch.WF)
    (none : changedPaths ctx patch = []) (path : Str) : Same (getPath ctx path) (getPath (deepMerge ctx patch) path) := by
  refine same_deepMerge numbers wf wfPatch (fun key v found => ?_) (segments path)
  have unchanged : ∀ leaf ∈ leafItems [] patch, unchangedLeaf ctx leaf = true := fun leaf member =>
    unchanged_of_not_mem member (by rw [none]; exact List.not_mem_nil)
  obtain ⟨w, present, same⟩ := same_leafItems numbers wf patch plain wfPatch unchanged key v found
  rw [getPath_key _ (plain.key_of_get found).2] at present
  exact ⟨w, present, same⟩

theorem differs_of_changed {ctx patch : Members} (plain : patch.Plain) (wf : patch.WF) {path : Str}
    (changed : path ∈ changedPaths ctx patch) :
    path ∈ (leafItems [] patch).map Prod.fst ∧ ¬Same (getPath ctx path) (getPath (deepMerge ctx patch) path) := by
  obtain ⟨leaf, listed, rfl⟩ := List.mem_map.mp changed
  obtain ⟨member, differs⟩ := List.mem_filter.mp listed
  rw [Bool.not_eq_true'] at differs
  obtain ⟨merged, other⟩ := getPath_changed plain wf member differs
  refine ⟨List.mem_map_of_mem member, fun same => ?_⟩
  rw [merged, Same, other] at same
  cases same

/-- A patch changes no path exactly if the merge is the same at every path; every changed path is a leaf of the patch
at which the merge differs; and a patch that is replayed changes nothing. -/
theorem changedPaths_exact {ctx patch : Members} (plain : patch.Plain) (wf : ctx.WF) (wfPatch : patch.WF) (numbers : ctx.NoNaN)
    (numbersPatch : patch.NoNaN) :
    (changedPaths ctx patch = [] ↔ ∀ path, Same (getPath ctx path) (getPath (deepMerge ctx patch) path)) ∧
      (∀ path ∈ changedPaths ctx patch, path ∈ (leafItems [] patch).map Prod.fst ∧
        ¬Same (getPath ctx path) (getPath (deepMerge ctx patch) path)) ∧
      changedPaths (deepMerge ctx patch) patch = [] := by
  refine ⟨⟨same_of_unchanged plain numbers wf wfPatch, fun same => ?_⟩, fun path => differs_of_changed plain wfPatch,
    changedPaths_deepMerge plain numbersPatch wfPatch⟩
  refine List.eq_nil_iff_forall_not_mem.mpr fun path changed => ?_
  exact (differs_of_changed plain wfPatch changed).2 (same path)

/-- An item is replaced by an object, and an empty object is merged into an object. -/
theorem changedPaths_exact_replaced :
    changedPaths (.cons "a".toList (.int 1) (.single "b" (.obj (.single "c" .null))))
      (.cons "a".toList (.obj (.single "x" (.bool true))) (.single "b" (.obj .nil))) = ["a.x".toList] ∧
    ¬∀ path, Same (getPath (.cons "a".toList (.int 1) (.single "b" (.obj (.single "c" .null)))) path)
      (getPath (deepMerge (.cons "a".toList (.int 1) (.single "b" (.obj (.single "c" .null))))
        (.cons "a".toList (.obj (.single "x" (.bool true))) (.single "b" (.obj .nil)))) path) := by
  have changed : changedPaths (.cons "a".toList (.int 1) (.single "b" (.obj (.single "c" .null))))
      (.cons "a".toList (.obj (.single "x" (.bool true))) (.single "b" (.obj .nil))) = ["a.x".toList] := by decide +kernel
  refine ⟨changed, fun same => ?_⟩
  have none := (changedPaths_exact (by simp [Members.Plain, Json.Plain]) (by simp [Members.WF, Json.WF, Members.keys])
    (by simp [Members.WF, Json.WF, Members.keys]) (by simp [Members.NoNaN, Json.NoNaN])
    (by simp [Members.NoNaN, Json.NoNaN])).1.mpr same
  rw [changed] at none
  cases none

/-! ### What a predicate reads -/

/-- The value a predicate reads at a path, if there is one that is not null, is the same on both sides. -/
def SameRead (c c' : Members) (path : Str) : Prop :=
  (∃ v, getPath c' path = some v ∧ sameValue (getPath c path) v = true) ∨
    ((getPath c path).getD .null = .null ∧ (getPath c' path).getD .null = .null)

theorem SameRead.view {c c' : Members} {path : Str} (same : SameRead c c' path) : (resolve c path).view = (resolve c' path).view := by
  rw [resolve_eq_getPath, resolve_eq_getPath]
  rcases same with ⟨v, stored, same⟩ | ⟨old, new⟩
  · obtain ⟨w, old, view⟩ := view_eq_of_sameValue same
    rw [stored, old]
    exact view
  · rw [old, new]

section

variable [PyText]

theorem readSet_singleton {expr path : Str} (matched : matchPath expr = some path) : readSet [expr] = [path] := by
  simp [readSet, matched]

/-- The read-set of a predicate is the path it evaluates, and predicates cannot tell apart contexts that are the same on
their read-set. -/
theorem readSet_suffices :
    (∀ expr p, parse (strip expr) = .ok (some p) → readSet [expr] = [p.path]) ∧
      ∀ (exprs : List Str) (c c' : Members), (∀ path ∈ readSet exprs, SameRead c c' path) →
        ∀ expr ∈ exprs, truth expr c = truth expr c' := by
  refine ⟨fun expr p parsed => readSet_singleton (matchPath_of_parse parsed), fun exprs c c' same expr member => ?_⟩
  exact truth_congr fun path matched => (same path (mem_readSet.mpr ⟨expr, member, matched⟩)).view

end

/-- A number that is stored as a float the second time. -/
theorem readSet_suffices_rewritten :
    @readSet PyText.ascii [" a.b <= 1".toList] = ["a.b".toList] ∧
      @truth PyText.ascii " a.b <= 1".toList (.single "a" (.obj (.single "b" (.int 1)))) =
        @truth PyText.ascii " a.b <= 1".toList (.single "a" (.obj (.single "b" (.float (.fin 1))))) := by
  have suffices_ := @readSet_suffices PyText.ascii
  have path := suffices_.1 " a.b <= 1".toList ⟨"a.b".toList, .le, .int 1⟩ (by decide +kernel)
  refine ⟨path, suffices_.2 [" a.b <= 1".toList] _ _ (fun path' member => Or.inl ⟨.float (.fin 1), ?_⟩) _
    (List.mem_singleton_self _)⟩
  rw [path, List.mem_singleton] at member
  subst member
  exact ⟨by decide +kernel, by decide +kernel⟩

end Xair
