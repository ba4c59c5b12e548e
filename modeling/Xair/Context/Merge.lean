import Xair.Context.Validator

/-!
# What a merge can change

The bridge between `leaf_items`, `same_value`, `deep_merge` and `_related`: a
merge leaves the value at a path alone, as far as a predicate can see it, unless
a changed leaf path is related to that path.
-/

namespace Xair

/-- Every leaf below `pre` that is related to `pre` followed by `rest` is unchanged. -/
def Quiet (ctx : Members) (pre : Str) (rest : List Str) (v : Json) : Prop :=
  ∀ leaf ∈ leafValue pre v,
    segments leaf.1 <+: segments pre ++ rest ∨ segments pre ++ rest <+: segments leaf.1 →
      unchangedLeaf ctx leaf = true

theorem Quiet.below {ctx : Members} {pre s : Str} {rest : List Str} {m : Members} {v : Json}
    (nonempty : pre ≠ []) (dotless : '.' ∉ s) (quiet : Quiet ctx pre (s :: rest) (.obj m))
    (present : m.get s = some v) : Quiet ctx (joinPath pre s) rest v := by
  intro leaf member rel
  have notNil : m ≠ .nil := by
    rintro rfl
    cases present
  refine quiet leaf (by rw [leafValue_obj notNil]; exact leafValue_of_get present pre member) ?_
  rw [segments_joinPath nonempty, segments_of_no_dot dotless, List.append_assoc,
    List.singleton_append] at rel
  exact rel

theorem getPath_joinPath {ctx : Members} {pre s : Str} (nonempty : pre ≠ []) (dotless : '.' ∉ s) :
    getPath ctx (joinPath pre s) = (getPath ctx pre).bind (Json.walk [s]) := by
  rw [getPath, segments_joinPath nonempty, Json.walk_append, segments_of_no_dot dotless]
  rfl

/-- A value that is there has a leaf that is related to its path. -/
theorem exists_leaf_of_walk {pre : Str} (nonempty : pre ≠ []) {rest : List Str} {v w : Json}
    (dotless : ∀ s ∈ rest, '.' ∉ s) (found : v.walk rest = some w) : ∃ leaf ∈ leafValue pre v,
      segments pre ++ rest <+: segments leaf.1 ∨ segments leaf.1 <+: segments pre ++ rest := by
  induction rest generalizing pre v with
  | nil =>
    obtain ⟨leaf, member⟩ := List.exists_mem_of_ne_nil _ (leafValue_ne_nil pre v)
    refine ⟨leaf, member, Or.inl ?_⟩
    rw [List.append_nil]
    exact leafValue_extends nonempty v leaf member
  | cons s rest ih =>
    cases v with
    | obj m =>
      rw [Json.walk, Option.bind_eq_some_iff] at found
      obtain ⟨u, present, found⟩ := found
      obtain ⟨leaf, member, rel⟩ := ih (joinPath_ne_nil nonempty)
        (fun s' later => dotless s' (List.mem_cons_of_mem _ later)) found
      have notNil : m ≠ .nil := by
        rintro rfl
        cases present
      rw [segments_joinPath nonempty, segments_of_no_dot (dotless s List.mem_cons_self),
        List.append_assoc, List.singleton_append] at rel
      exact ⟨leaf, by rw [leafValue_obj notNil]; exact leafValue_of_get present pre member, rel⟩
    | _ => cases found

/-- Below a value that is not an object every leaf is missing. -/
theorem missing_below {ctx : Members} {pre : Str} (nonempty : pre ≠ []) {m : Members}
    (old : ∀ base, getPath ctx pre ≠ some (.obj base)) {leaf : Str × Json} (member : leaf ∈ leafItems pre m) :
    getPath ctx leaf.1 = none := by
  have below : ∃ key val, leaf ∈ leafValue (joinPath pre key) val := by
    induction m with
    | nil => cases member
    | cons key val rest ih =>
      rcases List.mem_append.mp member with first | later
      · exact ⟨key, val, first⟩
      · exact ih later
  obtain ⟨key, val, member⟩ := below
  obtain ⟨more, extends_⟩ := leafValue_extends (joinPath_ne_nil nonempty) val leaf member
  rw [segments_joinPath nonempty, List.append_assoc] at extends_
  rw [getPath, ← extends_, Json.walk_append]
  change (getPath ctx pre).bind _ = none
  obtain ⟨later, split⟩ := segments_cons key
  rw [split]
  cases stored : getPath ctx pre with
  | none => rfl
  | some v =>
    cases v with
    | obj base => exact absurd stored (old base)
    | _ => rfl

theorem resolve_of_not_obj {v : Json} (h : ∀ m, v ≠ .obj m) (s : Str) (rest : List Str) :
    v.resolve (s :: rest) = .null := by
  cases v with
  | obj m => exact absurd rfl (h m)
  | _ => rfl

theorem sameValue_obj {w : Json} {m : Members} (h : sameValue (some w) (.obj m) = true) :
    ∃ base, w = .obj base := by
  cases w with
  | obj base => exact ⟨base, rfl⟩
  | _ => cases h

theorem sameValue_not_obj {w v : Json} (h : sameValue (some w) v = true) (other : ∀ m, v ≠ .obj m) :
    ∀ m, w ≠ .obj m := by
  rintro m rfl
  cases v with
  | obj n => exact other n rfl
  | _ => cases h

/-- One leaf: what is unchanged reads the same after the merge. -/
theorem view_resolve_leaf {ctx : Members} {pre : Str} {v : Json}
    (unchanged : unchangedLeaf ctx (pre, v) = true) (leaf : ∀ m, v = .obj m → m = .nil) (rest : List Str) :
    ((mergeValue (getPath ctx pre) v).resolve rest).view = (((getPath ctx pre).getD .null).resolve rest).view := by
  cases v with
  | obj m =>
    obtain rfl := leaf m rfl
    have object : ∃ base, getPath ctx pre = some (.obj base) := by
      cases stored : getPath ctx pre with
      | none => simp [unchangedLeaf, stored, isObject, sameValue] at unchanged
      | some w =>
        cases w with
        | obj base => exact ⟨base, rfl⟩
        | _ => simp [unchangedLeaf, stored, isObject, sameValue] at unchanged
    obtain ⟨base, stored⟩ := object
    rw [stored, mergeValue_obj_obj]
    rfl
  | _ =>
    simp only [unchangedLeaf, reduceCtorEq, decide_false, Bool.false_and, Bool.false_or] at unchanged
    obtain ⟨w, stored, same⟩ := view_eq_of_sameValue unchanged
    rw [stored] at unchanged ⊢
    have scalar := sameValue_not_obj unchanged (fun m => by simp)
    rw [mergeValue_of_not_obj (fun base => by simpa using scalar base), Option.getD_some]
    cases rest with
    | nil => exact same.symm
    | cons s rest => rw [resolve_of_not_obj (fun m => by simp), resolve_of_not_obj scalar]

theorem view_resolve_mergeValue {ctx : Members} {pre : Str} (nonempty : pre ≠ []) {rest : List Str}
    (dotless : ∀ s ∈ rest, '.' ∉ s) {v : Json} (wf : v.WF) (quiet : Quiet ctx pre rest v) :
    ((mergeValue (getPath ctx pre) v).resolve rest).view =
      (((getPath ctx pre).getD .null).resolve rest).view := by
  induction rest generalizing pre v with
  | nil =>
    by_cases nested : ∃ m, v = .obj m ∧ m ≠ .nil
    · obtain ⟨m, rfl, notNil⟩ := nested
      by_cases object : ∃ base, getPath ctx pre = some (.obj base)
      · obtain ⟨base, stored⟩ := object
        rw [stored, mergeValue_obj_obj]
        rfl
      · -- every leaf below is related to `pre`, and missing, hence changed
        obtain ⟨leaf, member⟩ := List.exists_mem_of_ne_nil _ (leafValue_ne_nil pre (.obj m))
        have unchanged := quiet leaf member
          (Or.inr (by rw [List.append_nil]; exact leafValue_extends nonempty _ leaf member))
        rw [leafValue_obj notNil] at member
        rw [unchangedLeaf_missing (missing_below nonempty (fun base => not_exists.mp object base) member)]
          at unchanged
        cases unchanged
    · have leaf : ∀ m, v = .obj m → m = .nil := fun m same => by
        by_contra notNil
        exact nested ⟨m, same, notNil⟩
      refine view_resolve_leaf (quiet (pre, v) ?_ (Or.inl (by rw [List.append_nil]))) leaf []
      cases v with
      | obj m => obtain rfl := leaf m rfl; exact List.mem_singleton_self _
      | _ => exact List.mem_singleton_self _
  | cons s rest ih =>
    by_cases nested : ∃ m, v = .obj m ∧ m ≠ .nil
    · obtain ⟨m, rfl, notNil⟩ := nested
      have dotless_s := dotless s List.mem_cons_self
      by_cases object : ∃ base, getPath ctx pre = some (.obj base)
      · obtain ⟨base, stored⟩ := object
        rw [stored, mergeValue_obj_obj, Option.getD_some, Json.resolve, Json.resolve]
        cases present : m.get s with
        | none => rw [get_deepMerge_of_get_none present]
        | some u =>
          rw [get_deepMerge_of_get_some wf present, Option.getD_some]
          have below : getPath ctx (joinPath pre s) = _ := getPath_joinPath nonempty dotless_s
          rw [stored, Option.bind_some] at below
          have step := ih (joinPath_ne_nil nonempty)
            (fun s' later => dotless s' (List.mem_cons_of_mem _ later))
            (Members.WF.of_get wf present) (quiet.below nonempty dotless_s present)
          have value : getPath ctx (joinPath pre s) = base.get s := by
            rw [below, Json.walk]
            cases base.get s <;> rfl
          rwa [value] at step
      · -- the old value has nothing below it, and a new one would show as a changed leaf
        have absent : ∀ base, getPath ctx pre ≠ some (.obj base) := fun base => not_exists.mp object base
        rw [mergeValue_of_not_obj absent]
        have oldNull : ((getPath ctx pre).getD .null).resolve (s :: rest) = .null := by
          cases stored : getPath ctx pre with
          | none => rfl
          | some w => exact resolve_of_not_obj (fun base same => absent base (by rw [stored]; exact congrArg _ same)) s rest
        rw [oldNull, Json.resolve_eq_walk]
        cases found : (Json.obj m).walk (s :: rest) with
        | none => rfl
        | some w =>
          obtain ⟨leaf, member, rel⟩ := exists_leaf_of_walk nonempty dotless found
          have unchanged := quiet leaf member rel.symm
          rw [leafValue_obj notNil] at member
          rw [unchangedLeaf_missing (missing_below nonempty absent member)] at unchanged
          cases unchanged
    · have leaf : ∀ m, v = .obj m → m = .nil := fun m same => by
        by_contra notNil
        exact nested ⟨m, same, notNil⟩
      refine view_resolve_leaf (quiet (pre, v) ?_ (Or.inl (List.prefix_append _ _))) leaf (s :: rest)
      cases v with
      | obj m => obtain rfl := leaf m rfl; exact List.mem_singleton_self _
      | _ => exact List.mem_singleton_self _

/-- A merge that changes no path related to `path` leaves what predicates read there. -/
theorem view_resolve_deepMerge {ctx patch : Members} (wf : patch.WF) {path : Str} (root : rootOf path ≠ [])
    (unrelated : ∀ q ∈ changedPaths ctx patch, related q path = false) :
    (resolve (deepMerge ctx patch) path).view = (resolve ctx path).view := by
  obtain ⟨rest, split⟩ := segments_cons path
  have dotless : ∀ s ∈ rootOf path :: rest, '.' ∉ s := fun s member =>
    no_dot_of_mem_segments (show s ∈ segments path by rw [split]; exact member)
  have alone := segments_of_no_dot (dotless _ List.mem_cons_self)
  rw [resolve, resolve, split, Json.resolve, Json.resolve]
  cases present : patch.get (rootOf path) with
  | none => rw [get_deepMerge_of_get_none present]
  | some v =>
    rw [get_deepMerge_of_get_some wf present, Option.getD_some]
    have value : getPath ctx (rootOf path) = ctx.get (rootOf path) := by
      rw [getPath, alone, Json.walk]
      cases ctx.get (rootOf path) <;> rfl
    have quiet : Quiet ctx (rootOf path) rest v := by
      intro leaf member rel
      by_contra changed
      have isLeaf : leaf ∈ leafItems [] patch := leafValue_of_get present [] member
      have absent : leaf.1 ∉ changedPaths ctx patch := fun listed => by
        have no := unrelated _ listed
        rw [alone, List.singleton_append, ← split] at rel
        rw [Bool.eq_false_iff, ne_eq, related_iff] at no
        exact no rel
      exact changed (unchanged_of_not_mem isLeaf absent)
    have step := view_resolve_mergeValue root
      (fun s later => dotless s (List.mem_cons_of_mem _ later)) (wf.of_get present) quiet
    rwa [value] at step

section

variable [PyText]

/-- A merge that changes no path related to the one an expression reads keeps its result. -/
theorem checkExpression_deepMerge {ctx patch : Members} (wf : patch.WF) {expr : Str}
    (unrelated : ∀ path, matchPath expr = some path → ∀ q ∈ changedPaths ctx patch, related q path = false) :
    checkExpression expr (deepMerge ctx patch) = checkExpression expr ctx :=
  checkExpression_congr fun path matched =>
    view_resolve_deepMerge wf (rootOf_matchPath_ne_nil matched) (unrelated path matched)

end

/-! ### What a merge reads -/

theorem changedPaths_congr {c c' patch : Members}
    (h : ∀ leaf ∈ leafItems [] patch, getPath c leaf.1 = getPath c' leaf.1) :
    changedPaths c patch = changedPaths c' patch := by
  rw [changedPaths, changedPaths]
  congr 1
  refine List.filter_congr fun leaf member => ?_
  rw [unchangedLeaf, unchangedLeaf, h leaf member]

theorem get_deepMerge_congr {c c' patch : Members} (wf : patch.WF) {r : Str} (same : c.get r = c'.get r) :
    (deepMerge c patch).get r = (deepMerge c' patch).get r := by
  cases named : patch.get r with
  | none => rw [get_deepMerge_of_get_none named, get_deepMerge_of_get_none named, same]
  | some v => rw [get_deepMerge_of_get_some wf named, get_deepMerge_of_get_some wf named, same]

/-- A path reads nothing but its root. -/
theorem getPath_congr_root {c c' : Members} {path : Str} (same : c.get (rootOf path) = c'.get (rootOf path)) :
    getPath c path = getPath c' path := by
  obtain ⟨rest, split⟩ := segments_cons path
  rw [getPath, getPath, split, Json.walk, Json.walk, same]

/-- Keys that each are one segment of a path. -/
def PlainKeys (patch : Members) : Prop := ∀ key ∈ patch.keys, key ≠ [] ∧ '.' ∉ key

theorem rootOf_leaf_mem_keys {patch : Members} (plain : PlainKeys patch) {leaf : Str × Json}
    (member : leaf ∈ leafItems [] patch) : rootOf leaf.1 ∈ patch.keys := by
  induction patch with
  | nil => cases member
  | cons key val rest ih =>
    obtain ⟨nonempty, dotless⟩ := plain key List.mem_cons_self
    rcases List.mem_append.mp member with here | later
    · have below := leafValue_extends nonempty val leaf here
      rw [segments_of_no_dot dotless] at below
      obtain ⟨tail, split⟩ := below
      rw [rootOf, ← split]
      exact List.mem_cons_self
    · exact List.mem_cons_of_mem _ (ih (fun key member => plain key (List.mem_cons_of_mem _ member)) later)

theorem rootOf_changed_mem_keys {c patch : Members} (plain : PlainKeys patch) {path : Str}
    (changed : path ∈ changedPaths c patch) : rootOf path ∈ patch.keys := by
  obtain ⟨leaf, member, rfl⟩ := List.mem_map.mp changed
  exact rootOf_leaf_mem_keys plain (List.mem_filter.mp member).1

/-- What a patch with plain keys changes depends on the roots it names alone. -/
theorem changedPaths_congr_roots {c c' patch : Members} (plain : PlainKeys patch)
    (same : ∀ r ∈ patch.keys, c.get r = c'.get r) : changedPaths c patch = changedPaths c' patch :=
  changedPaths_congr fun _ member => getPath_congr_root (same _ (rootOf_leaf_mem_keys plain member))

end Xair
