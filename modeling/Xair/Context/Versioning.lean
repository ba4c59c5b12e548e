import Xair.Data.Json
import Xair.Library.Dict

/-!
# Path versions and read-sets

The functions of `versioning.py`. A path version is the version at which a
leaf path last changed value; a read-set version is the largest one among the
paths related to a read-set.
-/

namespace Xair

open Library

/-! ### Leaves of a patch -/

/-- `f"{prefix}.{key}" if prefix else key`. -/
def joinPath (pre key : Str) : Str := if pre = [] then key else pre ++ '.' :: key

mutual

def leafItems (pre : Str) : Members → List (Str × Json)
  | .nil => []
  | .cons key val rest => leafValue (joinPath pre key) val ++ leafItems pre rest

/-- The leaves below one item: those of a non-empty object, else the item itself. -/
def leafValue (path : Str) : Json → List (Str × Json)
  | .obj (.cons key val rest) => leafValue (joinPath path key) val ++ leafItems path rest
  | val => [(path, val)]

end

theorem leafValue_obj {m : Members} (h : m ≠ .nil) (path : Str) :
    leafValue path (.obj m) = leafItems path m := by
  cases m with
  | nil => exact absurd rfl h
  | cons => rfl

theorem leafValue_of_get {m : Members} {key : Str} {v : Json} (present : m.get key = some v) (pre : Str)
    {leaf : Str × Json} (h : leaf ∈ leafValue (joinPath pre key) v) : leaf ∈ leafItems pre m := by
  induction m with
  | nil => cases present
  | cons k w rest ih =>
    rw [Members.get] at present
    split at present
    · rename_i same
      obtain rfl := Option.some.inj present
      subst same
      exact List.mem_append_left _ h
    · exact List.mem_append_right _ (ih present)

theorem segments_joinPath {pre key : Str} (nonempty : pre ≠ []) :
    segments (joinPath pre key) = segments pre ++ segments key := by
  rw [joinPath, if_neg nonempty, segments_join]

theorem joinPath_ne_nil {pre key : Str} (nonempty : pre ≠ []) : joinPath pre key ≠ [] := by
  simp [joinPath, nonempty]

mutual

theorem leafItems_extends {pre : Str} (nonempty : pre ≠ []) : ∀ m : Members, ∀ leaf ∈ leafItems pre m,
    segments pre <+: segments leaf.1
  | .nil, _, h => absurd h List.not_mem_nil
  | .cons key val rest, leaf, h => by
    rcases List.mem_append.mp h with first | later
    · have below := leafValue_extends (joinPath_ne_nil nonempty) val leaf first
      rw [segments_joinPath nonempty] at below
      exact (List.prefix_append _ _).trans below
    · exact leafItems_extends nonempty rest leaf later

/-- The leaves below a path extend it. -/
theorem leafValue_extends {path : Str} (nonempty : path ≠ []) : ∀ v : Json, ∀ leaf ∈ leafValue path v,
    segments path <+: segments leaf.1
  | .obj (.cons key val rest), leaf, h => by
    rcases List.mem_append.mp h with first | later
    · have below := leafValue_extends (joinPath_ne_nil nonempty) val leaf first
      rw [segments_joinPath nonempty] at below
      exact (List.prefix_append _ _).trans below
    · exact leafItems_extends nonempty rest leaf later
  | .obj .nil, _, h | .null, _, h | .bool _, _, h | .int _, _, h | .float _, _, h | .str _, _, h
  | .arr _, _, h => by rw [List.mem_singleton.mp h]

end

theorem leafValue_ne_nil (path : Str) : ∀ v : Json, leafValue path v ≠ []
  | .obj (.cons key val _) => fun h =>
    leafValue_ne_nil (joinPath path key) val (List.append_eq_nil_iff.mp h).1
  | .obj .nil | .null | .bool _ | .int _ | .float _ | .str _ | .arr _ => List.cons_ne_nil _ _

/-! ### Values at a path -/

/-- `get_path`; `none` is the `_MISSING` marker. -/
def getPath (context : Members) (path : Str) : Option Json := (Json.obj context).walk (segments path)

/-- `same_value`, with `none` for the `_MISSING` marker. -/
def sameValue : Option Json → Json → Bool
  | none, _ => false
  | some (.bool a), .bool b => a == b
  | some (.bool _), _ => false
  | some _, .bool _ => false
  | some (.int a), .int b => decide (a = b)
  | some (.int a), .float y => (PyFloat.fin a).eq y
  | some (.float x), .int b => x.eq (.fin b)
  | some (.float x), .float y => x.eq y
  | some .null, .null => true
  | some (.str s), .str t => decide (s = t)
  | some (.arr xs), .arr ys => xs.pyEq ys
  | some (.obj m), .obj n => (Json.obj m).pyEq (.obj n)
  | some _, _ => false

def isObject : Option Json → Bool
  | some (.obj _) => true
  | _ => false

/-- Does the loop of `changed_paths` skip this leaf? -/
def unchangedLeaf (old : Members) (leaf : Str × Json) : Bool :=
  (decide (leaf.2 = .obj .nil) && isObject (getPath old leaf.1)) || sameValue (getPath old leaf.1) leaf.2

def changedPaths (old patch : Members) : List Str :=
  ((leafItems [] patch).filter fun leaf => !unchangedLeaf old leaf).map Prod.fst

theorem unchanged_of_not_mem {old patch : Members} {leaf : Str × Json} (member : leaf ∈ leafItems [] patch)
    (h : leaf.1 ∉ changedPaths old patch) : unchangedLeaf old leaf = true := by
  cases same : unchangedLeaf old leaf with
  | true => rfl
  | false =>
    exact absurd (List.mem_map.mpr ⟨leaf, List.mem_filter.mpr ⟨member, by simp [same]⟩, rfl⟩) h

theorem unchangedLeaf_missing {old : Members} {leaf : Str × Json} (missing : getPath old leaf.1 = none) :
    unchangedLeaf old leaf = false := by
  simp [unchangedLeaf, missing, isObject, sameValue]

/-! ### Relatedness -/

/-- `_related`: equal, or one is the other followed by a dot and more. -/
def related (a b : Str) : Bool :=
  decide (a = b) || startsWith (b ++ ['.']) a || startsWith (a ++ ['.']) b

theorem related_iff {a b : Str} :
    related a b = true ↔ segments a <+: segments b ∨ segments b <+: segments a := by
  rw [prefix_segments_iff, prefix_segments_iff, related, Bool.or_eq_true, Bool.or_eq_true,
    decide_eq_true_eq, startsWith_iff, startsWith_iff]
  simp only [List.append_assoc, List.cons_append, List.nil_append]
  constructor
  · rintro ((h | h) | h)
    · exact Or.inl (Or.inl h.symm)
    · exact Or.inr (Or.inr h)
    · exact Or.inl (Or.inr h)
  · rintro ((h | h) | (h | h))
    · exact Or.inl (Or.inl h.symm)
    · exact Or.inr h
    · exact Or.inl (Or.inl h)
    · exact Or.inl (Or.inr h)

theorem related_comm (a b : Str) : related a b = related b a := by
  rw [Bool.eq_iff_iff, related_iff, related_iff, or_comm]

theorem rootOf_eq_of_related {a b : Str} (h : related a b = true) : rootOf a = rootOf b := by
  obtain ⟨as, ha⟩ := segments_cons a
  obtain ⟨bs, hb⟩ := segments_cons b
  rw [related_iff, ha, hb, List.cons_prefix_cons, List.cons_prefix_cons] at h
  rcases h with h | h
  · exact h.1
  · exact h.1.symm

/-- `read_set_version`; 0 if no stored path is related. -/
def readSetVersion (pathVersions : Dict Str Nat) (paths : List Str) : Nat :=
  maxOf ((pathVersions.items.filter fun item => paths.any (related item.1)).map Prod.snd)

theorem readSetVersion_le_iff {pathVersions : Dict Str Nat} {paths : List Str} {n : Nat} :
    readSetVersion pathVersions paths ≤ n ↔
      ∀ p v, pathVersions.get p = some v → (∃ r ∈ paths, related p r = true) → v ≤ n := by
  rw [readSetVersion, maxOf_le_iff]
  simp only [List.mem_map, List.mem_filter, List.any_eq_true]
  constructor
  · intro bound p v stored rel
    exact bound v ⟨(p, v), ⟨Dict.mem_items.mpr stored, rel⟩, rfl⟩
  · rintro bound m ⟨⟨p, v⟩, ⟨member, rel⟩, rfl⟩
    exact bound p v (Dict.mem_items.mp member) rel

theorem le_readSetVersion {pathVersions : Dict Str Nat} {paths : List Str} {p r : Str} {v : Nat}
    (stored : pathVersions.get p = some v) (member : r ∈ paths) (rel : related p r = true) :
    v ≤ readSetVersion pathVersions paths :=
  readSetVersion_le_iff.mp (Nat.le_refl _) p v stored ⟨r, member, rel⟩

/-! ### Predicate versions -/

/-- A registered predicate: the version of its last truth change, its truth, and the time of
its last registration in seconds since the epoch. -/
structure Entry where
  version : Nat
  truth : Bool
  registeredAt : ℚ
  deriving DecidableEq

def predicateVersion.loop (predVersions : Dict Str Entry) (out : Int) : List Str → Int
  | [] => out
  | e :: exprs =>
    match predVersions.get e with
    | none => -1
    | some entry => loop predVersions (max out entry.version) exprs

/-- `predicate_version`; -1 if an expression is not registered. -/
def predicateVersion (predVersions : Dict Str Entry) (exprs : List Str) : Int :=
  predicateVersion.loop predVersions 0 exprs

theorem predicateVersion.loop_spec {predVersions : Dict Str Entry} {exprs : List Str} {out : Int}
    (registered : loop predVersions out exprs ≠ -1) :
    out ≤ loop predVersions out exprs ∧
      ∀ e ∈ exprs, ∃ entry, predVersions.get e = some entry ∧
        (entry.version : Int) ≤ loop predVersions out exprs := by
  induction exprs generalizing out with
  | nil => exact ⟨Int.le_refl _, fun _ h => absurd h List.not_mem_nil⟩
  | cons e₁ exprs ih =>
    rw [loop] at registered ⊢
    cases found : predVersions.get e₁ with
    | none => rw [found] at registered; exact absurd rfl registered
    | some entry =>
      rw [found] at registered
      obtain ⟨above, rest⟩ := ih registered
      refine ⟨Int.le_trans (Int.le_max_left _ _) above, fun e member => ?_⟩
      rcases List.mem_cons.mp member with rfl | later
      · exact ⟨entry, found, Int.le_trans (Int.le_max_right _ _) above⟩
      · exact rest e later

/-- A version that is not -1 bounds the versions of the entries of all expressions. -/
theorem predicateVersion_spec {predVersions : Dict Str Entry} {exprs : List Str}
    (registered : predicateVersion predVersions exprs ≠ -1) {e : Str} (member : e ∈ exprs) :
    ∃ entry, predVersions.get e = some entry ∧
      (entry.version : Int) ≤ predicateVersion predVersions exprs :=
  (predicateVersion.loop_spec registered).2 e member

theorem predicateVersion.loop_le {predVersions : Dict Str Entry} {exprs : List Str} {out n : Int}
    (start : out ≤ n) (positive : -1 ≤ n)
    (bound : ∀ e ∈ exprs, ∀ entry, predVersions.get e = some entry → (entry.version : Int) ≤ n) :
    loop predVersions out exprs ≤ n := by
  induction exprs generalizing out with
  | nil => exact start
  | cons e exprs ih =>
    rw [loop]
    split
    · exact positive
    · rename_i entry found
      exact ih (Int.max_le.mpr ⟨start, bound e List.mem_cons_self entry found⟩)
        fun e' member => bound e' (List.mem_cons_of_mem _ member)

theorem predicateVersion_le {predVersions : Dict Str Entry} {exprs : List Str} {n : Nat}
    (bound : ∀ e ∈ exprs, ∀ entry, predVersions.get e = some entry → entry.version ≤ n) :
    predicateVersion predVersions exprs ≤ n :=
  predicateVersion.loop_le (Int.natCast_nonneg n) (by omega)
    fun e member entry found => Int.ofNat_le.mpr (bound e member entry found)

section

variable [PyText]

/-- A match of `^\s*(\w+(?:\.\w+)*)`. -/
def matchPath (expr : Str) : Option Str := (dottedName (lstrip expr)).map Prod.fst

/-- `read_set`: the path of each expression that has one, without repetitions. -/
def readSet (expressions : List Str) : List Str :=
  expressions.foldl (fun out expr =>
    match matchPath expr with
    | some path => if path ∈ out then out else out ++ [path]
    | none => out) []

theorem mem_readSet {expressions : List Str} {path : Str} :
    path ∈ readSet expressions ↔ ∃ expr ∈ expressions, matchPath expr = some path := by
  have general : ∀ out : List Str,
      path ∈ expressions.foldl (fun out expr =>
        match matchPath expr with
        | some path => if path ∈ out then out else out ++ [path]
        | none => out) out ↔ path ∈ out ∨ ∃ expr ∈ expressions, matchPath expr = some path := by
    induction expressions with
    | nil => simp
    | cons expr rest ih =>
      intro out
      rw [List.foldl_cons, ih]
      cases matched : matchPath expr with
      | none => simp [matched]
      | some p =>
        by_cases known : p ∈ out
        · simp only [known, if_true, List.exists_mem_cons_iff, matched, Option.some.injEq]
          constructor
          · rintro (h | h)
            · exact Or.inl h
            · exact Or.inr (Or.inr h)
          · rintro (h | rfl | h)
            · exact Or.inl h
            · exact Or.inl known
            · exact Or.inr h
        · simp only [known, if_false, List.mem_append, List.mem_singleton, List.exists_mem_cons_iff,
            matched, Option.some.injEq, or_assoc, eq_comm]
  rw [readSet, general]
  simp

end

example : changedPaths (.single "line" (.obj (.single "state" (.str "RUN".toList))))
    (.cons "line".toList (.obj (.single "state" (.str "RUN".toList)))
      (.single "t" (.obj (.single "c" (.int 21))))) = ["t.c".toList] := by decide

end Xair
