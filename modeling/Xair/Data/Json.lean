import Xair.Data.Number
import Mathlib.Tactic.Common

/-!
# JSON documents

`dict` values keep their insertion order. `Members` is the list of items of an
object, so that recursion on a document is structural.
-/

namespace Xair

mutual

inductive Json where
  | null
  | bool (b : Bool)
  | int (n : Int)
  | float (x : PyFloat)
  | str (s : Str)
  | arr (xs : Elems)
  | obj (m : Members)
  deriving DecidableEq

inductive Elems where
  | nil
  | cons (head : Json) (tail : Elems)
  deriving DecidableEq

inductive Members where
  | nil
  | cons (key : Str) (value : Json) (rest : Members)
  deriving DecidableEq

end

namespace Members

/-- Induction on the items of one object; nothing is assumed about their values. -/
@[induction_eliminator]
theorem itemInduction {motive : Members → Prop} (nil : motive nil)
    (cons : ∀ key value rest, motive rest → motive (cons key value rest)) : ∀ m, motive m
  | .nil => nil
  | .cons key value rest => cons key value rest (itemInduction nil cons rest)

def get (key : Str) : Members → Option Json
  | nil => none
  | cons k v rest => if k = key then some v else rest.get key

/-- `d[key] = value`. -/
def set (key : Str) (value : Json) : Members → Members
  | nil => cons key value nil
  | cons k v rest => if k = key then cons key value rest else cons k v (rest.set key value)

def keys : Members → List Str
  | nil => []
  | cons k _ rest => k :: rest.keys

def ofList : List (Str × Json) → Members
  | [] => nil
  | (k, v) :: rest => cons k v (ofList rest)

/-- A one-member object. -/
abbrev single (key : String) (value : Json) : Members := cons key.toList value nil

@[simp] theorem get_set (key key' : Str) (value : Json) (m : Members) :
    (m.set key value).get key' = if key' = key then some value else m.get key' := by
  induction m with
  | nil => simp only [set, get, eq_comm]
  | cons k v rest ih =>
    by_cases here : k = key
    · subst here
      rw [set, if_pos rfl, get, get]
      by_cases same : key' = k
      · simp [same]
      · simp [same, Ne.symm same]
    · rw [set, if_neg here, get, get, ih]
      by_cases same : key' = key
      · subst same; simp [here]
      · simp [same]

theorem get_eq_none {key : Str} {m : Members} : m.get key = none ↔ key ∉ m.keys := by
  induction m with
  | nil => simp [get, keys]
  | cons k v rest ih =>
    by_cases same : k = key
    · simp [get, keys, same]
    · simp [get, keys, same, ih, Ne.symm same]

end Members

/-! ### What the parser guarantees: no key twice in one object -/

mutual

def Json.WF : Json → Prop
  | .obj m => m.WF
  | .arr xs => xs.WF
  | _ => True

def Elems.WF : Elems → Prop
  | .nil => True
  | .cons head tail => head.WF ∧ tail.WF

def Members.WF : Members → Prop
  | .nil => True
  | .cons key value rest => key ∉ rest.keys ∧ value.WF ∧ rest.WF

end

theorem Members.WF.of_get {m : Members} {key : Str} {v : Json} (wf : m.WF) (h : m.get key = some v) :
    v.WF := by
  induction m with
  | nil => cases h
  | cons k w rest ih =>
    rw [get] at h
    split at h
    · obtain rfl := Option.some.inj h
      exact wf.2.1
    · exact ih wf.2.2 h

/-! ### Lookup along a path -/

/-- Follow keys through nested objects. -/
def Json.walk : List Str → Json → Option Json
  | [], v => some v
  | key :: rest, .obj m => (m.get key).bind (walk rest)
  | _ :: _, _ => none

theorem Json.walk_append (front back : List Str) (v : Json) :
    v.walk (front ++ back) = (v.walk front).bind (walk back) := by
  induction front generalizing v with
  | nil => rfl
  | cons key front ih =>
    cases v with
    | obj m =>
      simp only [List.cons_append, walk]
      cases m.get key with
      | none => rfl
      | some w => exact ih w
    | _ => rfl

/-! ### `deep_merge` -/

mutual

/-- `deep_merge(base, patch)`: the items of the patch one after the other, objects merged
into objects and every other value overwritten. -/
def deepMerge (base : Members) : Members → Members
  | .nil => base
  | .cons key val rest => deepMerge (base.set key (mergeValue (base.get key) val)) rest

def mergeValue (old : Option Json) : Json → Json
  | .obj m =>
    match old with
    | some (.obj base) => .obj (deepMerge base m)
    | _ => .obj m
  | val => val

end

theorem deepMerge_nil (base : Members) : deepMerge base .nil = base := rfl

theorem deepMerge_cons (base rest : Members) (key : Str) (val : Json) :
    deepMerge base (.cons key val rest) =
      deepMerge (base.set key (mergeValue (base.get key) val)) rest := rfl

theorem mergeValue_obj_obj (base m : Members) :
    mergeValue (some (.obj base)) (.obj m) = .obj (deepMerge base m) := rfl

theorem mergeValue_of_not_obj {old : Option Json} {val : Json} (h : ∀ base, old ≠ some (.obj base)) :
    mergeValue old val = val := by
  cases val with
  | obj m =>
    cases old with
    | none => rfl
    | some v =>
      cases v with
      | obj base => exact absurd rfl (h base)
      | _ => rfl
  | _ => rfl

/-- A key the patch does not name keeps its value. -/
theorem get_deepMerge_of_get_none {patch : Members} {key : Str} (absent : patch.get key = none)
    (base : Members) : (deepMerge base patch).get key = base.get key := by
  induction patch generalizing base with
  | nil => rfl
  | cons k v rest ih =>
    rw [Members.get] at absent
    split at absent
    · cases absent
    · rename_i other
      rw [deepMerge_cons, ih absent, Members.get_set, if_neg (Ne.symm other)]

/-- A key the patch names gets the merge of the two values. -/
theorem get_deepMerge_of_get_some {patch : Members} (wf : patch.WF) {key : Str} {v : Json}
    (present : patch.get key = some v) (base : Members) :
    (deepMerge base patch).get key = some (mergeValue (base.get key) v) := by
  induction patch generalizing base with
  | nil => cases present
  | cons k w rest ih =>
    rw [Members.get] at present
    split at present
    · rename_i same
      obtain rfl := Option.some.inj present
      subst same
      rw [deepMerge_cons, get_deepMerge_of_get_none (Members.get_eq_none.mpr wf.1), Members.get_set,
        if_pos rfl]
    · rename_i other
      rw [deepMerge_cons, ih wf.2.2 present, Members.get_set, if_neg (Ne.symm other)]

/-! ### `==` -/

/-- Truth of a JSON value. -/
def Json.truthy : Json → Bool
  | .null => false
  | .bool b => b
  | .int n => decide (n ≠ 0)
  | .float x => decide (x ≠ .fin 0)
  | .str s => decide (s ≠ [])
  | .arr xs => decide (xs ≠ .nil)
  | .obj m => decide (m ≠ .nil)

/-- The value of a number; a Boolean is the number 0 or 1. -/
def Json.number? : Json → Option PyFloat
  | .bool b => some (.fin (if b then 1 else 0))
  | .int n => some (.fin n)
  | .float x => some x
  | _ => none

def Members.length : Members → Nat
  | .nil => 0
  | .cons _ _ rest => rest.length + 1

mutual

def Json.pyEq : Json → Json → Bool
  | .null, .null => true
  | .str s, .str t => decide (s = t)
  | .arr xs, .arr ys => xs.pyEq ys
  | .obj m, .obj n => decide (m.length = n.length) && m.pySub n
  | a, b =>
    match a.number?, b.number? with
    | some x, some y => x.eq y
    | _, _ => false

def Elems.pyEq : Elems → Elems → Bool
  | .nil, .nil => true
  | .cons a as, .cons b bs => a.pyEq b && as.pyEq bs
  | _, _ => false

/-- Every item has an equal value under the same key of the other object. -/
def Members.pySub : Members → Members → Bool
  | .nil, _ => true
  | .cons key v rest, n =>
    (match n.get key with
      | some w => v.pyEq w
      | none => false) && rest.pySub n

end

/-! ### Values without NaN -/

mutual

def Json.NoNaN : Json → Prop
  | .float x => x ≠ .nan
  | .arr xs => xs.NoNaN
  | .obj m => m.NoNaN
  | _ => True

def Elems.NoNaN : Elems → Prop
  | .nil => True
  | .cons head tail => head.NoNaN ∧ tail.NoNaN

def Members.NoNaN : Members → Prop
  | .nil => True
  | .cons _ value rest => value.NoNaN ∧ rest.NoNaN

end

theorem Members.NoNaN.of_get {m : Members} {key : Str} {v : Json} (numbers : m.NoNaN) (h : m.get key = some v) :
    v.NoNaN := by
  induction m with
  | nil => cases h
  | cons k w rest ih =>
    rw [Members.get] at h
    split at h
    · obtain rfl := Option.some.inj h
      exact numbers.1
    · exact ih numbers.2 h

/-- An object is part of another one if each of its items is. -/
theorem Members.pySub_of_get {m n : Members} (wf : m.WF)
    (h : ∀ key v, m.get key = some v → ∃ w, n.get key = some w ∧ v.pyEq w = true) : m.pySub n = true := by
  induction m with
  | nil => rfl
  | cons k v rest ih =>
    obtain ⟨w, found, same⟩ := h k v (by rw [Members.get, if_pos rfl])
    rw [Members.pySub, found]
    refine Bool.and_eq_true_iff.mpr ⟨same, ih wf.2.2 fun key u later => h key u ?_⟩
    have other : k ≠ key := by
      rintro rfl
      rw [Members.get_eq_none.mpr wf.1] at later
      cases later
    rw [Members.get, if_neg other, later]

mutual

theorem Json.pyEq_self : ∀ v : Json, v.NoNaN → v.WF → v.pyEq v = true
  | .null, _, _ => rfl
  | .bool _, _, _ => by simp [Json.pyEq, Json.number?, PyFloat.eq]
  | .int _, _, _ => by simp [Json.pyEq, Json.number?, PyFloat.eq]
  | .float _, numbers, _ => PyFloat.eq_self numbers
  | .str _, _, _ => by simp [Json.pyEq]
  | .arr xs, numbers, wf => Elems.pyEq_self xs numbers wf
  | .obj m, numbers, wf => by
    rw [Json.pyEq, decide_eq_true rfl, Bool.true_and]
    exact Members.pySub_of_get wf fun key v found => ⟨v, found, Members.pyEq_item m numbers wf key v found⟩

theorem Elems.pyEq_self : ∀ xs : Elems, xs.NoNaN → xs.WF → xs.pyEq xs = true
  | .nil, _, _ => rfl
  | .cons head tail, numbers, wf =>
    Bool.and_eq_true_iff.mpr ⟨Json.pyEq_self head numbers.1 wf.1, Elems.pyEq_self tail numbers.2 wf.2⟩

theorem Members.pyEq_item : ∀ m : Members, m.NoNaN → m.WF → ∀ key v, m.get key = some v → v.pyEq v = true
  | .nil, _, _, _, _, found => nomatch found
  | .cons k w rest, numbers, wf, key, v, found => by
    rw [Members.get] at found
    split at found
    · obtain rfl := Option.some.inj found
      exact Json.pyEq_self w numbers.1 wf.2.1
    · exact Members.pyEq_item rest numbers.2 wf.2.2 key v found

end

end Xair
