import Mathlib

/-!
# Insertion-ordered dictionaries

A finite map as the list of its items, in the order they were inserted, with
pairwise distinct keys. `get` after each operation is the interface: later
modules never look at the list of items again, except through `mem_items`.
-/

namespace Xair.Library

variable {κ α : Type} [DecidableEq κ]

/-- The value of the first item with this key. -/
def lookup (k : κ) : List (κ × α) → Option α
  | [] => none
  | (k', v) :: rest => if k' = k then some v else lookup k rest

/-- Overwrite the value of the first item with this key, or append an item. -/
def put (k : κ) (v : α) : List (κ × α) → List (κ × α)
  | [] => [(k, v)]
  | (k', v') :: rest => if k' = k then (k, v) :: rest else (k', v') :: put k v rest

theorem lookup_eq_none {k : κ} {items : List (κ × α)} :
    lookup k items = none ↔ k ∉ items.map Prod.fst := by
  induction items with
  | nil => simp [lookup]
  | cons item rest ih =>
    obtain ⟨k', v⟩ := item
    by_cases same : k' = k
    · simp [lookup, same]
    · simp [lookup, same, ih, Ne.symm same]

theorem mem_of_lookup {k : κ} {v : α} {items : List (κ × α)} (h : lookup k items = some v) :
    (k, v) ∈ items := by
  induction items with
  | nil => cases h
  | cons item rest ih =>
    obtain ⟨k', v'⟩ := item
    rw [lookup] at h
    split at h
    · rename_i same
      obtain rfl := Option.some.inj h
      exact same ▸ List.mem_cons_self
    · exact List.mem_cons_of_mem _ (ih h)

theorem lookup_of_mem {k : κ} {v : α} {items : List (κ × α)} (distinct : (items.map Prod.fst).Nodup)
    (h : (k, v) ∈ items) : lookup k items = some v := by
  induction items with
  | nil => cases h
  | cons item rest ih =>
    obtain ⟨k', v'⟩ := item
    simp only [List.map_cons, List.nodup_cons] at distinct
    rcases List.mem_cons.mp h with same | later
    · obtain ⟨rfl, rfl⟩ := Prod.mk.inj same
      simp [lookup]
    · have other : k' ≠ k := by
        rintro rfl
        exact distinct.1 (List.mem_map.mpr ⟨_, later, rfl⟩)
      simpa [lookup, other] using ih distinct.2 later

theorem lookup_put (k k' : κ) (v : α) (items : List (κ × α)) :
    lookup k' (put k v items) = if k' = k then some v else lookup k' items := by
  induction items with
  | nil => simp only [put, lookup, eq_comm]
  | cons item rest ih =>
    obtain ⟨k₁, v₁⟩ := item
    by_cases here : k₁ = k
    · subst here
      rw [put, if_pos rfl, lookup, lookup]
      by_cases same : k' = k₁
      · simp [same]
      · simp [same, Ne.symm same]
    · rw [put, if_neg here, lookup, lookup, ih]
      by_cases same : k' = k
      · subst same; simp [here]
      · simp [same]

theorem put_keys (k : κ) (v : α) (items : List (κ × α)) :
    (put k v items).map Prod.fst =
      if k ∈ items.map Prod.fst then items.map Prod.fst else items.map Prod.fst ++ [k] := by
  induction items with
  | nil => simp [put]
  | cons item rest ih =>
    obtain ⟨k', v'⟩ := item
    by_cases same : k' = k
    · simp [put, same]
    · rw [put, if_neg same, List.map_cons, ih, List.map_cons]
      by_cases later : k ∈ rest.map Prod.fst
      · rw [if_pos later, if_pos (List.mem_cons_of_mem _ later)]
      · rw [if_neg later, if_neg (by simpa [Ne.symm same] using later), List.cons_append]

theorem put_nodup (k : κ) (v : α) {items : List (κ × α)} (distinct : (items.map Prod.fst).Nodup) :
    ((put k v items).map Prod.fst).Nodup := by
  rw [put_keys]
  split
  · exact distinct
  · rename_i fresh
    exact List.nodup_append.mpr ⟨distinct, List.nodup_singleton k, by
      intro a ha b hb same
      exact fresh (List.mem_singleton.mp hb ▸ same ▸ ha)⟩

theorem put_new (k : κ) (v : α) {items : List (κ × α)} (fresh : lookup k items = none) : put k v items = items ++ [(k, v)] := by
  induction items with
  | nil => rfl
  | cons item rest ih =>
    obtain ⟨k', v'⟩ := item
    rw [lookup] at fresh
    split at fresh
    · cases fresh
    · rename_i other
      rw [put, if_neg other, ih fresh, List.cons_append]

structure Dict (κ α : Type) where
  items : List (κ × α)
  distinct : (items.map Prod.fst).Nodup

namespace Dict

def empty : Dict κ α := ⟨[], List.nodup_nil⟩

def get (d : Dict κ α) (k : κ) : Option α := lookup k d.items

def contains (d : Dict κ α) (k : κ) : Bool := (d.get k).isSome

def keys (d : Dict κ α) : List κ := d.items.map Prod.fst

def values (d : Dict κ α) : List α := d.items.map Prod.snd

def insert (d : Dict κ α) (k : κ) (v : α) : Dict κ α :=
  ⟨put k v d.items, put_nodup k v d.distinct⟩

/-- Insert the items one after the other, as `dict.update` and a mapping argument do. -/
def insertAll (d : Dict κ α) (items : List (κ × α)) : Dict κ α :=
  items.foldl (fun acc item => acc.insert item.1 item.2) d

def filter (d : Dict κ α) (keep : κ → α → Bool) : Dict κ α :=
  ⟨d.items.filter fun item => keep item.1 item.2,
    d.distinct.sublist ((List.filter_sublist).map Prod.fst)⟩

def erase (d : Dict κ α) (k : κ) : Dict κ α := d.filter fun k' _ => decide (k' ≠ k)

def map (d : Dict κ α) (f : κ → α → α) : Dict κ α :=
  ⟨d.items.map fun item => (item.1, f item.1 item.2), by
    simpa [List.map_map, Function.comp_def] using d.distinct⟩

theorem mem_items {d : Dict κ α} {k : κ} {v : α} : (k, v) ∈ d.items ↔ d.get k = some v :=
  ⟨lookup_of_mem d.distinct, mem_of_lookup⟩

theorem mem_keys {d : Dict κ α} {k : κ} : k ∈ d.keys ↔ d.contains k = true := by
  rw [contains, Option.isSome_iff_ne_none, get, Ne, lookup_eq_none, not_not]
  rfl

@[simp] theorem get_empty (k : κ) : (empty : Dict κ α).get k = none := rfl

@[simp] theorem get_insert (d : Dict κ α) (k k' : κ) (v : α) :
    (d.insert k v).get k' = if k' = k then some v else d.get k' :=
  lookup_put k k' v d.items

/-- A new key goes to the end. -/
theorem items_insert_new {d : Dict κ α} {k : κ} (v : α) (fresh : d.get k = none) : (d.insert k v).items = d.items ++ [(k, v)] :=
  put_new k v fresh

/-- Without its first item. -/
theorem items_erase_first {d : Dict κ α} {k : κ} {v : α} {rest : List (κ × α)} (first : d.items = (k, v) :: rest) :
    (d.erase k).items = rest := by
  have distinct := d.distinct
  rw [first, List.map_cons, List.nodup_cons] at distinct
  show d.items.filter (fun item => decide (item.1 ≠ k)) = rest
  rw [first, List.filter_cons_of_neg (by simp)]
  refine List.filter_eq_self.mpr fun item member => decide_eq_true fun same => ?_
  exact distinct.1 (List.mem_map.mpr ⟨item, member, same⟩)

theorem get_insert_self (d : Dict κ α) (k : κ) (v : α) : (d.insert k v).get k = some v := by simp

theorem get_insert_ne (d : Dict κ α) {k k' : κ} (v : α) (h : k' ≠ k) :
    (d.insert k v).get k' = d.get k' := by simp [h]

@[simp] theorem get_filter (d : Dict κ α) (keep : κ → α → Bool) (k : κ) :
    (d.filter keep).get k = (d.get k).filter (keep k) := by
  cases found : d.get k with
  | none =>
    rw [Option.filter_none, get, lookup_eq_none]
    rw [get, lookup_eq_none] at found
    intro member
    obtain ⟨item, present, rfl⟩ := List.mem_map.mp member
    exact found (List.mem_map.mpr ⟨item, (List.mem_filter.mp present).1, rfl⟩)
  | some v =>
    have member := mem_items.mpr found
    by_cases kept : keep k v = true
    · rw [Option.filter_some_pos kept]
      exact mem_items.mp (List.mem_filter.mpr ⟨member, kept⟩)
    · rw [Option.filter_some_neg (Bool.eq_false_iff.mpr kept)]
      cases after : (d.filter keep).get k with
      | none => rfl
      | some w =>
        obtain ⟨old, holds⟩ := List.mem_filter.mp (mem_items.mpr after)
        obtain rfl := Option.some.inj ((mem_items.mp old).symm.trans found)
        exact absurd holds kept

@[simp] theorem get_erase (d : Dict κ α) (k k' : κ) :
    (d.erase k).get k' = if k' = k then none else d.get k' := by
  rw [erase, get_filter]
  by_cases same : k' = k
  · cases d.get k' <;> simp [same]
  · cases d.get k' <;> simp [same]

@[simp] theorem get_map (d : Dict κ α) (f : κ → α → α) (k : κ) :
    (d.map f).get k = (d.get k).map (f k) := by
  cases found : d.get k with
  | none =>
    rw [Option.map_none, get, lookup_eq_none]
    rw [get, lookup_eq_none] at found
    simpa [map, List.map_map, Function.comp_def] using found
  | some v =>
    exact mem_items.mp (List.mem_map.mpr ⟨(k, v), mem_items.mpr found, rfl⟩)

/-- A mapping whose value is a function of the key. -/
theorem get_insertAll_map (d : Dict κ α) (ks : List κ) (f : κ → α) (k : κ) :
    (d.insertAll (ks.map fun k => (k, f k))).get k = if k ∈ ks then some (f k) else d.get k := by
  induction ks generalizing d with
  | nil => rfl
  | cons k₁ ks ih =>
    change ((d.insert k₁ (f k₁)).insertAll (ks.map fun k => (k, f k))).get k = _
    rw [ih, get_insert]
    by_cases same : k = k₁
    · subst same; simp
    · simp [same]

theorem get_insertAll_of_not_mem (d : Dict κ α) (items : List (κ × α)) {k : κ}
    (absent : k ∉ items.map Prod.fst) : (d.insertAll items).get k = d.get k := by
  induction items generalizing d with
  | nil => rfl
  | cons item rest ih =>
    simp only [List.map_cons, List.mem_cons, not_or] at absent
    change ((d.insert item.1 item.2).insertAll rest).get k = _
    rw [ih _ absent.2, get_insert_ne _ _ absent.1]

theorem get_insertAll_of_mem (d : Dict κ α) {items : List (κ × α)}
    (distinct : (items.map Prod.fst).Nodup) {k : κ} {v : α} (member : (k, v) ∈ items) :
    (d.insertAll items).get k = some v := by
  induction items generalizing d with
  | nil => cases member
  | cons item rest ih =>
    simp only [List.map_cons, List.nodup_cons] at distinct
    change ((d.insert item.1 item.2).insertAll rest).get k = _
    rcases List.mem_cons.mp member with rfl | later
    · rw [get_insertAll_of_not_mem _ _ distinct.1, get_insert_self]
    · exact ih _ distinct.2 later

/-- An inserted item or, where none was inserted, the old value. -/
theorem get_insertAll_cases {d : Dict κ α} {items : List (κ × α)} {k : κ} {v : α}
    (stored : (d.insertAll items).get k = some v) :
    (k, v) ∈ items ∨ (k ∉ items.map Prod.fst ∧ d.get k = some v) := by
  induction items generalizing d with
  | nil => exact Or.inr ⟨List.not_mem_nil, stored⟩
  | cons item rest ih =>
    rcases ih (d := d.insert item.1 item.2) stored with later | ⟨absent, here⟩
    · exact Or.inl (List.mem_cons_of_mem _ later)
    · rw [get_insert] at here
      split at here
      · rename_i same
        obtain rfl := Option.some.inj here
        exact Or.inl (by rw [same]; exact List.mem_cons_self)
      · rename_i other
        exact Or.inr ⟨by simpa [other] using absent, here⟩

/-- New keys keep their order. -/
theorem items_insertAll (d : Dict κ α) {items : List (κ × α)} (distinct : (d.items ++ items).map Prod.fst |>.Nodup) :
    (d.insertAll items).items = d.items ++ items := by
  induction items generalizing d with
  | nil => exact (List.append_nil _).symm
  | cons item rest ih =>
    have fresh : d.get item.1 = none := by
      rw [List.map_append, List.map_cons] at distinct
      exact lookup_eq_none.mpr fun member => (List.nodup_append.mp distinct).2.2 _ member _ List.mem_cons_self rfl
    have first := items_insert_new item.2 fresh
    change ((d.insert item.1 item.2).insertAll rest).items = _
    rw [ih _ (by rw [first, List.append_assoc]; exact distinct), first, List.append_assoc]
    rfl

theorem contains_insertAll (d : Dict κ α) (items : List (κ × α)) (k : κ) :
    (d.insertAll items).contains k = true ↔ d.contains k = true ∨ k ∈ items.map Prod.fst := by
  induction items generalizing d with
  | nil => simp [insertAll]
  | cons item rest ih =>
    change ((d.insert item.1 item.2).insertAll rest).contains k = true ↔ _
    rw [ih, List.map_cons, List.mem_cons, contains, get_insert]
    by_cases same : k = item.1
    · simp [same]
    · simp [same, contains]

/-- A dictionary made from the items of another one. -/
theorem get_insertAll_mapped {β : Type} (d : Dict κ α) (f : α → β) (k : κ) :
    ((empty : Dict κ β).insertAll (d.items.map fun item => (item.1, f item.2))).get k = (d.get k).map f := by
  have keys : (d.items.map fun item => (item.1, f item.2)).map Prod.fst = d.items.map Prod.fst := by
    rw [List.map_map]
    rfl
  cases found : d.get k with
  | none => exact get_insertAll_of_not_mem _ _ (keys ▸ lookup_eq_none.mp found)
  | some v =>
    exact get_insertAll_of_mem _ (keys ▸ d.distinct) (List.mem_map.mpr ⟨(k, v), mem_items.mpr found, rfl⟩)

/-- The items of another dictionary come first. -/
theorem get_insertAll_items (d d' : Dict κ α) (k : κ) : (d.insertAll d'.items).get k = (d'.get k).or (d.get k) := by
  cases found : d'.get k with
  | none => exact get_insertAll_of_not_mem d _ (lookup_eq_none.mp found)
  | some v => exact get_insertAll_of_mem d d'.distinct (mem_items.mpr found)

end Dict

/-- The largest number of a list, 0 if there is none. -/
def maxOf (ns : List Nat) : Nat := ns.foldr max 0

theorem maxOf_le_iff {ns : List Nat} {n : Nat} : maxOf ns ≤ n ↔ ∀ m ∈ ns, m ≤ n := by
  induction ns with
  | nil => simp [maxOf]
  | cons m ns ih =>
    rw [maxOf, List.foldr_cons, Nat.max_le, List.forall_mem_cons]
    exact and_congr_right fun _ => ih

theorem le_maxOf {ns : List Nat} {n : Nat} (h : n ∈ ns) : n ≤ maxOf ns :=
  maxOf_le_iff.mp (Nat.le_refl _) n h

end Xair.Library
