import Xair.Library.Dict
import Mathlib.Data.List.Dedup
import Mathlib.Data.List.Forall2
import Mathlib.Data.List.Nodup
import Mathlib.Data.List.Perm.Basic

/-!
# Groups and their heads

A list without repetitions taken apart by a key, and the head of a stable sort.
-/

namespace Xair.Library

variable {α κ : Type}

/-- In an ordered list what comes before stands before. -/
theorem pair_sublist_of_ordered {before : α → α → Prop} (asymm : ∀ a b, before a b → ¬before b a) {xs : List α}
    (ordered : xs.Pairwise before) {a b : α} (ha : a ∈ xs) (hb : b ∈ xs) (h : before a b) : [a, b].Sublist xs := by
  induction xs with
  | nil => cases ha
  | cons x rest ih =>
    obtain ⟨first, ordered⟩ := List.pairwise_cons.mp ordered
    rcases List.mem_cons.mp hb with here | later
    · rcases List.mem_cons.mp ha with here' | later'
      · rw [here, here'] at h
        exact absurd h (asymm _ _ h)
      · exact absurd (first a later') (asymm _ _ (here ▸ h))
    · rcases List.mem_cons.mp ha with here' | later'
      · exact here' ▸ List.Sublist.cons_cons a (List.singleton_sublist.mpr later)
      · exact List.Sublist.cons x (ih ordered later' later)

theorem forall₂_right {β : Type} {R : α → β → Prop} {xs : List α} {ys : List β} (h : List.Forall₂ R xs ys) {x : α} (member : x ∈ xs) :
    ∃ y ∈ ys, R x y := by
  induction h with
  | nil => cases member
  | cons related _ ih =>
    rcases List.mem_cons.mp member with rfl | later
    · exact ⟨_, List.mem_cons_self, related⟩
    · obtain ⟨y, listed, related⟩ := ih later
      exact ⟨y, List.mem_cons_of_mem _ listed, related⟩

theorem forall₂_left {β : Type} {R : α → β → Prop} {xs : List α} {ys : List β} (h : List.Forall₂ R xs ys) {y : β} (member : y ∈ ys) :
    ∃ x ∈ xs, R x y :=
  forall₂_right h.flip member

theorem keys_of_forall₂ {β : Type} {keys : List κ} {items : List (κ × β)} (h : List.Forall₂ (fun k item => item.1 = k) keys items) :
    items.map Prod.fst = keys := by
  induction h with
  | nil => rfl
  | cons same _ ih => rw [List.map_cons, same, ih]

/-- Every call gives a value, so the whole loop does. -/
theorem exists_mapM {β ε : Type} {f : α → Except ε β} {P : α → β → Prop} {xs : List α} (h : ∀ x ∈ xs, ∃ y, f x = .ok y ∧ P x y) :
    ∃ ys, xs.mapM f = .ok ys ∧ List.Forall₂ P xs ys := by
  induction xs with
  | nil => exact ⟨[], rfl, .nil⟩
  | cons x xs ih =>
    obtain ⟨y, first, holds⟩ := h x List.mem_cons_self
    obtain ⟨ys, rest, all⟩ := ih fun x' later => h x' (List.mem_cons_of_mem _ later)
    exact ⟨y :: ys, by rw [List.mapM_cons, first, rest]; rfl, .cons holds all⟩

/-- One value without its repetitions. -/
theorem dedup_length_eq_one [DecidableEq α] {xs : List α} : xs.dedup.length = 1 ↔ ∃ a ∈ xs, ∀ b ∈ xs, b = a := by
  rw [List.length_eq_one_iff]
  constructor
  · rintro ⟨a, single⟩
    have mem : ∀ b, b ∈ xs ↔ b = a := fun b => by rw [← List.mem_dedup, single, List.mem_singleton]
    exact ⟨a, (mem a).mpr rfl, fun b => (mem b).mp⟩
  · rintro ⟨a, member, only⟩
    refine ⟨a, ?_⟩
    have nodup := List.nodup_dedup xs
    cases shape : xs.dedup with
    | nil => exact absurd (List.mem_dedup.mpr member) (by rw [shape]; exact List.not_mem_nil)
    | cons x rest =>
      have here : ∀ y ∈ x :: rest, y = a := fun y listed => only y (List.mem_dedup.mp (by rw [shape]; exact listed))
      rw [shape] at nodup
      cases rest with
      | nil => rw [here x List.mem_cons_self]
      | cons y rest =>
        have twice : x = y := (here x List.mem_cons_self).trans (here y (List.mem_cons_of_mem _ List.mem_cons_self)).symm
        exact absurd (twice ▸ List.mem_cons_self) (List.nodup_cons.mp nodup).1

variable [DecidableEq κ]

/-- The groups of the keys that occur make up the list. -/
theorem flatMap_groups_perm (key : α → κ) {keys : List κ} {xs : List α} (distinct : keys.Nodup) (nodup : xs.Nodup)
    (covers : ∀ x ∈ xs, key x ∈ keys) : (keys.flatMap fun k => xs.filter fun x => decide (key x = k)).Perm xs := by
  have apart : (keys.flatMap fun k => xs.filter fun x => decide (key x = k)).Nodup := by
    refine List.nodup_flatMap.mpr ⟨fun k _ => nodup.filter _, distinct.imp fun {k k'} ne => ?_⟩
    intro x member member'
    have first := of_decide_eq_true (List.mem_filter.mp member).2
    have second := of_decide_eq_true (List.mem_filter.mp member').2
    exact ne (first.symm.trans second)
  refine (List.perm_ext_iff_of_nodup apart nodup).mpr fun x => ?_
  rw [List.mem_flatMap]
  constructor
  · rintro ⟨k, _, member⟩
    exact (List.mem_filter.mp member).1
  · intro member
    exact ⟨key x, covers x member, List.mem_filter.mpr ⟨member, decide_eq_true rfl⟩⟩

/-- The head of a stable sort comes before all others, and was there first among its equals. -/
theorem mergeSort_head {le : α → α → Bool} (trans : ∀ a b c, le a b = true → le b c = true → le a c = true)
    (total : ∀ a b, (le a b || le b a) = true) {xs rest : List α} {a : α} (nodup : xs.Nodup)
    (sorted : xs.mergeSort le = a :: rest) :
    a ∈ xs ∧ ∀ b ∈ xs, b = a ∨ le a b = true ∧ (le b a = true → ¬[b, a].Sublist xs) := by
  have same : (a :: rest).Perm xs := sorted ▸ List.mergeSort_perm xs le
  have ordered : (a :: rest).Pairwise fun x y => le x y = true := sorted ▸ List.pairwise_mergeSort trans total xs
  have once : (a :: rest).Nodup := same.nodup_iff.mpr nodup
  refine ⟨same.subset List.mem_cons_self, fun b member => ?_⟩
  rcases List.mem_cons.mp (same.symm.subset member) with here | later
  · exact Or.inl here
  · refine Or.inr ⟨(List.pairwise_cons.mp ordered).1 b later, fun back before => ?_⟩
    have kept : [b, a].Sublist (a :: rest) := sorted ▸ List.pair_sublist_mergeSort trans total back before
    rcases List.sublist_cons_iff.mp kept with within | ⟨tail, shape, _⟩
    · exact (List.nodup_cons.mp once).1 (within.subset (List.mem_cons_of_mem _ List.mem_cons_self))
    · obtain rfl : b = a := (List.cons.inj shape).1
      exact (List.nodup_cons.mp once).1 later

/-! ### Groups of an unordered list -/

/-- The groups of a list by a key, in the order of their first members: `setdefault(key, []).append(x)` for each. -/
def groupBy (key : α → κ) (xs : List α) : Dict κ (List α) :=
  xs.foldl (fun groups x => groups.insert (key x) ((groups.get (key x)).getD [] ++ [x])) Dict.empty

section

variable {β : Type} {R : α → β → Prop}

/-- Items with one key and related values. -/
abbrev Keyed (R : α → β → Prop) (a : κ × α) (b : κ × β) : Prop := a.1 = b.1 ∧ R a.2 b.2

theorem forall₂_lookup {items : List (κ × α)} {items' : List (κ × β)} (h : List.Forall₂ (Keyed R) items items') (k : κ) :
    Option.Rel R (lookup k items) (lookup k items') := by
  induction h with
  | nil => exact .none
  | @cons a b items items' related _ ih =>
    obtain ⟨k₁, v⟩ := a
    obtain ⟨k₂, w⟩ := b
    obtain ⟨rfl, same⟩ : k₁ = k₂ ∧ R v w := related
    rw [lookup, lookup]
    split
    · exact .some same
    · exact ih

theorem forall₂_put {items : List (κ × α)} {items' : List (κ × β)} (h : List.Forall₂ (Keyed R) items items') (k : κ) {v : α} {w : β}
    (same : R v w) : List.Forall₂ (Keyed R) (put k v items) (put k w items') := by
  induction h with
  | nil => exact .cons ⟨rfl, same⟩ .nil
  | @cons a b items items' related rest ih =>
    obtain ⟨k₁, v₁⟩ := a
    obtain ⟨k₂, w₁⟩ := b
    obtain ⟨rfl, same₁⟩ : k₁ = k₂ ∧ R v₁ w₁ := related
    rw [put, put]
    split
    · exact .cons ⟨rfl, same⟩ rest
    · exact .cons ⟨rfl, same₁⟩ ih

/-- Related lists have related groups. -/
theorem forall₂_groupBy {key : α → κ} {key' : β → κ} (keys : ∀ a b, R a b → key a = key' b) {xs : List α} {ys : List β}
    (h : List.Forall₂ R xs ys) :
    List.Forall₂ (Keyed (List.Forall₂ R)) (groupBy key xs).items (groupBy key' ys).items := by
  have general : ∀ (d : Dict κ (List α)) (d' : Dict κ (List β)), List.Forall₂ (Keyed (List.Forall₂ R)) d.items d'.items →
      List.Forall₂ (Keyed (List.Forall₂ R))
        (xs.foldl (fun groups x => groups.insert (key x) ((groups.get (key x)).getD [] ++ [x])) d).items
        (ys.foldl (fun groups y => groups.insert (key' y) ((groups.get (key' y)).getD [] ++ [y])) d').items := by
    induction h with
    | nil => exact fun _ _ start => start
    | @cons x y xs ys related _ ih =>
      intro d d' start
      refine ih _ _ ?_
      have old : List.Forall₂ R ((d.get (key x)).getD []) ((d'.get (key' y)).getD []) := by
        have found := forall₂_lookup start (key x)
        rw [← keys x y related]
        change Option.Rel _ (d.get (key x)) (d'.get (key x)) at found
        generalize d.get (key x) = group, d'.get (key x) = group' at found ⊢
        cases found with
        | none => exact .nil
        | some same => exact same
      change List.Forall₂ _ (put (key x) _ d.items) (put (key' y) _ d'.items)
      rw [← keys x y related] at old ⊢
      exact forall₂_put start (key x) (List.rel_append old (.cons related .nil))
  exact general _ _ .nil

end

end Xair.Library
