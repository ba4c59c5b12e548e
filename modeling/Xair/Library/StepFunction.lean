import Mathlib

/-!
# Step functions of time

A step function is a first value and the breakpoints at which it takes others. `sweep`
finds the breakpoints of a function of a running sum: all points of one instant count
before a value is taken.
-/

namespace Xair.Library

variable {K S G : Type} [LinearOrder K]

/-- The function takes a new value at `t`: one that it did not have shortly before. -/
def Turns (f : K → S) (t : K) : Prop := ∃ since, since < t ∧ ∀ u, since ≤ u → u < t → f u ≠ f t

/-- The least time after `t` at which the function takes a new value, or infinity. -/
def NextTurn (f : K → S) (t : K) (next : WithTop K) : Prop := IsLeast (insert ⊤ ((↑) '' {u | t < u ∧ Turns f u})) next

/-- The value at an instant. -/
def valueAt (s : S) : List (K × S) → K → S
  | [], _ => s
  | (u, s') :: rest, t => if u ≤ t then valueAt s' rest t else s

/-- The breakpoints come in order, and each brings another value. -/
def Tight (s : S) : List (K × S) → Prop
  | [] => True
  | (u, s') :: rest => s' ≠ s ∧ (∀ p ∈ rest, u < p.1) ∧ Tight s' rest

/-! ### Bisection -/

/-- In an ordered list, the elements from the first one on that satisfy an upward closed predicate are those that do. -/
theorem findIdx_le_iff {p : K → Bool} {xs : List K} (ordered : xs.Pairwise (· ≤ ·)) (upward : ∀ u v, u ≤ v → p u = true → p v = true)
    {i : Nat} (inside : i < xs.length) : xs.findIdx p ≤ i ↔ p xs[i] = true := by
  constructor
  · intro after
    have found : xs.findIdx p < xs.length := Nat.lt_of_le_of_lt after inside
    refine upward _ _ ?_ (List.findIdx_getElem (w := found))
    rcases Nat.eq_or_lt_of_le after with same | before
    · exact le_of_eq (by simp only [same])
    · exact List.pairwise_iff_getElem.mp ordered _ _ found inside before
  · intro holds
    by_contra before
    have fails := List.not_of_lt_findIdx (Nat.lt_of_not_le before)
    rw [holds] at fails
    cases fails

/-- The elements between two bisections, from the `k`-th one on. -/
theorem mem_slice_iff {bs : List (K × S)} (ordered : (bs.map Prod.fst).Pairwise (· ≤ ·)) (a b : K) (k : Nat) {p : K × S} :
    p ∈ (bs.take ((bs.map Prod.fst).findIdx fun u => decide (b ≤ u))).drop (max ((bs.map Prod.fst).findIdx fun u => decide (a ≤ u)) k) ↔
      p ∈ bs.drop k ∧ a ≤ p.1 ∧ p.1 < b := by
  have bisect : ∀ (c : K) (i : Nat) (inside : i < bs.length),
      ((bs.map Prod.fst).findIdx fun u => decide (c ≤ u)) ≤ i ↔ c ≤ bs[i].1 := by
    intro c i inside
    have le := findIdx_le_iff (p := fun u => decide (c ≤ u)) ordered
      (fun u v le holds => decide_eq_true (le_trans (of_decide_eq_true holds) le)) (i := i) (by rw [List.length_map]; exact inside)
    rwa [List.getElem_map, decide_eq_true_eq] at le
  generalize lower : ((bs.map Prod.fst).findIdx fun u => decide (a ≤ u)) = lo
  generalize upper : ((bs.map Prod.fst).findIdx fun u => decide (b ≤ u)) = hi
  rw [List.mem_iff_getElem, List.mem_iff_getElem]
  constructor
  · rintro ⟨i, inside, rfl⟩
    simp only [List.length_drop, List.length_take] at inside
    have there : max lo k + i < bs.length := by omega
    rw [List.getElem_drop, List.getElem_take]
    refine ⟨⟨max lo k + i - k, by rw [List.length_drop]; omega, ?_⟩, ?_, lt_of_not_ge fun late => ?_⟩
    · rw [List.getElem_drop]
      congr 1
      omega
    · exact (bisect a _ there).mp (by omega)
    · have after := (bisect b _ there).mpr late
      omega
  · rintro ⟨⟨i, inside, rfl⟩, notBefore, early⟩
    simp only [List.getElem_drop] at notBefore early ⊢
    rw [List.length_drop] at inside
    have there : k + i < bs.length := by omega
    have reached := (bisect a _ there).mpr notBefore
    have unreached : k + i < hi := Nat.lt_of_not_le fun late => absurd ((bisect b _ there).mp (upper ▸ late)) (not_le.mpr early)
    refine ⟨k + i - max lo k, ?_, ?_⟩
    · simp only [List.length_drop, List.length_take]
      omega
    · rw [List.getElem_take]
      congr 1
      omega

/-- The first time of an ordered list after `t`. -/
def nextAfter (times : List K) (t : K) : WithTop K :=
  match times[times.findIdx fun u => decide (t < u)]? with
  | some u => (u : WithTop K)
  | none => ⊤

/-- Where the function turns, given as an ordered list: the next time is found by bisection. -/
theorem nextTurn_of_mem {f : K → S} {times : List K} (turns : ∀ u, Turns f u ↔ u ∈ times) (ordered : times.Pairwise (· ≤ ·)) (t : K) :
    NextTurn f t (nextAfter times t) := by
  have later : ∀ v, t < v → Turns f v → ∃ j, ∃ inside : j < times.length, times[j] = v ∧ (times.findIdx fun u => decide (t < u)) ≤ j := by
    intro v after turn
    obtain ⟨j, inside, rfl⟩ := List.mem_iff_getElem.mp ((turns v).mp turn)
    refine ⟨j, inside, rfl, (findIdx_le_iff ordered (fun u v le holds => ?_) inside).mpr (decide_eq_true after)⟩
    exact decide_eq_true ((of_decide_eq_true holds).trans_le le)
  rw [nextAfter]
  cases found : times[times.findIdx fun u => decide (t < u)]? with
  | none =>
    refine ⟨Set.mem_insert _ _, ?_⟩
    rintro _ (rfl | ⟨v, ⟨after, turn⟩, rfl⟩)
    · exact le_refl _
    · obtain ⟨j, inside, _, le⟩ := later v after turn
      exact absurd (Nat.lt_of_le_of_lt le inside) (Nat.not_lt.mpr (List.getElem?_eq_none_iff.mp found))
  | some u =>
    have after : t < u := of_decide_eq_true (p := t < u) (List.findIdx_of_getElem?_eq_some (p := fun u => decide (t < u)) found)
    refine ⟨Set.mem_insert_of_mem _ ⟨u, ⟨after, (turns u).mpr (List.mem_of_getElem? found)⟩, rfl⟩, ?_⟩
    rintro _ (rfl | ⟨v, ⟨after, turn⟩, rfl⟩)
    · exact le_top
    · obtain ⟨j, inside, rfl, le⟩ := later v after turn
      obtain ⟨there, rfl⟩ := List.getElem?_eq_some_iff.mp found
      refine WithTop.coe_le_coe.mpr ?_
      rcases Nat.eq_or_lt_of_le le with same | before
      · exact le_of_eq (by simp only [same])
      · exact List.pairwise_iff_getElem.mp ordered _ _ there inside before

/-! ### Values and breakpoints -/

/-- The value is found by its index among the values. -/
theorem getElem_valueAt (s : S) (bs : List (K × S)) (t : K) :
    (s :: bs.map Prod.snd)[(bs.map Prod.fst).findIdx fun u => decide (t < u)]? = some (valueAt s bs t) := by
  induction bs generalizing s with
  | nil => rfl
  | cons p rest ih =>
    obtain ⟨u, s'⟩ := p
    rw [List.map_cons, List.map_cons, List.findIdx_cons, valueAt]
    by_cases due : u ≤ t
    · rw [decide_eq_false (not_lt.mpr due), if_pos due]
      exact ih s'
    · rw [decide_eq_true (lt_of_not_ge due), if_neg due]
      rfl

theorem valueAt_before {s : S} {bs : List (K × S)} {t : K} (before : ∀ p ∈ bs, t < p.1) : valueAt s bs t = s := by
  cases bs with
  | nil => rfl
  | cons p rest => exact if_neg (not_le.mpr (before p List.mem_cons_self))

namespace Tight

variable {s : S} {bs : List (K × S)}

theorem pairwise (h : Tight s bs) : (bs.map Prod.fst).Pairwise (· < ·) := by
  induction bs generalizing s with
  | nil => exact List.Pairwise.nil
  | cons p rest ih =>
    refine List.pairwise_cons.mpr ⟨fun u member => ?_, ih h.2.2⟩
    obtain ⟨q, later, rfl⟩ := List.mem_map.mp member
    exact h.2.1 q later

theorem ordered (h : Tight s bs) : (bs.map Prod.fst).Pairwise (· ≤ ·) := h.pairwise.imp le_of_lt

theorem valueAt_mem (h : Tight s bs) {p : K × S} (member : p ∈ bs) : valueAt s bs p.1 = p.2 := by
  induction bs generalizing s with
  | nil => cases member
  | cons q rest ih =>
    rcases List.mem_cons.mp member with rfl | later
    · exact (if_pos (le_refl _)).trans (valueAt_before h.2.1)
    · exact (if_pos (le_of_lt (h.2.1 p later))).trans (ih h.2.2 later)

/-- The breakpoints are where the function takes a new value. -/
theorem mem_iff [NoMinOrder K] (h : Tight s bs) {p : K × S} :
    p ∈ bs ↔ Turns (valueAt s bs) p.1 ∧ valueAt s bs p.1 = p.2 := by
  constructor
  · intro member
    refine ⟨?_, h.valueAt_mem member⟩
    rw [Turns, h.valueAt_mem member]
    induction bs generalizing s with
    | nil => cases member
    | cons q rest ih =>
      rcases List.mem_cons.mp member with rfl | later
      · obtain ⟨since, before⟩ := exists_lt p.1
        exact ⟨since, before, fun u _ early => by rw [valueAt, if_neg (not_le.mpr early)]; exact h.1.symm⟩
      · obtain ⟨since, before, other⟩ := ih h.2.2 later
        refine ⟨max since q.1, max_lt before (h.2.1 p later), fun u after early => ?_⟩
        rw [valueAt, if_pos (le_trans (le_max_right _ _) after)]
        exact other u (le_trans (le_max_left _ _) after) early
  · rintro ⟨⟨since, before, other⟩, value⟩
    induction bs generalizing s since with
    | nil => exact absurd rfl (other since (le_refl _) before)
    | cons q rest ih =>
      rcases lt_trichotomy p.1 q.1 with early | same | late
      · refine absurd ?_ (other since (le_refl _) before)
        rw [valueAt, valueAt, if_neg (not_le.mpr early), if_neg (not_le.mpr (before.trans early))]
      · rw [show p = q from Prod.ext same (by rw [← value, same]; exact h.valueAt_mem List.mem_cons_self)]
        exact List.mem_cons_self
      · rw [valueAt, if_pos (le_of_lt late)] at value
        refine List.mem_cons_of_mem _ (ih h.2.2 value (max since q.1) (max_lt before late) fun u after early => ?_)
        have different := other u (le_trans (le_max_left _ _) after) early
        rwa [valueAt, valueAt, if_pos (le_trans (le_max_right _ _) after), if_pos (le_of_lt late)] at different

end Tight

/-! ### Running sums -/

section

variable [AddCommMonoid G] [DecidableEq S]

/-- The breakpoints of a function of the sum of all points so far; `acc` is the sum and `s` the value so far. -/
def sweep (f : G → S) (acc : G) (s : S) : List (K × G) → List (K × S)
  | [] => []
  | (u, d) :: rest =>
    if rest.head?.any (fun q => decide (q.1 = u)) then sweep f (acc + d) s rest
    else if f (acc + d) = s then sweep f (acc + d) s rest
    else (u, f (acc + d)) :: sweep f (acc + d) (f (acc + d)) rest

/-- The sum of the points up to an instant. -/
def sumUpTo (pts : List (K × G)) (t : K) : G := ((pts.filter fun p => decide (p.1 ≤ t)).map Prod.snd).sum

theorem sumUpTo_perm {pts pts' : List (K × G)} (perm : pts.Perm pts') (t : K) : sumUpTo pts t = sumUpTo pts' t :=
  ((perm.filter _).map _).sum_eq

theorem sumUpTo_append (pts pts' : List (K × G)) (t : K) : sumUpTo (pts ++ pts') t = sumUpTo pts t + sumUpTo pts' t := by
  rw [sumUpTo, List.filter_append, List.map_append, List.sum_append, sumUpTo, sumUpTo]

theorem sumUpTo_cons (p : K × G) (pts : List (K × G)) (t : K) :
    sumUpTo (p :: pts) t = (if p.1 ≤ t then p.2 else 0) + sumUpTo pts t := by
  rw [sumUpTo, List.filter_cons]
  by_cases due : p.1 ≤ t
  · rw [if_pos (decide_eq_true due), if_pos due, List.map_cons, List.sum_cons, sumUpTo]
  · rw [if_neg (by rw [decide_eq_false due]; exact Bool.false_ne_true), if_neg due, zero_add, sumUpTo]

theorem sumUpTo_before {pts : List (K × G)} {t : K} (before : ∀ p ∈ pts, t < p.1) : sumUpTo pts t = 0 := by
  rw [sumUpTo, List.filter_eq_nil_iff.mpr fun p member => by simpa using before p member]
  rfl

variable {f : G → S} {acc : G} {s : S} {pts : List (K × G)}

theorem time_of_mem_sweep {p : K × S} (member : p ∈ sweep f acc s pts) : ∃ q ∈ pts, q.1 = p.1 := by
  induction pts generalizing acc s with
  | nil => cases member
  | cons q rest ih =>
    have later : ∀ {acc s}, p ∈ sweep f acc s rest → ∃ r ∈ q :: rest, r.1 = p.1 := fun member =>
      have ⟨r, inside, same⟩ := ih member
      ⟨r, List.mem_cons_of_mem _ inside, same⟩
    rw [sweep] at member
    split at member
    · exact later member
    · split at member
      · exact later member
      · rcases List.mem_cons.mp member with rfl | member
        · exact ⟨q, List.mem_cons_self, rfl⟩
        · exact later member

omit [AddCommMonoid G] in
/-- The last of its instant: what follows is later. -/
theorem later_of_last {q : K × G} {rest : List (K × G)} (ordered : (q :: rest).Pairwise fun a b => a.1 ≤ b.1)
    (last : ¬rest.head?.any (fun r => decide (r.1 = q.1)) = true) : ∀ r ∈ rest, q.1 < r.1 := by
  cases rest with
  | nil => exact fun _ none => nomatch none
  | cons first rest =>
    have different : first.1 ≠ q.1 := by simpa using last
    obtain ⟨after, rest'⟩ := List.pairwise_cons.mp ordered
    have lt : q.1 < first.1 := lt_of_le_of_ne (after first List.mem_cons_self) different.symm
    intro r member
    rcases List.mem_cons.mp member with rfl | member
    · exact lt
    · exact lt.trans_le ((List.pairwise_cons.mp rest').1 r member)

theorem tight_sweep (ordered : pts.Pairwise fun a b => a.1 ≤ b.1) : Tight s (sweep f acc s pts) := by
  induction pts generalizing acc s with
  | nil => trivial
  | cons q rest ih =>
    have rest' := (List.pairwise_cons.mp ordered).2
    rw [sweep]
    split
    · exact ih rest'
    · rename_i last
      split
      · exact ih rest'
      · rename_i new
        refine ⟨new, fun p member => ?_, ih rest'⟩
        obtain ⟨r, inside, same⟩ := time_of_mem_sweep member
        rw [← same]
        exact later_of_last ordered last r inside

/-- From the first point on, the step function is the function of the sum up to the instant. -/
theorem valueAt_sweep (ordered : pts.Pairwise fun a b => a.1 ≤ b.1) {t : K} (begun : ∃ p ∈ pts, p.1 ≤ t) :
    valueAt s (sweep f acc s pts) t = f (acc + sumUpTo pts t) := by
  induction pts generalizing acc s with
  | nil =>
    obtain ⟨_, none, _⟩ := begun
    cases none
  | cons q rest ih =>
    obtain ⟨after, rest'⟩ := List.pairwise_cons.mp ordered
    have due : q.1 ≤ t := by
      obtain ⟨p, member, due⟩ := begun
      rcases List.mem_cons.mp member with rfl | member
      · exact due
      · exact (after p member).trans due
    rw [sumUpTo_cons, if_pos due, ← add_assoc, sweep]
    by_cases more : ∃ p ∈ rest, p.1 ≤ t
    · split
      · exact ih rest' more
      · split
        · exact ih rest' more
        · rw [valueAt, if_pos due]
          exact ih rest' more
    · -- `q` is the last point up to `t`
      have before : ∀ p ∈ rest, t < p.1 := fun p member => lt_of_not_ge fun early => more ⟨p, member, early⟩
      have nothing : ∀ {acc s}, valueAt s (sweep f acc s rest) t = s := valueAt_before fun p member => by
        obtain ⟨r, inside, same⟩ := time_of_mem_sweep member
        rw [← same]
        exact before r inside
      rw [sumUpTo_before before, add_zero]
      split
      · rename_i first
        obtain ⟨r, head, same⟩ := Option.any_eq_true _ _ |>.mp first
        exact absurd due (not_le.mpr (by rw [← of_decide_eq_true same]; exact before r (List.mem_of_head? head)))
      · split
        · rename_i same
          rw [nothing, same]
        · rw [valueAt, if_pos due, nothing]

/-- At every instant, if the value begins as that of the empty sum. -/
theorem valueAt_sweep_zero (f : G → S) (acc : G) (ordered : pts.Pairwise fun a b => a.1 ≤ b.1) (t : K) :
    valueAt (f acc) (sweep f acc (f acc) pts) t = f (acc + sumUpTo pts t) := by
  by_cases begun : ∃ p ∈ pts, p.1 ≤ t
  · exact valueAt_sweep ordered begun
  · have before : ∀ p ∈ pts, t < p.1 := fun p member => lt_of_not_ge fun early => begun ⟨p, member, early⟩
    rw [sumUpTo_before before, add_zero]
    refine valueAt_before fun p member => ?_
    obtain ⟨r, inside, same⟩ := time_of_mem_sweep member
    rw [← same]
    exact before r inside

end

end Xair.Library
