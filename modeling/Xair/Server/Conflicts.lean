import Mathlib.Data.Prod.Lex
import Xair.Library.Groups
import Xair.Runtime.TargetLock
import Xair.Server.Batch

/-!
# Conflicts in a batch

Where the items of a batch go, who wins a target, and what is left after all of them
have been handled.
-/

namespace Xair

open Library

/-! ### Items -/

/-- The intents of a batch with their references, which are taken in order from `first` on. -/
def batchItems (first : Ref) : List (Except BatchResult ActionIntent) → List Item
  | [] => []
  | .error _ :: rest => batchItems first rest
  | .ok i :: rest => (first, i) :: batchItems (first + 1) rest

theorem first_le_of_mem_batchItems {first : Ref} {bodies : List (Except BatchResult ActionIntent)} {item : Item}
    (member : item ∈ batchItems first bodies) : first ≤ item.1 := by
  induction bodies generalizing first with
  | nil => cases member
  | cons body rest ih =>
    cases body with
    | error result => exact ih member
    | ok i =>
      rcases List.mem_cons.mp member with rfl | later
      · exact Nat.le_refl _
      · exact Nat.le_of_succ_le (ih later)

theorem batchItems_ordered (first : Ref) (bodies : List (Except BatchResult ActionIntent)) :
    (batchItems first bodies).Pairwise fun a b => a.1 < b.1 := by
  induction bodies generalizing first with
  | nil => exact .nil
  | cons body rest ih =>
    cases body with
    | error result => exact ih first
    | ok i => exact .cons (fun item later => first_le_of_mem_batchItems later) (ih (first + 1))

theorem nodup_of_ordered {items : List Item} (ordered : items.Pairwise fun a b => a.1 < b.1) : items.Nodup :=
  ordered.imp fun before same => Nat.ne_of_lt before (congrArg Prod.fst same)

/-- References tell items apart. -/
theorem eq_of_ref {items : List Item} (ordered : items.Pairwise fun a b => a.1 < b.1) {a b : Item} (ha : a ∈ items)
    (hb : b ∈ items) (same : a.1 = b.1) : a = b := by
  induction items with
  | nil => cases ha
  | cons item rest ih =>
    obtain ⟨before, ordered⟩ := List.pairwise_cons.mp ordered
    rcases List.mem_cons.mp ha with here | later <;> rcases List.mem_cons.mp hb with here' | later'
    · exact here.trans here'.symm
    · exact absurd (here ▸ same) (Nat.ne_of_lt (before b later'))
    · exact absurd (here' ▸ same).symm (Nat.ne_of_lt (before a later))
    · exact ih ordered later later'

/-! ### Ranks -/

/-- What `resolve` sorts by. -/
def Item.rank (item : Item) : Int ×ₗ Bool := toLex (item.2.priority, decide (item.2.source = "xr".toList))

theorem outranks_iff {a b : Item} : outranks a b = true ↔ b.rank ≤ a.rank := by
  rw [outranks, Bool.or_eq_true, Bool.and_eq_true, Bool.or_eq_true, decide_eq_true_eq, decide_eq_true_eq, decide_eq_true_eq,
    decide_eq_true_eq, Item.rank, Item.rank, Prod.Lex.toLex_le_toLex]
  refine or_congr Iff.rfl (and_congr eq_comm ?_)
  by_cases ha : a.2.source = "xr".toList
  · simp only [ha, decide_true, true_or, true_iff]
    exact Bool.le_true _
  · simp only [ha, decide_false, false_or]
    rw [ne_eq, ← decide_eq_false_iff_not]
    exact le_bot_iff.symm

/-- The winner of a group: it has the highest rank, and was submitted before all others of that rank. -/
def Item.Wins (winner : Item) (group : List Item) : Prop :=
  winner ∈ group ∧ ∀ other ∈ group, other.rank < winner.rank ∨ other.rank = winner.rank ∧ winner.1 ≤ other.1

theorem wins_resolveItems {group : List Item} (ordered : group.Pairwise fun a b => a.1 < b.1) {winner : Item}
    (won : (resolveItems group).1 = some winner) : winner.Wins group := by
  rw [resolveItems] at won
  split at won
  · cases won
  · rename_i head rest sorted
    obtain rfl := Option.some.inj won
    obtain ⟨member, first⟩ := mergeSort_head (fun a b c => by rw [outranks_iff, outranks_iff, outranks_iff]; exact fun h h' => h'.trans h)
      (fun a b => by rw [Bool.or_eq_true, outranks_iff, outranks_iff]; exact le_total _ _) (nodup_of_ordered ordered) sorted
    refine ⟨member, fun other its => ?_⟩
    rcases first other its with rfl | ⟨above, notBefore⟩
    · exact Or.inr ⟨rfl, Nat.le_refl _⟩
    · rcases lt_or_eq_of_le (outranks_iff.mp above) with lower | equal
      · exact Or.inl lower
      · refine Or.inr ⟨equal, ?_⟩
        by_contra later
        refine notBefore (outranks_iff.mpr (le_of_eq equal.symm)) ?_
        exact pair_sublist_of_ordered (fun a b => Nat.lt_asymm) ordered its member (Nat.lt_of_not_le later)

/-- The winner and the losers are the group. -/
theorem resolveItems_perm (group : List Item) : ((resolveItems group).2 ++ (resolveItems group).1.toList).Perm group := by
  refine List.Perm.trans ?_ (List.mergeSort_perm group outranks)
  rw [resolveItems]
  split
  · rename_i sorted
    rw [sorted]
    exact .refl _
  · rename_i winner losers sorted
    rw [sorted]
    exact List.perm_append_singleton winner losers

theorem nodup_uniqueFirst (xs : List Str) : (uniqueFirst xs).Nodup := by
  induction xs with
  | nil => exact List.nodup_nil
  | cons x xs ih =>
    rw [uniqueFirst]
    refine List.nodup_cons.mpr ⟨fun member => ?_, ih.filter _⟩
    exact of_decide_eq_true (List.mem_filter.mp member).2 rfl

/-- The groups that are in conflict. -/
def conflictGroups (items : List Item) : List (Option Item × List Item) :=
  (targetsOf items).map fun target => resolveItems (items.filter fun item => decide (item.2.target = target))

/-- The losers and the winners of all targets are the items. -/
theorem conflictGroups_perm {items : List Item} (nodup : items.Nodup) :
    ((conflictGroups items).flatMap Prod.snd ++ (conflictGroups items).filterMap Prod.fst).Perm items := by
  have covers : ∀ item ∈ items, item.2.target ∈ targetsOf items := fun item member =>
    mem_uniqueFirst.mpr (List.mem_map_of_mem member)
  refine List.Perm.trans ?_ (flatMap_groups_perm (fun item : Item => item.2.target) (nodup_uniqueFirst _) nodup covers)
  rw [conflictGroups, List.flatMap_map, List.filterMap_eq_flatMap_toList, List.flatMap_map]
  refine (List.flatMap_append_perm _ _ _).trans (List.Perm.flatMap_left _ fun target _ => resolveItems_perm _)

/-- A winner wins the group of its target. -/
theorem wins_conflictGroups {items : List Item} (ordered : items.Pairwise fun a b => a.1 < b.1) {winner : Item}
    (won : winner ∈ (conflictGroups items).filterMap Prod.fst) :
    (resolveItems (items.filter fun item => decide (item.2.target = winner.2.target))).1 = some winner ∧
      winner.Wins (items.filter fun item => decide (item.2.target = winner.2.target)) := by
  obtain ⟨group, member, first⟩ := List.mem_filterMap.mp won
  obtain ⟨target, _, rfl⟩ := List.mem_map.mp member
  have wins := wins_resolveItems (ordered.filter _) first
  obtain rfl : winner.2.target = target := of_decide_eq_true (List.mem_filter.mp wins.1).2
  exact ⟨first, wins⟩

/-! ### Sorting a batch -/

section

variable [PyText] {cfg : SiteConfig}

/-- Where the items of a batch go. -/
def sortedItems (policy : Policy) (trusted : Bool) (first : Ref) : List (Except BatchResult ActionIntent) → List Sorted
  | [] => []
  | .error result :: rest => .refused result :: sortedItems policy trusted first rest
  | .ok i :: rest =>
    (if (policy.actionClass i).riskReducing then .stop (first, i) else if trusted then .other (first, i)
      else .refused ⟨i.id, i.source, some .revoke, "context_store_untrusted".toList⟩) ::
        sortedItems policy trusted (first + 1) rest

theorem stops_sortedItems (policy : Policy) (trusted : Bool) (first : Ref) (bodies : List (Except BatchResult ActionIntent)) :
    (sortedItems policy trusted first bodies).filterMap Sorted.stopItem =
      (batchItems first bodies).filter fun item => (policy.actionClass item.2).riskReducing := by
  induction bodies generalizing first with
  | nil => rfl
  | cons body rest ih =>
    cases body with
    | error result => exact ih first
    | ok i =>
      rw [sortedItems, batchItems, List.filter_cons, ← ih (first + 1)]
      by_cases stop : (policy.actionClass i).riskReducing = true
      · rw [if_pos stop, if_pos stop]
        rfl
      · rw [if_neg stop, if_neg stop]
        cases trusted <;> rfl

theorem others_sortedItems (policy : Policy) (first : Ref) (bodies : List (Except BatchResult ActionIntent)) :
    (sortedItems policy true first bodies).filterMap Sorted.otherItem =
      (batchItems first bodies).filter fun item => !(policy.actionClass item.2).riskReducing := by
  induction bodies generalizing first with
  | nil => rfl
  | cons body rest ih =>
    cases body with
    | error result => exact ih first
    | ok i =>
      rw [sortedItems, batchItems, List.filter_cons, ← ih (first + 1)]
      by_cases stop : (policy.actionClass i).riskReducing = true
      · rw [if_pos stop, stop]
        rfl
      · rw [if_neg stop, Bool.eq_false_iff.mpr stop]
        rfl

theorem others_untrusted (policy : Policy) (first : Ref) (bodies : List (Except BatchResult ActionIntent)) :
    (sortedItems policy false first bodies).filterMap Sorted.otherItem = [] := by
  induction bodies generalizing first with
  | nil => rfl
  | cons body rest ih =>
    cases body with
    | error result => exact ih first
    | ok i =>
      rw [sortedItems]
      by_cases stop : (policy.actionClass i).riskReducing = true
      · rw [if_pos stop]
        exact ih (first + 1)
      · rw [if_neg stop]
        exact ih (first + 1)

/-- The id that an item of a batch is answered under. -/
def bodyId : Except BatchResult ActionIntent → Str
  | .error result => result.id
  | .ok i => i.id

def Sorted.id : Sorted → Str
  | refused result => result.id
  | stop item => item.2.id
  | other item => item.2.id

theorem ids_sortedItems (policy : Policy) (trusted : Bool) (first : Ref) (bodies : List (Except BatchResult ActionIntent)) :
    (sortedItems policy trusted first bodies).map Sorted.id = bodies.map bodyId := by
  induction bodies generalizing first with
  | nil => rfl
  | cons body rest ih =>
    cases body with
    | error result => exact congrArg _ (ih first)
    | ok i =>
      rw [sortedItems, List.map_cons, List.map_cons, ih (first + 1)]
      by_cases stop : (policy.actionClass i).riskReducing = true
      · rw [if_pos stop]
        rfl
      · rw [if_neg stop]
        cases trusted <;> rfl

omit [PyText] in
/-- Refusals, stops and other items make up the batch. -/
theorem ids_perm (sorted : List Sorted) :
    ((sorted.filterMap Sorted.refusal).map BatchResult.id ++ ((sorted.filterMap Sorted.stopItem).map (fun item => item.2.id) ++
      (sorted.filterMap Sorted.otherItem).map fun item => item.2.id)).Perm (sorted.map Sorted.id) := by
  induction sorted with
  | nil => exact .refl _
  | cons x rest ih =>
    cases x with
    | refused result => exact ih.cons _
    | stop item => exact List.perm_middle.trans (ih.cons _)
    | other item =>
      refine List.Perm.trans ?_ (ih.cons item.2.id)
      rw [← List.append_assoc, ← List.append_assoc]
      exact List.perm_middle

/-- The intents of a batch have been created. -/
structure Created (items : List Item) (s s' : Site) : Prop where
  records : s'.runtime.records = s.runtime.records
  seen : s'.runtime.seen = s.runtime.seen
  locks : s'.runtime.activeTargets = s.runtime.activeTargets
  policy : s'.runtime.policy = s.runtime.policy
  mono : s.mono ≤ s'.mono
  below : ∀ ref, ref < s.allocated → s'.runtime.heap ref = s.runtime.heap ref
  knows : ∀ item ∈ items, s'.runtime.Knows item

omit [PyText] in
theorem Created.elsewhere {items : List Item} {s s₁ s₂ s' : Site} (before : s.Elsewhere s₁) (h : Created items s₁ s₂)
    (after : s₂.Elsewhere s') : Created items s s' := by
  obtain ⟨records, seen, locks, policy, mono, below, knows⟩ := h
  refine ⟨?_, ?_, ?_, ?_, Rat.le_trans before.mono (Rat.le_trans mono after.mono), fun ref used => ?_, fun item member => ?_⟩
  · rw [after.runtime, records, before.runtime]
  · rw [after.runtime, seen, before.runtime]
  · rw [after.runtime, locks, before.runtime]
  · rw [after.runtime, policy, before.runtime]
  · rw [after.runtime, below ref (by rw [before.allocated]; exact used), before.runtime]
  · rw [after.runtime]
    exact knows item member

theorem completes_sortItem {trusted : Bool} {i : ActionIntent} {sorted : Sorted} {s s' : Site}
    (run : Completes (sortItem trusted (.ok i) : Handler cfg Sorted) s sorted s') :
    [sorted] = sortedItems s.runtime.policy trusted s.allocated [.ok i] ∧
      s'.runtime = s.runtime.putIntent s.allocated { i with policyAdded := none } ∧ s'.allocated = s.allocated + 1 ∧
        s.mono ≤ s'.mono := by
  obtain ⟨ref, s₁, created, rest⟩ := completes_bind run
  obtain ⟨s₂, before, rfl, moved⟩ := completes_step created
  obtain ⟨cls, s₃, read, rest⟩ := completes_bind rest
  obtain ⟨s₄, between, rfl, moved'⟩ := completes_step read
  have runtime : s₄.runtime = s.runtime.putIntent s.allocated { i with policyAdded := none } := by
    rw [between.runtime, moved.runtime]
    show s₂.runtime.putIntent s₂.allocated _ = _
    rw [before.runtime, before.allocated]
  have itsClass : (Site.exec cfg (.actionClass (Site.exec cfg (.create { i with policyAdded := none }) s₂).1) s₄).1 =
      s.runtime.policy.actionClass i := by
    show s₄.runtime.policy.actionClass (s₄.runtime.heap s₂.allocated) = _
    rw [runtime, Runtime.heap_putIntent, before.allocated, if_pos rfl]
    rfl
  have itsRef : (Site.exec cfg (.create { i with policyAdded := none }) s₂).1 = s.allocated := before.allocated
  rw [itsClass, itsRef] at rest
  have ended : ∀ {s₅ : Site}, s₃.Elsewhere s₅ → s₅.runtime = s.runtime.putIntent s.allocated { i with policyAdded := none } ∧
      s₅.allocated = s.allocated + 1 ∧ s.mono ≤ s₅.mono := by
    intro s₅ after
    have mono : s₂.mono ≤ s₁.mono := moved.mono
    have allocated : s₁.allocated = s₂.allocated + 1 := moved.allocated
    have mono' : s₄.mono ≤ s₃.mono := moved'.mono
    refine ⟨?_, ?_, Rat.le_trans before.mono (Rat.le_trans mono (Rat.le_trans between.mono (Rat.le_trans mono' after.mono)))⟩
    · rw [after.runtime, moved'.runtime]
      exact runtime
    · rw [after.allocated, moved'.allocated]
      show s₄.allocated = _
      rw [between.allocated, allocated, before.allocated]
  rw [sortedItems, sortedItems]
  split at rest
  · rename_i stop
    obtain ⟨rfl, after⟩ := completes_pure rest
    exact ⟨by rw [if_pos stop], ended after⟩
  · rename_i other
    rw [if_neg other]
    split at rest
    · rename_i yes
      obtain ⟨rfl, after⟩ := completes_pure rest
      exact ⟨by rw [if_pos yes], ended after⟩
    · rename_i no
      obtain ⟨rfl, after⟩ := completes_pure rest
      exact ⟨by rw [if_neg no], ended after⟩

theorem completes_sort {trusted : Bool} {bodies : List (Except BatchResult ActionIntent)} {sorted : List Sorted} {s s' : Site}
    (run : Completes (each (sortItem trusted) bodies : Handler cfg (List Sorted)) s sorted s') :
    sorted = sortedItems s.runtime.policy trusted s.allocated bodies ∧ Created (batchItems s.allocated bodies) s s' := by
  induction bodies generalizing s s' sorted with
  | nil =>
    obtain ⟨rfl, moved⟩ := completes_pure run
    exact ⟨rfl, by rw [moved.runtime], by rw [moved.runtime], by rw [moved.runtime], by rw [moved.runtime], moved.mono,
      fun _ _ => by rw [moved.runtime], fun _ member => nomatch member⟩
  | cons body rest ih =>
    obtain ⟨x, s₁, first, later⟩ := completes_bind run
    obtain ⟨xs, s₂, others, ended⟩ := completes_bind later
    obtain ⟨rfl, after⟩ := completes_pure ended
    obtain ⟨rfl, created⟩ := ih others
    cases body with
    | error result =>
      obtain ⟨rfl, before⟩ := completes_pure first
      rw [before.allocated] at created
      refine ⟨?_, created.elsewhere before after⟩
      rw [before.runtime, before.allocated]
      rfl
    | ok i =>
      obtain ⟨sorted, runtime, allocated, mono⟩ := completes_sortItem first
      obtain ⟨records, seen, locks, policy, mono', below, knows⟩ := created.elsewhere (.refl _) after
      rw [allocated, runtime] at *
      refine ⟨?_, records, seen, locks, policy, Rat.le_trans mono mono', fun ref used => ?_, fun item member => ?_⟩
      · exact congrArg (· ++ _) sorted
      · rw [below ref (Nat.lt_succ_of_lt used), Runtime.heap_putIntent, if_neg (Nat.ne_of_lt used)]
      · rcases List.mem_cons.mp member with rfl | its
        · have here := below s.allocated (Nat.lt_succ_self _)
          rw [Runtime.heap_putIntent, if_pos rfl] at here
          constructor <;> rw [here]
        · exact knows item its

/-! ### Handling items one after the other -/

theorem handles_each (verdict : Item → IntentState → Prop) {policy : Policy} {f : Item → Handler cfg BatchResult} {items : List Item}
    (one : ∀ item ∈ items, ∀ s s' r, s.runtime.Knows item → s.runtime.policy = policy → Completes (f item) s r s' →
      Handles cfg verdict [item] s s' ∧ r.id = item.2.id)
    {s s' : Site} {rs : List BatchResult} (knows : ∀ item ∈ items, s.runtime.Knows item) (same : s.runtime.policy = policy)
    (run : Completes (each f items) s rs s') :
    Handles cfg verdict items s s' ∧ rs.map BatchResult.id = items.map fun item => item.2.id := by
  induction items generalizing s s' rs with
  | nil =>
    obtain ⟨rfl, moved⟩ := completes_pure run
    exact ⟨.of_calm moved.calm moved.since, rfl⟩
  | cons item rest ih =>
    obtain ⟨r, s₁, first, later⟩ := completes_bind run
    obtain ⟨rs', s₂, others, ended⟩ := completes_bind later
    obtain ⟨rfl, after⟩ := completes_pure ended
    obtain ⟨handled, answer⟩ := one item List.mem_cons_self s s₁ r (knows item List.mem_cons_self) same first
    obtain ⟨handled', answers⟩ := ih (fun other member => one other (List.mem_cons_of_mem _ member))
      (fun other member => handled.knows other (knows other (List.mem_cons_of_mem _ member))) (handled.policy.trans same) others
    refine ⟨?_, by rw [List.map_cons, List.map_cons, answer, answers]⟩
    have all := (handled.append handled').append (.of_calm after.calm after.since)
    rwa [List.append_nil] at all

section

variable {verdict : Item → IntentState → Prop} {items : List Item} {s s' : Site} {id : Str}

omit [PyText] in
/-- A grant that is young enough in the end stays. -/
theorem Handles.held (h : Handles cfg verdict items s s') {since : ℚ} (held : s.Held since id)
    (recent : s'.mono - cfg.config.idempotencyRetentionS ≤ since) : s'.Held since id := by
  obtain ⟨time, record, later, seen, stored, state⟩ := held
  obtain ⟨seen, stored⟩ := h.young id time record seen (Rat.le_trans recent later) stored state
  exact ⟨time, record, later, seen, stored, state⟩

omit [PyText] in
/-- A grant is only replaced by an admission of its own id. -/
theorem Handles.granted (h : Handles cfg verdict items s s') (granted : s.Granted id)
    (apart : ∀ item ∈ items, item.2.id ≠ id) : s'.Granted id := by
  obtain ⟨record, stored, state⟩ := granted
  exact ⟨record, h.kept id record stored (by rw [state]; rfl) apart, state⟩

omit [PyText] in
theorem Site.Held.granted {since : ℚ} (h : s.Held since id) : s.Granted id := by
  obtain ⟨_, record, _, _, stored, state⟩ := h
  exact ⟨record, stored, state⟩

end

section

variable {ticket : Nat} {timedOut : Ref → Nat → Nat → Bool} {stops : List Item} {s s' : Site} {rs : List BatchResult}

/-- A grant stays while stops are handled. -/
theorem granted_stops {policy : Policy} (stop : ∀ item ∈ stops, policy.actionClass item.2 = .stop)
    (knows : ∀ item ∈ stops, s.runtime.Knows item) (same : s.runtime.policy = policy)
    (run : Completes (each (batchStop ticket timedOut) stops : Handler cfg _) s rs s') {id : Str} (granted : s.Granted id) :
    s'.Granted id := by
  induction stops generalizing s s' rs with
  | nil =>
    obtain ⟨rfl, moved⟩ := completes_pure run
    rw [Site.Granted, moved.runtime]
    exact granted
  | cons item rest ih =>
    obtain ⟨r, s₁, first, later⟩ := completes_bind run
    obtain ⟨rs', s₂, others, ended⟩ := completes_bind later
    obtain ⟨rfl, after⟩ := completes_pure ended
    obtain ⟨handled, _, _, again⟩ := handles_batchStop (knows item List.mem_cons_self)
      (by rw [same]; exact stop item List.mem_cons_self) first
    have here : s₁.Granted id := by
      by_cases its : item.2.id = id
      · subst its
        exact again granted
      · exact handled.granted granted fun other member => by rw [List.mem_singleton.mp member]; exact its
    have final := ih (fun other member => stop other (List.mem_cons_of_mem _ member))
      (fun other member => handled.knows other (knows other (List.mem_cons_of_mem _ member))) (handled.policy.trans same) others here
    rw [Site.Granted, after.runtime]
    exact final

/-- The stops that were not remembered are authorized after all stops have been handled. -/
theorem held_stops {policy : Policy} (stop : ∀ item ∈ stops, policy.actionClass item.2 = .stop)
    (knows : ∀ item ∈ stops, s.runtime.Knows item) (same : s.runtime.policy = policy)
    (run : Completes (each (batchStop ticket timedOut) stops : Handler cfg _) s rs s') {item : Item} (member : item ∈ stops)
    (unknown : ¬s.runtime.Remembers item.2.id) :
    s'.Granted item.2.id ∧ (s'.mono - cfg.config.idempotencyRetentionS ≤ s.mono → s'.Held s.mono item.2.id) := by
  induction stops generalizing s s' rs with
  | nil => cases member
  | cons first rest ih =>
    obtain ⟨r, s₁, run₁, later⟩ := completes_bind run
    obtain ⟨rs', s₂, run₂, ended⟩ := completes_bind later
    obtain ⟨rfl, after⟩ := completes_pure ended
    obtain ⟨handled, _, granted, _⟩ := handles_batchStop (knows first List.mem_cons_self)
      (by rw [same]; exact stop first List.mem_cons_self) run₁
    have stops' : ∀ other ∈ rest, policy.actionClass other.2 = .stop := fun other its => stop other (List.mem_cons_of_mem _ its)
    have knows' : ∀ other ∈ rest, s₁.runtime.Knows other := fun other its =>
      handled.knows other (knows other (List.mem_cons_of_mem _ its))
    have same' := handled.policy.trans same
    have all := (handles_each (fun _ state => state = .authorized)
      (fun other its s s' r known same₁ run => by
        obtain ⟨one, answer, _⟩ := handles_batchStop known (by rw [same₁]; exact stops' other its) run
        exact ⟨one, answer⟩) knows' same' run₂).1
    have calm : ∀ {since : ℚ}, s₂.Held since item.2.id → s'.Held since item.2.id := by
      intro since held
      rw [Site.Held, after.runtime]
      exact held
    by_cases its : first.2.id = item.2.id
    · have held : s₁.Held s.mono item.2.id := its ▸ granted (its ▸ unknown)
      refine ⟨?_, fun recent => calm (all.held held ?_)⟩
      · rw [Site.Granted, after.runtime]
        exact granted_stops stops' knows' same' run₂ held.granted
      · have mono := after.mono
        linarith
    · have still : ¬s₁.runtime.Remembers item.2.id := handled.unknown _ unknown fun other only => by
        rw [List.mem_singleton.mp only]
        exact its
      have later : item ∈ rest := (List.mem_cons.mp member).resolve_left fun here => its (by rw [here])
      obtain ⟨granted, held⟩ := ih stops' knows' same' run₂ later still
      refine ⟨?_, fun recent => calm ?_⟩
      · rw [Site.Granted, after.runtime]
        exact granted
      · have mono := after.mono
        have mono₁ := handled.since.mono
        obtain ⟨time, record, since, seen, stored, state⟩ := held (by linarith)
        exact ⟨time, record, Rat.le_trans mono₁ since, seen, stored, state⟩

end

/-! ### The whole batch -/

/-- The intent of the item has become authorized. -/
def Item.Authorized (item : Item) (s s' : Site) : Prop :=
  ∃ record, s'.runtime.records.get item.2.id = some record ∧ s.runtime.records.get item.2.id ≠ some record ∧
    record.intent = item.1 ∧ record.state = .authorized

/-- The items on the target of this one that are no stops. -/
def contenders (policy : Policy) (items : List Item) (item : Item) : List Item :=
  items.filter fun other => decide (policy.actionClass other.2 ≠ .stop ∧ other.2.target = item.2.target)

/-- What a batch has done when it is answered. -/
structure BatchServed (cfg : SiteConfig) (bodies : List (Except BatchResult ActionIntent)) (s : Site) (results : List BatchResult)
    (s' : Site) : Prop where
  answered : (results.map BatchResult.id).Perm (bodies.map bodyId)
  /-- A stop that is admitted for the first time ends authorized, unless it is forgotten and admitted again meanwhile. -/
  stops : ∀ item ∈ batchItems s.allocated bodies, s.runtime.policy.actionClass item.2 = .stop →
    ¬s.runtime.Remembers item.2.id →
      (s'.mono - cfg.config.idempotencyRetentionS ≤ s.mono ∨ ∀ other ∈ batchItems s.allocated bodies,
        s.runtime.policy.actionClass other.2 ≠ .stop → other.2.id ≠ item.2.id) → s'.state item.2.id = some .authorized
  /-- So does one that has been admitted again. -/
  readmitted : ∀ item ∈ batchItems s.allocated bodies, s.runtime.policy.actionClass item.2 = .stop →
    ∀ record, s'.runtime.records.get item.2.id = some record → s.runtime.records.get item.2.id ≠ some record →
      record.intent = item.1 → record.state = .authorized
  preempted : ∀ item ∈ batchItems s.allocated bodies, s.runtime.policy.actionClass item.2 ≠ .stop →
    (∃ stop ∈ batchItems s.allocated bodies, s.runtime.policy.actionClass stop.2 = .stop ∧ stop.2.target = item.2.target) →
      ¬item.Authorized s s'
  single : ∀ item ∈ batchItems s.allocated bodies, ∀ other ∈ batchItems s.allocated bodies,
    s.runtime.policy.actionClass item.2 ≠ .stop → s.runtime.policy.actionClass other.2 ≠ .stop →
      item.2.target = other.2.target → item.Authorized s s' → other.Authorized s s' → item = other
  best : ∀ item ∈ batchItems s.allocated bodies, s.runtime.policy.actionClass item.2 ≠ .stop → item.Authorized s s' →
    item.Wins (contenders s.runtime.policy (batchItems s.allocated bodies) item)
  locks : ∀ target, target ∈ s'.runtime.activeTargets ↔ target ∈ s.runtime.activeTargets

omit [PyText] in
/-- There is one winner of a group. -/
theorem Item.Wins.unique {items : List Item} (ordered : items.Pairwise fun a b => a.1 < b.1) {a b : Item} (ha : a.Wins items)
    (hb : b.Wins items) : a = b := by
  refine eq_of_ref ordered ha.1 hb.1 ?_
  rcases ha.2 b hb.1 with lower | ⟨equal, first⟩ <;> rcases hb.2 a ha.1 with lower' | ⟨equal', first'⟩
  · exact absurd lower' (lt_asymm lower)
  · exact absurd equal'.symm (ne_of_lt lower)
  · exact absurd equal.symm (ne_of_lt lower')
  · exact Nat.le_antisymm first first'

/-- The verdicts of a batch: its stops are authorized, and of the others winners only. -/
def verdictOf (stops winners : List Item) (item : Item) (state : IntentState) : Prop :=
  (item ∈ stops → state = .authorized) ∧ (state = .authorized → item ∈ stops ∨ item ∈ winners)

/-- The items that no stop of the batch sets aside. -/
def remaining (stops others : List Item) : List Item :=
  others.filter fun item => decide (item.2.target ∉ stops.map fun item => item.2.target)

def winnersOf (stops others : List Item) : List Item := (conflictGroups (remaining stops others)).filterMap Prod.fst

omit [PyText] in
/-- The items a stop sets aside, the losers and the winners are the items that are no stops. -/
theorem remaining_perm (stops : List Item) {others : List Item} (distinct : others.Nodup) :
    ((others.filter fun item => decide (item.2.target ∈ stops.map fun item => item.2.target)) ++
      (conflictGroups (remaining stops others)).flatMap Prod.snd ++ winnersOf stops others).Perm others := by
  have parted := List.filter_append_perm (fun item : Item => decide (item.2.target ∈ stops.map fun item => item.2.target)) others
  simp only [← decide_not] at parted
  rw [List.append_assoc]
  exact ((conflictGroups_perm (distinct.filter _)).append_left _).trans parted

/-- How the items of a batch were handled, from the state in which all have been created. -/
structure BatchHandled (cfg : SiteConfig) (stops others : List Item) (s s' : Site) : Prop where
  all : ∃ items, (∀ item, item ∈ items ↔ item ∈ stops ∨ item ∈ others) ∧ Handles cfg (verdictOf stops (winnersOf stops others)) items s s'
  granted : ∀ item ∈ stops, ¬s.runtime.Remembers item.2.id →
    (s'.mono - cfg.config.idempotencyRetentionS ≤ s.mono ∨ ∀ other ∈ others, other.2.id ≠ item.2.id) → s'.Granted item.2.id

theorem completes_items {ticket : Nat} {timedOut : Ref → Nat → Nat → Bool} {stops others : List Item} {s s₁ s₂ s₃ s' : Site}
    {policy : Policy} {stopResults preempted losers winners : List BatchResult} (apart : ∀ item ∈ others, item ∉ stops)
    (distinct : others.Nodup) (stop : ∀ item ∈ stops, policy.actionClass item.2 = .stop)
    (notStop : ∀ item ∈ others, policy.actionClass item.2 ≠ .stop)
    (knows : ∀ item, item ∈ stops ∨ item ∈ others → s.runtime.Knows item) (same : s.runtime.policy = policy)
    (run₁ : Completes (each (batchStop ticket timedOut) stops : Handler cfg _) s stopResults s₁)
    (run₂ : Completes (each (batchLoser "preempted_by_stop")
      (others.filter fun item => decide (item.2.target ∈ stops.map fun item => item.2.target)) : Handler cfg _) s₁ preempted s₂)
    (run₃ : Completes (each (batchLoser "conflict_loser") ((conflictGroups (remaining stops others)).flatMap Prod.snd) : Handler cfg _)
      s₂ losers s₃)
    (run₄ : Completes (each (batchWinner ticket timedOut) (winnersOf stops others) : Handler cfg _) s₃ winners s') :
    BatchHandled cfg stops others s s' ∧ ((stopResults ++ preempted ++ losers ++ winners).map BatchResult.id).Perm
      (stops.map (fun item => item.2.id) ++ others.map fun item => item.2.id) := by
  have split := remaining_perm stops distinct
  have fromRest : ∀ item, item ∈ (conflictGroups (remaining stops others)).flatMap Prod.snd ∨ item ∈ winnersOf stops others →
      item ∈ others := by
    intro item member
    refine split.subset ?_
    rw [List.append_assoc]
    exact List.mem_append_right _ (List.mem_append.mpr member)
  have fromStopped : ∀ item ∈ others.filter fun item => decide (item.2.target ∈ stops.map fun item => item.2.target), item ∈ others :=
    fun item member => (List.mem_filter.mp member).1
  have loses : ∀ reason item, item ∈ others → ∀ s s' r, s.runtime.Knows item → s.runtime.policy = policy →
      Completes (batchLoser reason item : Handler cfg BatchResult) s r s' →
        Handles cfg (verdictOf stops (winnersOf stops others)) [item] s s' ∧ r.id = item.2.id := by
    intro reason item member s s' r known _ run
    obtain ⟨one, answer⟩ := handles_batchLoser known run
    refine ⟨one.imp fun other only state revoked => ?_, answer⟩
    rw [List.mem_singleton.mp only]
    exact ⟨fun its => absurd its (apart item member), fun granted => by rw [revoked] at granted; cases granted⟩
  obtain ⟨first, answers₁⟩ := handles_each (verdictOf stops (winnersOf stops others)) (fun item member s s' r known same run => by
    obtain ⟨one, answer, _⟩ := handles_batchStop known (by rw [same]; exact stop item member) run
    refine ⟨one.imp fun other only state granted => ?_, answer⟩
    rw [List.mem_singleton.mp only]
    exact ⟨fun _ => granted, fun _ => Or.inl member⟩) (fun item member => knows item (Or.inl member)) same run₁
  have same₁ := first.policy.trans same
  have knows₁ : ∀ item ∈ others, s₁.runtime.Knows item := fun item member => first.knows item (knows item (Or.inr member))
  obtain ⟨second, answers₂⟩ := handles_each _ (fun item member => loses _ item (fromStopped item member))
    (fun item member => knows₁ item (fromStopped item member)) same₁ run₂
  have same₂ := second.policy.trans same₁
  have knows₂ : ∀ item ∈ others, s₂.runtime.Knows item := fun item member => second.knows item (knows₁ item member)
  obtain ⟨third, answers₃⟩ := handles_each _ (fun item member => loses _ item (fromRest item (Or.inl member)))
    (fun item member => knows₂ item (fromRest item (Or.inl member))) same₂ run₃
  have same₃ := third.policy.trans same₂
  obtain ⟨fourth, answers₄⟩ := handles_each (verdictOf stops (winnersOf stops others)) (fun item member s s' r known same run => by
    obtain ⟨one, answer⟩ := handles_batchWinner known (by rw [same]; exact notStop item (fromRest item (Or.inr member))) run
    refine ⟨one.imp fun other only state _ => ?_, answer⟩
    rw [List.mem_singleton.mp only]
    exact ⟨fun its => absurd its (apart item (fromRest item (Or.inr member))), fun _ => Or.inr member⟩)
    (fun item member => third.knows item (knows₂ item (fromRest item (Or.inr member)))) same₃ run₄
  have later := (second.append third).append fourth
  refine ⟨⟨⟨_, fun item => ?_, first.append later⟩, fun item member unknown once => ?_⟩, ?_⟩
  · rw [List.mem_append, split.mem_iff]
  · obtain ⟨granted, held⟩ := held_stops stop (fun item member => knows item (Or.inl member)) same run₁ member unknown
    rcases once with recent | alone
    · have mono := later.since.mono
      exact (later.held (held (by linarith)) recent).granted
    · exact later.granted granted fun other its => alone other (split.mem_iff.mp its)
  · rw [List.append_assoc, List.append_assoc, List.map_append, List.map_append, List.map_append, answers₁, answers₂, answers₃, answers₄,
      ← List.map_append, ← List.map_append, ← List.append_assoc]
    exact (split.map _).append_left _

omit [PyText] in
/-- A record that a batch has written belongs to one of its items. -/
theorem BatchHandled.item_of_written {stops others items : List Item} {s s' : Site} (h : BatchHandled cfg stops others s s')
    (ordered : items.Pairwise fun a b => a.1 < b.1) (within : ∀ item, item ∈ stops ∨ item ∈ others → item ∈ items) {item : Item}
    (member : item ∈ items) {record : IntentRecord} (now : s'.runtime.records.get item.2.id = some record)
    (new : s.runtime.records.get item.2.id ≠ some record) (intent : record.intent = item.1) :
    verdictOf stops (winnersOf stops others) item record.state := by
  obtain ⟨handled, same, all⟩ := h.all
  rcases all.written _ record now with before | ⟨other, its, _, intent', verdict⟩
  · exact absurd before new
  · obtain rfl := eq_of_ref ordered (within other ((same other).mp its)) member (intent'.symm.trans intent)
    exact verdict

/-- A winner of the batch wins against all that are no stops on its target. -/
theorem wins_contenders {policy : Policy} {stops others items : List Item} (ordered : others.Pairwise fun a b => a.1 < b.1)
    (inOthers : ∀ item, item ∈ others ↔ item ∈ items ∧ policy.actionClass item.2 ≠ .stop) {item : Item}
    (winner : item ∈ winnersOf stops others) : item.Wins (contenders policy items item) := by
  obtain ⟨_, member, highest⟩ := wins_conflictGroups (ordered.filter _) winner
  have free := of_decide_eq_true (List.mem_filter.mp (List.mem_filter.mp member).1).2
  have same : ∀ other, other ∈ (remaining stops others).filter (fun other => decide (other.2.target = item.2.target)) ↔
      other ∈ contenders policy items item := by
    intro other
    rw [contenders, List.mem_filter, List.mem_filter, remaining, List.mem_filter, inOthers, decide_eq_true_eq, decide_eq_true_eq,
      decide_eq_true_eq]
    constructor
    · rintro ⟨⟨⟨its, notStop⟩, _⟩, target⟩
      exact ⟨its, notStop, target⟩
    · rintro ⟨its, notStop, target⟩
      exact ⟨⟨⟨its, notStop⟩, by rw [target]; exact free⟩, target⟩
  exact ⟨(same item).mp member, fun other its => highest other ((same other).mpr its)⟩

/-- A batch that runs without interleaved requests and is answered. -/
theorem served_submitIntentBatch {ticket : Nat} {bodies : List (Except BatchResult ActionIntent)}
    {timedOut : Ref → Nat → Nat → Bool} {s s' : Site} {results : List BatchResult}
    (run : Completes (submitIntentBatch ticket bodies timedOut : Handler cfg _) s results s') :
    BatchServed cfg bodies s results s' := by
  obtain ⟨⟨_, trusted⟩, s₀, read, rest⟩ := completes_bind run
  obtain ⟨sorted, s₁, created, rest⟩ := completes_bind rest
  obtain ⟨stopResults, s₂, run₁, rest⟩ := completes_bind rest
  obtain ⟨preempted, s₃, run₂, rest⟩ := completes_bind rest
  obtain ⟨losers, s₄, run₃, rest⟩ := completes_bind rest
  obtain ⟨winners, s₅, run₄, rest⟩ := completes_bind rest
  obtain ⟨rfl, after⟩ := completes_pure rest
  obtain ⟨calm, since⟩ := calm_of_aside aside_readSnapshot read
  obtain ⟨same, created⟩ := completes_sort created
  rw [calm.policy, since.allocated] at same
  rw [since.allocated] at created
  have ordered := batchItems_ordered s.allocated bodies
  have ids := (ids_perm sorted).trans (.of_eq ((congrArg (List.map Sorted.id) same).trans (ids_sortedItems _ _ _ _)))
  have stopsAre : sorted.filterMap Sorted.stopItem = _ := (congrArg _ same).trans (stops_sortedItems _ _ _ _)
  have inStops : ∀ item, item ∈ sorted.filterMap Sorted.stopItem ↔
      item ∈ batchItems s.allocated bodies ∧ s.runtime.policy.actionClass item.2 = .stop := by
    intro item
    rw [stopsAre, List.mem_filter, ActionClass.riskReducing, decide_eq_true_eq]
  have othersAre : sorted.filterMap Sorted.otherItem = [] ∨ sorted.filterMap Sorted.otherItem =
      (batchItems s.allocated bodies).filter fun item => !(s.runtime.policy.actionClass item.2).riskReducing := by
    cases trusted with
    | false => exact Or.inl ((congrArg _ same).trans (others_untrusted _ _ _))
    | true => exact Or.inr ((congrArg _ same).trans (others_sortedItems _ _ _))
  generalize sorted.filterMap Sorted.stopItem = stops at *
  generalize sorted.filterMap Sorted.otherItem = others at *
  have inOthers : ∀ item, item ∈ others → item ∈ batchItems s.allocated bodies ∧ s.runtime.policy.actionClass item.2 ≠ .stop := by
    intro item member
    rcases othersAre with none | all
    · rw [none] at member
      cases member
    · rw [all, List.mem_filter, ActionClass.riskReducing, ← decide_not, decide_eq_true_eq] at member
      exact member
  have orderedOthers : others.Pairwise fun a b => a.1 < b.1 := by
    rcases othersAre with none | all
    · rw [none]
      exact .nil
    · rw [all]
      exact ordered.filter _
  have within : ∀ item, item ∈ stops ∨ item ∈ others → item ∈ batchItems s.allocated bodies := fun item member =>
    member.elim (fun its => ((inStops item).mp its).1) fun its => (inOthers item its).1
  obtain ⟨handled, answers⟩ := completes_items (fun item member its => (inOthers item member).2 ((inStops item).mp its).2)
    (nodup_of_ordered orderedOthers) (fun item member => ((inStops item).mp member).2) (fun item member => (inOthers item member).2)
    (fun item member => created.knows item (within item member)) (created.policy.trans calm.policy) run₁ run₂ run₃ run₄
  have records : s₁.runtime.records = s.runtime.records := created.records.trans calm.records
  have verdict : ∀ item ∈ batchItems s.allocated bodies, ∀ record, s'.runtime.records.get item.2.id = some record →
      s.runtime.records.get item.2.id ≠ some record → record.intent = item.1 →
        verdictOf stops (winnersOf stops others) item record.state := by
    intro item member record now new intent
    rw [after.runtime] at now
    exact handled.item_of_written ordered within member now (by rw [records]; exact new) intent
  have won : ∀ item ∈ batchItems s.allocated bodies, s.runtime.policy.actionClass item.2 ≠ .stop → item.Authorized s s' →
      item ∈ winnersOf stops others := by
    rintro item member notStop ⟨record, now, new, intent, state⟩
    exact ((verdict item member record now new intent).2 state).resolve_left fun its => notStop ((inStops item).mp its).2
  have best : ∀ item ∈ batchItems s.allocated bodies, s.runtime.policy.actionClass item.2 ≠ .stop → item.Authorized s s' →
      item.Wins (contenders s.runtime.policy (batchItems s.allocated bodies) item) := by
    intro item member notStop granted
    have winner := won item member notStop granted
    rcases othersAre with none | all
    · have its := (remaining_perm stops (nodup_of_ordered orderedOthers)).subset (List.mem_append_right _ winner)
      rw [none] at its
      cases its
    · refine wins_contenders orderedOthers (fun other => ⟨inOthers other, fun ⟨its, notStop⟩ => ?_⟩) winner
      rw [all, List.mem_filter, ActionClass.riskReducing, ← decide_not, decide_eq_true_eq]
      exact ⟨its, notStop⟩
  refine ⟨?_, fun item member stop unknown once => ?_, fun item member stop record now new intent => ?_,
    fun item member notStop preempted granted => ?_, fun item member other member' notStop notStop' target granted granted' => ?_,
    best, fun target => ?_⟩
  · refine List.Perm.trans ?_ ids
    rw [List.append_assoc, List.append_assoc, List.append_assoc, List.map_append, ← List.append_assoc, ← List.append_assoc]
    exact answers.append_left _
  · have forgotten : ¬s₁.runtime.Remembers item.2.id := by
      rw [Runtime.Remembers, records, created.seen, calm.seen]
      exact unknown
    have mono := after.mono
    have mono' := Rat.le_trans since.mono created.mono
    obtain ⟨record, stored, state⟩ := handled.granted item ((inStops item).mpr ⟨member, stop⟩) forgotten (once.imp
      (fun recent => by linarith) fun alone other its => alone other (inOthers other its).1 (inOthers other its).2)
    rw [Site.state, after.runtime, stored, Option.map_some, state]
  · exact (verdict item member record now new intent).1 ((inStops item).mpr ⟨member, stop⟩)
  · obtain ⟨stop, its, cls, target⟩ := preempted
    obtain ⟨_, remains, _⟩ := wins_conflictGroups (orderedOthers.filter _) (won item member notStop granted)
    refine of_decide_eq_true (List.mem_filter.mp (List.mem_filter.mp remains).1).2 ?_
    rw [← target]
    exact List.mem_map_of_mem ((inStops stop).mpr ⟨its, cls⟩)
  · have wins := best other member' notStop' granted'
    rw [contenders, ← target, ← contenders] at wins
    exact Item.Wins.unique (ordered.filter _) (best item member notStop granted) wins
  · obtain ⟨_, _, all⟩ := handled.all
    rw [after.runtime, all.locks, created.locks, calm.locks]

end

/-! ### A stop among others -/

def mixedConfig : SiteConfig := ⟨plainConfig, .document, 3600, false, 1, fun _ => 0, true⟩

def haltPolicy : Policy := { Policy.empty with classes := Dict.empty.insert "HALT".toList .stop }

def mixedStart : Site := .init (fun _ => plainIntent "" "") .nil haltPolicy (.boot none 0)

def haltIntent : ActionIntent := { plainIntent "b" "cell" with payload := ⟨"HALT".toList, "cell".toList, .nil, .none⟩ }

/-- Two intents on two targets, a stop on one of them, and an item that is no intent. -/
def mixedBatch : List (Except BatchResult ActionIntent) :=
  [.ok (plainIntent "a" "cell"), .error ⟨"c".toList, [], some .revoke, "schema_invalid".toList⟩, .ok haltIntent,
    .ok (plainIntent "d" "arm")]

abbrev mixedHandler : @Handler PyText.ascii mixedConfig (List BatchResult) :=
  @submitIntentBatch PyText.ascii mixedConfig 0 mixedBatch fun _ _ _ => false

abbrev mixedRun := (mixedHandler.program ()).serve mixedStart

def mixedResults : List BatchResult :=
  [⟨"c".toList, [], some .revoke, "schema_invalid".toList⟩, ⟨"b".toList, "xr".toList, some .execute, "risk_reducing_action".toList⟩,
    ⟨"a".toList, "xr".toList, some .revoke, "preempted_by_stop".toList⟩, ⟨"d".toList, "xr".toList, some .execute, "valid".toList⟩]

theorem served_mixedBatch : @BatchServed PyText.ascii mixedConfig mixedBatch mixedStart mixedResults mixedRun.2 := by
  have answer : mixedRun.1.1 = .ok mixedResults := by decide +kernel
  have run := Executes.of_serve Site.Elsewhere.refl (mixedHandler.program ()) mixedStart
  rw [show mixedRun.1 = (.ok mixedResults, ()) from Prod.ext answer rfl] at run
  exact @served_submitIntentBatch PyText.ascii mixedConfig 0 mixedBatch (fun _ _ _ => false) mixedStart mixedRun.2 mixedResults run

end Xair
