import Xair.Data.Text
import Xair.Library.Dict
import Xair.Library.StepFunction
import Mathlib.Algebra.Group.Int.Defs
import Mathlib.Algebra.Group.Prod
import Mathlib.Algebra.Field.Rat
import Mathlib.Algebra.Order.Field.Basic
import Mathlib.Algebra.Order.Ring.Rat
import Mathlib.Data.Prod.Lex
import Mathlib.Order.WithBot

/-!
# The timeline of a production log

`mes_trace.py`: work steps become a state of each machine as a function of the time since
the first event. Times are exact, in any ordered field.
-/

namespace Xair

open Library

/-- A row of the log: the machine's key, the two timestamps and the report type. -/
structure WorkStep (K : Type) where
  machine : Str
  start : K
  complete : K
  reportType : Str

inductive MachineState where
  | idle | setup | busy
  deriving DecidableEq

def MachineState.text : MachineState → Str
  | idle => "IDLE".toList
  | setup => "SETUP".toList
  | busy => "BUSY".toList

/-- `(t, d_active, d_setup)`. -/
structure Point (K : Type) where
  time : K
  active : Int
  setup : Int

/-- `changes[m]`: the times and the states from then on. -/
structure Changes (K : Type) where
  times : List K
  states : List MachineState

structure Timeline (K : Type) where
  t0 : K
  span : K
  machines : List Str
  changes : Dict Str (Changes K)

structure Event (K : Type) where
  time : K
  machine : Str
  state : MachineState

section

variable {K : Type} [Field K] [LinearOrder K]

/-! ### Construction -/

/-- `int(kind == "S")`. -/
def WorkStep.setup (step : WorkStep K) : Int := if step.reportType = "S".toList then 1 else 0

def WorkStep.points (t0 : K) (step : WorkStep K) : List (Point K) :=
  [⟨step.start - t0, 1, step.setup⟩, ⟨step.complete - t0, -1, -step.setup⟩]

/-- `points`: those of each machine. -/
def pointsOf (t0 : K) (steps : List (WorkStep K)) : Dict Str (List (Point K)) :=
  steps.foldl (fun points step => points.insert step.machine ((points.get step.machine).getD [] ++ step.points t0)) Dict.empty

def stateOf (active setup : Int) : MachineState :=
  if active ≤ 0 then .idle else if 0 < setup then .setup else .busy

/-- Tuples are compared from the left. -/
def Point.key (p : Point K) : K ×ₗ Int ×ₗ Int := toLex (p.time, toLex (p.active, p.setup))

/-- The loop over the sorted points of a machine. -/
def sweepPoints (active setup : Int) (out : Changes K) (last : MachineState) : List (Point K) → Changes K
  | [] => out
  | p :: rest =>
    -- every step boundary at this time is applied first
    if rest.head?.any (fun q => decide (q.time = p.time)) then sweepPoints (active + p.active) (setup + p.setup) out last rest
    else
      let s := stateOf (active + p.active) (setup + p.setup)
      if s ≠ last then sweepPoints (active + p.active) (setup + p.setup) ⟨out.times ++ [p.time], out.states ++ [s]⟩ s rest
      else sweepPoints (active + p.active) (setup + p.setup) out last rest

def changesOf (pts : List (Point K)) : Changes K :=
  sweepPoints 0 0 ⟨[0], [.idle]⟩ .idle (pts.mergeSort fun p q => decide (p.key ≤ q.key))

/-- `Timeline()`; without rows there is no earliest one. -/
def Timeline.build (steps : List (WorkStep K)) : Option (Timeline K) := do
  let t0 ← (steps.map WorkStep.start).min?
  let last ← (steps.map WorkStep.complete).max?
  let points := pointsOf t0 steps
  return ⟨t0, last - t0, sortedSet points.keys, Dict.empty.insertAll (points.items.map fun (m, pts) => (m, changesOf pts))⟩

/-! ### Queries -/

/-- The place after all elements up to `t`, in an ordered list. -/
def bisectRight (times : List K) (t : K) : Nat := times.findIdx fun u => decide (t < u)

/-- The place before all elements from `t` on, in an ordered list. -/
def bisectLeft (times : List K) (t : K) : Nat := times.findIdx fun u => decide (t ≤ u)

namespace Timeline

/-- `none` is a machine without steps; index -1 is the last state. -/
def state (tl : Timeline K) (m : Str) (t : K) : Option MachineState := do
  let c ← tl.changes.get m
  match bisectRight c.times t with
  | 0 => c.states.getLast?
  | i + 1 => c.states[i]?

def nextChange (tl : Timeline K) (m : Str) (t : K) : Option (WithTop K) := do
  let c ← tl.changes.get m
  return match c.times[bisectRight c.times t]? with
    | some u => (u : WithTop K)
    | none => ⊤

/-- The changes of one machine from `a` until before `b`. -/
def eventsOf (a b : K) (m : Str) (c : Changes K) : List (Event K) :=
  (((c.times.zip c.states).take (bisectLeft c.times b)).drop (max (bisectLeft c.times a) 1)).map fun (t, s) => ⟨t, m, s⟩

end Timeline

def Event.key (e : Event K) : K ×ₗ Str ×ₗ Str := toLex (e.time, toLex (e.machine, e.state.text))

def Timeline.events (tl : Timeline K) (a b : K) : List (Event K) :=
  (tl.changes.items.flatMap fun (m, c) => Timeline.eventsOf a b m c).mergeSort fun e e' => decide (e.key ≤ e'.key)

/-! ### What a timeline is for -/

/-- The step is active at an instant after `t0`. -/
def WorkStep.ActiveAt (t0 : K) (m : Str) (t : K) (step : WorkStep K) : Prop :=
  step.machine = m ∧ step.start - t0 ≤ t ∧ t < step.complete - t0

instance (t0 : K) (m : Str) (t : K) (step : WorkStep K) : Decidable (step.ActiveAt t0 m t) :=
  inferInstanceAs (Decidable (_ ∧ _ ∧ _))

/-- Idle if no step of the machine is active, in setup if a setup step is, and busy otherwise. -/
def machineState (steps : List (WorkStep K)) (t0 : K) (m : Str) (t : K) : MachineState :=
  if ∀ step ∈ steps, ¬step.ActiveAt t0 m t then .idle
  else if ∃ step ∈ steps, step.ActiveAt t0 m t ∧ step.reportType = "S".toList then .setup
  else .busy

end

/-! ### The sweep -/

section

variable {K : Type} [LinearOrder K]

/-- A point as a time and what it adds. -/
def Point.load (p : Point K) : K × (Int × Int) := (p.time, (p.active, p.setup))

def stateOfLoad (load : Int × Int) : MachineState := stateOf load.1 load.2

theorem sweepPoints_eq (active setup : Int) (out : Changes K) (last : MachineState) (pts : List (Point K)) :
    sweepPoints active setup out last pts =
      ⟨out.times ++ (sweep stateOfLoad (active, setup) last (pts.map Point.load)).map Prod.fst,
        out.states ++ (sweep stateOfLoad (active, setup) last (pts.map Point.load)).map Prod.snd⟩ := by
  induction pts generalizing active setup out last with
  | nil => simp [sweepPoints, sweep]
  | cons p rest ih =>
    have ahead : (rest.map Point.load).head?.any (fun q => decide (q.1 = p.time)) = rest.head?.any fun q => decide (q.time = p.time) := by
      cases rest <;> rfl
    have sum : stateOfLoad ((active, setup) + (p.active, p.setup)) = stateOf (active + p.active) (setup + p.setup) := rfl
    rw [sweepPoints, List.map_cons, Point.load, sweep, ahead, sum]
    split
    · exact ih _ _ _ _
    · by_cases same : stateOf (active + p.active) (setup + p.setup) = last
      · rw [if_neg (not_not.mpr same), if_pos same]
        exact ih _ _ _ _
      · rw [if_pos same, if_neg same, ih, List.map_cons, List.map_cons, List.append_assoc, List.append_assoc]
        rfl

omit [LinearOrder K] in
/-- `sorted` with a key. -/
theorem pairwise_sort_key {α L : Type} [LinearOrder L] (key : α → L) (xs : List α) :
    (xs.mergeSort fun x y => decide (key x ≤ key y)).Pairwise fun x y => key x ≤ key y := by
  have trans : ∀ x y z, decide (key x ≤ key y) = true → decide (key y ≤ key z) = true → decide (key x ≤ key z) = true :=
    fun _ _ _ le le' => decide_eq_true ((of_decide_eq_true le).trans (of_decide_eq_true le'))
  have total : ∀ x y, (decide (key x ≤ key y) || decide (key y ≤ key x)) = true := fun x y => by
    rw [Bool.or_eq_true, decide_eq_true_eq, decide_eq_true_eq]
    exact le_total _ _
  exact (List.pairwise_mergeSort trans total xs).imp of_decide_eq_true

/-- The points of a machine in order. -/
def sortedPoints (pts : List (Point K)) : List (Point K) := pts.mergeSort fun p q => decide (p.key ≤ q.key)

theorem sortedPoints_perm (pts : List (Point K)) : (sortedPoints pts).Perm pts := List.mergeSort_perm pts _

theorem ordered_sortedPoints (pts : List (Point K)) : ((sortedPoints pts).map Point.load).Pairwise fun p q => p.1 ≤ q.1 := by
  refine List.pairwise_map.mpr ((pairwise_sort_key Point.key pts).imp fun {p q} le => ?_)
  rcases Prod.Lex.le_iff.mp le with lt | ⟨same, _⟩
  · exact le_of_lt lt
  · exact le_of_eq same

/-- The changes of a machine after the first entry. -/
def breakpoints (pts : List (Point K)) : List (K × MachineState) := sweep stateOfLoad (0, 0) .idle ((sortedPoints pts).map Point.load)

theorem tight_breakpoints (pts : List (Point K)) : Tight .idle (breakpoints pts) := tight_sweep (ordered_sortedPoints pts)

theorem valueAt_breakpoints (pts : List (Point K)) (t : K) :
    valueAt .idle (breakpoints pts) t = stateOfLoad (sumUpTo (pts.map Point.load) t) := by
  have empty : stateOfLoad ((0, 0) : Int × Int) = .idle := rfl
  have value := valueAt_sweep_zero stateOfLoad (0, 0) (ordered_sortedPoints pts) t
  rw [empty, show ((0, 0) : Int × Int) = 0 from rfl, zero_add, sumUpTo_perm ((sortedPoints_perm pts).map _)] at value
  exact value

theorem Timeline.ordered_events (tl : Timeline K) (a b : K) : (tl.events a b).Pairwise fun e e' => e.time ≤ e'.time := by
  refine (pairwise_sort_key Event.key _).imp fun {e e'} le => ?_
  rcases Prod.Lex.le_iff.mp le with lt | ⟨same, _⟩
  · exact le_of_lt lt
  · exact le_of_eq same

end

section

variable {K : Type} [Field K]

/-! ### The points of the steps -/

/-- The points of a machine. -/
def machinePoints (t0 : K) (m : Str) (steps : List (WorkStep K)) : List (Point K) :=
  (steps.filter fun step => decide (step.machine = m)).flatMap (WorkStep.points t0)

theorem get_pointsOf (t0 : K) (steps : List (WorkStep K)) (m : Str) :
    (pointsOf t0 steps).get m = if ∃ step ∈ steps, step.machine = m then some (machinePoints t0 m steps) else none := by
  induction steps using List.reverseRecOn with
  | nil => simp [pointsOf, Dict.get, Dict.empty, lookup]
  | append_singleton steps step ih =>
    have last : pointsOf t0 (steps ++ [step]) = (pointsOf t0 steps).insert step.machine
        (((pointsOf t0 steps).get step.machine).getD [] ++ step.points t0) := List.foldl_append
    rw [last]
    by_cases own : step.machine = m
    · subst own
      rw [Dict.get_insert_self, if_pos ⟨step, by simp, rfl⟩, ih, machinePoints, machinePoints, List.filter_append, List.flatMap_append]
      by_cases before : ∃ s ∈ steps, s.machine = step.machine
      · rw [if_pos before]
        simp
      · rw [if_neg before, List.filter_eq_nil_iff.mpr fun s member => by simpa using fun same => before ⟨s, member, same⟩]
        simp
    · rw [Dict.get_insert_ne _ _ (Ne.symm own), ih, machinePoints, machinePoints, List.filter_append]
      simp [own]

variable [LinearOrder K]

theorem changesOf_eq (pts : List (Point K)) :
    changesOf pts = ⟨0 :: (breakpoints pts).map Prod.fst, .idle :: (breakpoints pts).map Prod.snd⟩ :=
  sweepPoints_eq 0 0 ⟨[0], [.idle]⟩ .idle (sortedPoints pts)

theorem Timeline.build_eq_none {steps : List (WorkStep K)} : Timeline.build steps = none ↔ steps = [] := by
  cases steps with
  | nil => simp [Timeline.build]
  | cons step steps => simp [Timeline.build]

/-- What a timeline has of a machine. -/
theorem Timeline.changes_build {steps : List (WorkStep K)} {tl : Timeline K} (built : Timeline.build steps = some tl) :
    IsLeast {a | ∃ step ∈ steps, step.start = a} tl.t0 ∧
      ∀ m, tl.changes.get m = if ∃ step ∈ steps, step.machine = m then some (changesOf (machinePoints tl.t0 m steps)) else none := by
  obtain ⟨t0, first, built⟩ := Option.bind_eq_some_iff.mp built
  obtain ⟨last, _, built⟩ := Option.bind_eq_some_iff.mp built
  obtain rfl := Option.some.inj built
  refine ⟨?_, fun m => ?_⟩
  · obtain ⟨member, least⟩ := List.min?_eq_some_iff.mp first
    exact ⟨List.mem_map.mp member, fun a ⟨step, its, same⟩ => same ▸ least _ (List.mem_map_of_mem its)⟩
  · exact (Dict.get_insertAll_mapped (pointsOf t0 steps) changesOf m).trans (by rw [get_pointsOf, apply_ite (Option.map changesOf)]; rfl)

theorem nodup_eventsOf {t0 : K} {m : Str} {steps : List (WorkStep K)} (a b : K) :
    (Timeline.eventsOf a b m (changesOf (machinePoints t0 m steps))).Nodup := by
  have tight := tight_breakpoints (machinePoints t0 m steps)
  rw [Timeline.eventsOf, changesOf_eq, List.zip_cons_cons, List.zip_map', List.map_id']
  have injective : Function.Injective fun p : K × MachineState => (⟨p.1, m, p.2⟩ : Event K) := fun p q same =>
    Prod.ext (congrArg Event.time same) (congrArg Event.state same)
  refine List.Nodup.map injective ?_
  have distinct : (breakpoints (machinePoints t0 m steps)).Nodup := List.Nodup.of_map Prod.fst (tight.pairwise.imp ne_of_lt)
  exact distinct.sublist ((List.drop_sublist_drop_left _ (le_max_right _ 1)).trans ((List.take_sublist _ _).drop 1))

theorem Timeline.get_changes {steps : List (WorkStep K)} {tl : Timeline K} (built : Timeline.build steps = some tl) {m : Str}
    (has : ∃ step ∈ steps, step.machine = m) :
    tl.changes.get m = some ⟨0 :: (breakpoints (machinePoints tl.t0 m steps)).map Prod.fst,
      .idle :: (breakpoints (machinePoints tl.t0 m steps)).map Prod.snd⟩ := by
  rw [(Timeline.changes_build built).2, if_pos has, changesOf_eq]

theorem Timeline.state_breakpoints {steps : List (WorkStep K)} {tl : Timeline K} (built : Timeline.build steps = some tl) {m : Str}
    (has : ∃ step ∈ steps, step.machine = m) {t : K} (after : 0 ≤ t) :
    tl.state m t = some (valueAt .idle (breakpoints (machinePoints tl.t0 m steps)) t) := by
  rw [Timeline.state, Timeline.get_changes built has, Option.bind_eq_bind, Option.bind_some, bisectRight, List.findIdx_cons,
    decide_eq_false (not_lt.mpr after)]
  exact getElem_valueAt _ _ _

theorem Timeline.nextChange_breakpoints {steps : List (WorkStep K)} {tl : Timeline K} (built : Timeline.build steps = some tl) {m : Str}
    (has : ∃ step ∈ steps, step.machine = m) {t : K} (after : 0 ≤ t) :
    tl.nextChange m t = some (nextAfter ((breakpoints (machinePoints tl.t0 m steps)).map Prod.fst) t) := by
  rw [Timeline.nextChange, Timeline.get_changes built has, Option.bind_eq_bind, Option.bind_some, bisectRight, List.findIdx_cons,
    decide_eq_false (not_lt.mpr after)]
  rfl

theorem Timeline.nodup_events {steps : List (WorkStep K)} {tl : Timeline K} (built : Timeline.build steps = some tl) (a b : K) :
    (tl.events a b).Nodup := by
  rw [Timeline.events, (List.mergeSort_perm _ _).nodup_iff, List.nodup_flatMap]
  refine ⟨fun ⟨m, c⟩ member => ?_, ?_⟩
  · have stored := Dict.mem_items.mp member
    rw [(Timeline.changes_build built).2] at stored
    split at stored
    · obtain rfl := Option.some.inj stored
      exact nodup_eventsOf a b
    · cases stored
  · have distinct : tl.changes.items.Pairwise fun x y => x.1 ≠ y.1 := List.pairwise_map.mp tl.changes.distinct
    refine distinct.imp fun {x y} different e one other => ?_
    obtain ⟨_, _, rfl⟩ := List.mem_map.mp one
    obtain ⟨_, _, same⟩ := List.mem_map.mp other
    exact different (congrArg Event.machine same).symm

/-- What the active steps add up to. -/
def loadAt (t0 : K) (m : Str) (t : K) (steps : List (WorkStep K)) : Int × Int :=
  (steps.map fun step => if step.ActiveAt t0 m t then (1, step.setup) else 0).sum

theorem loadAt_active (t0 : K) (m : Str) (t : K) (steps : List (WorkStep K)) :
    0 ≤ (loadAt t0 m t steps).1 ∧ ((loadAt t0 m t steps).1 ≤ 0 ↔ ∀ step ∈ steps, ¬step.ActiveAt t0 m t) := by
  induction steps with
  | nil => simp [loadAt]
  | cons step steps ih =>
    obtain ⟨nonneg, none⟩ := ih
    rw [loadAt, List.map_cons, List.sum_cons, ← loadAt, Prod.fst_add, List.forall_mem_cons]
    by_cases active : step.ActiveAt t0 m t
    · rw [if_pos active]
      exact ⟨by omega, fun le => by omega, fun idle => absurd active idle.1⟩
    · rw [if_neg active, Prod.fst_zero, zero_add]
      exact ⟨nonneg, fun le => ⟨active, none.mp le⟩, fun idle => none.mpr idle.2⟩

theorem loadAt_setup (t0 : K) (m : Str) (t : K) (steps : List (WorkStep K)) :
    0 ≤ (loadAt t0 m t steps).2 ∧
      (0 < (loadAt t0 m t steps).2 ↔ ∃ step ∈ steps, step.ActiveAt t0 m t ∧ step.reportType = "S".toList) := by
  induction steps with
  | nil => simp [loadAt]
  | cons step steps ih =>
    obtain ⟨nonneg, setups⟩ := ih
    rw [loadAt, List.map_cons, List.sum_cons, ← loadAt, Prod.snd_add, List.exists_mem_cons_iff]
    by_cases active : step.ActiveAt t0 m t
    · rw [if_pos active, WorkStep.setup]
      by_cases setup : step.reportType = "S".toList
      · rw [if_pos setup]
        exact ⟨by omega, fun _ => Or.inl ⟨active, setup⟩, fun _ => by omega⟩
      · rw [if_neg setup]
        simp only [zero_add]
        exact ⟨nonneg, fun lt => Or.inr (setups.mp lt), fun h => setups.mpr (h.resolve_left fun own => setup own.2)⟩
    · rw [if_neg active, Prod.snd_zero, zero_add]
      exact ⟨nonneg, fun lt => Or.inr (setups.mp lt), fun h => setups.mpr (h.resolve_left fun own => active own.1)⟩

theorem stateOfLoad_loadAt (t0 : K) (m : Str) (t : K) (steps : List (WorkStep K)) :
    stateOfLoad (loadAt t0 m t steps) = machineState steps t0 m t := by
  rw [stateOfLoad, stateOf, machineState]
  simp only [(loadAt_active t0 m t steps).2, (loadAt_setup t0 m t steps).2]

/-- A machine that turns has a step. -/
theorem machine_of_turns {t0 : K} {m : Str} {t : K} {steps : List (WorkStep K)} (turns : Turns (machineState steps t0 m) t) :
    ∃ step ∈ steps, step.machine = m := by
  by_contra none
  obtain ⟨since, before, other⟩ := turns
  have idle : ∀ u, machineState steps t0 m u = .idle := fun u => if_pos fun step member active => none ⟨step, member, active.1⟩
  exact other since (le_refl _) before ((idle since).trans (idle t).symm)

variable [IsStrictOrderedRing K]

/-- The points up to an instant add up to the steps active at it. -/
theorem sumUpTo_points {t0 : K} {m : Str} {t : K} {steps : List (WorkStep K)} (forward : ∀ step ∈ steps, step.start ≤ step.complete) :
    sumUpTo ((machinePoints t0 m steps).map Point.load) t = loadAt t0 m t steps := by
  induction steps with
  | nil => rfl
  | cons step steps ih =>
    have rest := ih fun s member => forward s (List.mem_cons_of_mem _ member)
    have one := forward step List.mem_cons_self
    rw [machinePoints] at rest
    rw [loadAt, List.map_cons, List.sum_cons, machinePoints, List.filter_cons]
    by_cases own : step.machine = m
    · rw [if_pos (decide_eq_true own), List.flatMap_cons, List.map_append, sumUpTo_append, rest, loadAt]
      congr 1
      have points : (step.points t0).map Point.load = [(step.start - t0, (1, step.setup)), (step.complete - t0, (-1, -step.setup))] := rfl
      rw [points, sumUpTo_cons, sumUpTo_cons]
      by_cases begun : step.start - t0 ≤ t
      · by_cases done : step.complete - t0 ≤ t
        · rw [if_pos begun, if_pos done, if_neg fun active => absurd active.2.2 (not_lt.mpr done)]
          simp [sumUpTo]
        · rw [if_pos begun, if_neg done, if_pos ⟨own, begun, lt_of_not_ge done⟩]
          simp [sumUpTo]
      · have later : ¬step.complete - t0 ≤ t := fun due => begun ((sub_le_sub_right one t0).trans due)
        rw [if_neg begun, if_neg later, if_neg fun active => begun active.2.1]
        simp [sumUpTo]
    · rw [if_neg (by simpa using own), rest, if_neg fun active => own active.1, zero_add, loadAt]

/-! ### A machine -/

theorem valueAt_machine {t0 : K} {m : Str} {steps : List (WorkStep K)} (forward : ∀ step ∈ steps, step.start ≤ step.complete) :
    valueAt .idle (breakpoints (machinePoints t0 m steps)) = machineState steps t0 m := by
  funext t
  rw [valueAt_breakpoints, sumUpTo_points forward, stateOfLoad_loadAt]

/-- Before the first start there are only ends. -/
theorem sumUpTo_before_start {t0 : K} {m : Str} {steps : List (WorkStep K)} (first : ∀ step ∈ steps, t0 ≤ step.start) {t : K}
    (early : t < 0) : (sumUpTo ((machinePoints t0 m steps).map Point.load) t).1 ≤ 0 := by
  induction steps with
  | nil => exact le_refl _
  | cons step steps ih =>
    have rest := ih fun s member => first s (List.mem_cons_of_mem _ member)
    rw [machinePoints] at rest ⊢
    rw [List.filter_cons]
    split
    · have points : (step.points t0).map Point.load = [(step.start - t0, (1, step.setup)), (step.complete - t0, (-1, -step.setup))] := rfl
      have unbegun : ¬step.start - t0 ≤ t := not_le.mpr (early.trans_le (sub_nonneg.mpr (first step List.mem_cons_self)))
      rw [List.flatMap_cons, List.map_append, sumUpTo_append, points, sumUpTo_cons, sumUpTo_cons, if_neg unbegun]
      simp only [Prod.fst_add, Prod.fst_zero, sumUpTo, List.filter_nil, List.map_nil, List.sum_nil] at rest ⊢
      split
      · simp only
        omega
      · simpa using rest
    · exact rest

/-- The first change is a start. -/
theorem nonneg_breakpoints {t0 : K} {m : Str} {steps : List (WorkStep K)} (first : ∀ step ∈ steps, t0 ≤ step.start)
    {p : K × MachineState} (member : p ∈ breakpoints (machinePoints t0 m steps)) : 0 ≤ p.1 := by
  have tight := tight_breakpoints (machinePoints t0 m steps)
  have idle : ∀ q ∈ breakpoints (machinePoints t0 m steps), q.1 < 0 → q.2 = .idle := by
    intro q member early
    rw [← tight.valueAt_mem member, valueAt_breakpoints]
    exact if_pos (sumUpTo_before_start first early)
  cases entries : breakpoints (machinePoints t0 m steps) with
  | nil =>
    rw [entries] at member
    cases member
  | cons q rest =>
    rw [entries] at member tight idle
    have start : 0 ≤ q.1 := le_of_not_gt fun early => tight.1 (idle q List.mem_cons_self early)
    rcases List.mem_cons.mp member with rfl | later
    · exact start
    · exact start.trans (le_of_lt (tight.2.1 p later))

/-! ### Queries of a machine -/

section

variable {steps : List (WorkStep K)} {tl : Timeline K} (forward : ∀ step ∈ steps, step.start ≤ step.complete)
  (built : Timeline.build steps = some tl) {m : Str}

include forward built in
theorem Timeline.state_build (has : ∃ step ∈ steps, step.machine = m) {t : K} (after : 0 ≤ t) :
    tl.state m t = some (machineState steps tl.t0 m t) := by
  rw [Timeline.state_breakpoints built has after, valueAt_machine forward]

include forward in
omit built in
theorem mem_breakpoints {t0 : K} {p : K × MachineState} : p ∈ breakpoints (machinePoints t0 m steps) ↔
    Turns (machineState steps t0 m) p.1 ∧ machineState steps t0 m p.1 = p.2 := by
  rw [← valueAt_machine forward]
  exact (tight_breakpoints _).mem_iff

include forward built in
theorem Timeline.nextChange_build (has : ∃ step ∈ steps, step.machine = m) {t : K} (after : 0 ≤ t) :
    ∃ next, tl.nextChange m t = some next ∧ NextTurn (machineState steps tl.t0 m) t next := by
  refine ⟨_, Timeline.nextChange_breakpoints built has after, nextTurn_of_mem (fun u => ?_) (tight_breakpoints (machinePoints tl.t0 m steps)).ordered t⟩
  rw [List.mem_map]
  constructor
  · exact fun turns => ⟨(u, machineState steps tl.t0 m u), (mem_breakpoints forward).mpr ⟨turns, rfl⟩, rfl⟩
  · rintro ⟨p, member, rfl⟩
    exact ((mem_breakpoints forward).mp member).1

include forward in
omit built in
theorem mem_eventsOf {t0 : K} (first : ∀ step ∈ steps, t0 ≤ step.start) (a b : K) {e : Event K} :
    e ∈ Timeline.eventsOf a b m (changesOf (machinePoints t0 m steps)) ↔
      e.machine = m ∧ a ≤ e.time ∧ e.time < b ∧ Turns (machineState steps t0 m) e.time ∧ machineState steps t0 m e.time = e.state := by
  have tight := tight_breakpoints (machinePoints t0 m steps)
  have ordered : (((0, MachineState.idle) :: breakpoints (machinePoints t0 m steps)).map Prod.fst).Pairwise (· ≤ ·) := by
    refine List.pairwise_cons.mpr ⟨fun u member => ?_, tight.ordered⟩
    obtain ⟨p, inside, rfl⟩ := List.mem_map.mp member
    exact nonneg_breakpoints first inside
  rw [Timeline.eventsOf, changesOf_eq, List.zip_cons_cons, List.zip_map', List.map_id', List.mem_map]
  constructor
  · rintro ⟨p, slice, rfl⟩
    obtain ⟨member, notBefore, early⟩ := (mem_slice_iff ordered a b 1).mp slice
    exact ⟨rfl, notBefore, early, (mem_breakpoints forward).mp member⟩
  · rintro ⟨rfl, notBefore, early, turns⟩
    exact ⟨(e.time, e.state), (mem_slice_iff ordered a b 1).mpr ⟨(mem_breakpoints forward).mpr turns, notBefore, early⟩, rfl⟩

include forward built in
theorem Timeline.mem_events (a b : K) {e : Event K} : e ∈ tl.events a b ↔
    a ≤ e.time ∧ e.time < b ∧ Turns (machineState steps tl.t0 e.machine) e.time ∧ machineState steps tl.t0 e.machine e.time = e.state := by
  obtain ⟨least, changes⟩ := Timeline.changes_build built
  have first : ∀ step ∈ steps, tl.t0 ≤ step.start := fun step member => least.2 ⟨step, member, rfl⟩
  rw [Timeline.events, List.mem_mergeSort, List.mem_flatMap]
  constructor
  · rintro ⟨⟨m, c⟩, member, its⟩
    have stored := Dict.mem_items.mp member
    rw [changes] at stored
    split at stored
    · obtain rfl := Option.some.inj stored
      obtain ⟨rfl, there⟩ := (mem_eventsOf forward first a b).mp its
      exact there
    · cases stored
  · rintro ⟨notBefore, early, turns, value⟩
    have has := machine_of_turns turns
    refine ⟨(e.machine, changesOf (machinePoints tl.t0 e.machine steps)), Dict.mem_items.mpr ?_,
      (mem_eventsOf forward first a b).mpr ⟨rfl, notBefore, early, turns, value⟩⟩
    rw [changes, if_pos has]

/-! ### The whole timeline -/

/-- Unless there are no steps, there is a timeline. It answers for each machine that has steps, from the first start on,
with the state that the steps active at the time give and the next time at which this state is new; its events are all
times from `a` until before `b` at which the state of a machine is new, each once and in order. -/
theorem timeline_correct (steps : List (WorkStep K)) (forward : ∀ step ∈ steps, step.start ≤ step.complete) :
    match Timeline.build steps with
    | none => steps = []
    | some tl => IsLeast {a | ∃ step ∈ steps, step.start = a} tl.t0 ∧
      (∀ m, (∃ step ∈ steps, step.machine = m) → ∀ t, 0 ≤ t → tl.state m t = some (machineState steps tl.t0 m t) ∧
        ∃ next, tl.nextChange m t = some next ∧ NextTurn (machineState steps tl.t0 m) t next) ∧
      ∀ a b, (tl.events a b).Nodup ∧ ((tl.events a b).Pairwise fun e e' => e.time ≤ e'.time) ∧
        ∀ e, e ∈ tl.events a b ↔ a ≤ e.time ∧ e.time < b ∧
          Turns (machineState steps tl.t0 e.machine) e.time ∧ machineState steps tl.t0 e.machine e.time = e.state := by
  split
  · rename_i built
    exact Timeline.build_eq_none.mp built
  · rename_i tl built
    refine ⟨(Timeline.changes_build built).1, fun m has t after => ⟨Timeline.state_build forward built has after, Timeline.nextChange_build forward built has after⟩, fun a b => ?_⟩
    exact ⟨Timeline.nodup_events built a b, Timeline.ordered_events tl a b, fun e => Timeline.mem_events forward built a b⟩

end

end

/-- Steps that touch, overlap and take no time. -/
def fewSteps : List (WorkStep ℚ) :=
  [⟨"m".toList, 60, 120, "S".toList⟩, ⟨"m".toList, 120, 180, "D".toList⟩, ⟨"m".toList, 300, 300, "B".toList⟩, ⟨"n".toList, 90, 150, "D".toList⟩]

theorem timeline_correct_fewSteps :
    match Timeline.build fewSteps with
    | none => fewSteps = []
    | some tl => IsLeast {a | ∃ step ∈ fewSteps, step.start = a} tl.t0 ∧
      (∀ m, (∃ step ∈ fewSteps, step.machine = m) → ∀ t, 0 ≤ t → tl.state m t = some (machineState fewSteps tl.t0 m t) ∧
        ∃ next, tl.nextChange m t = some next ∧ NextTurn (machineState fewSteps tl.t0 m) t next) ∧
      ∀ a b, (tl.events a b).Nodup ∧ ((tl.events a b).Pairwise fun e e' => e.time ≤ e'.time) ∧
        ∀ e, e ∈ tl.events a b ↔ a ≤ e.time ∧ e.time < b ∧
          Turns (machineState fewSteps tl.t0 e.machine) e.time ∧ machineState fewSteps tl.t0 e.machine e.time = e.state :=
  timeline_correct fewSteps (by decide +kernel)

end Xair
