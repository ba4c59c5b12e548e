import Xair.Experiments.Timeline
import Xair.Library.Measures

/-!
# Obsolete decisions, offline

`offline_exact` of `run_e20_mes.py`: sums over the idle intervals of a timeline, and what
they measure.
-/

namespace Xair

open Library

section

variable {K : Type} [Field K] [LinearOrder K]

/-- The body of the loop for the entry `k`, at `a` in state `s`; `b` is the time of the next entry, none for infinity. -/
def offlineStep (latency horizon : K) (interiorOnly : Bool) (k : Nat) (a : K) (s : MachineState) (b : Option K) (sums : K × K) : K × K :=
  if s ≠ .idle then sums
  else if interiorOnly = true ∧ (k = 0 ∨ b = none) then sums
  else
    let lo := max a 0
    let hi := match b with
      | some b => min b horizon
      | none => horizon
    if hi ≤ lo then sums
    else
      match b with
      | some b =>
        let olo := max lo (b - latency)
        (if olo < hi then sums.1 + (hi - olo) else sums.1, sums.2 + (hi - lo))
      | none => (sums.1, sums.2 + (hi - lo))

/-- The loop over the entries of a machine. -/
def offlineLoop (latency horizon : K) (interiorOnly : Bool) : Nat → List (K × MachineState) → K × K → K × K
  | _, [], sums => sums
  | k, (a, s) :: rest, sums =>
    offlineLoop latency horizon interiorOnly (k + 1) rest
      (offlineStep latency horizon interiorOnly k a s (rest.head?.map Prod.fst) sums)

/-- `offline_exact`: the obsolete and the idle measure. -/
def Timeline.offlineExact (tl : Timeline K) (latency : K) (interiorOnly : Bool) : Option (K × K) :=
  tl.machines.foldlM (fun sums m => do
    let c ← tl.changes.get m
    return offlineLoop latency (tl.span - latency) interiorOnly 0 (c.times.zip c.states) sums) (0, 0)

end

open MeasureTheory Set

/-! ### Idle and obsolete times -/

/-- The machine has been at work before, and will be again. -/
def Between (f : ℝ → MachineState) (t : ℝ) : Prop := (∃ u, 0 ≤ u ∧ u < t ∧ f u ≠ .idle) ∧ ∃ u, t < u ∧ f u ≠ .idle

/-- The idle times up to the horizon, or those of them that lie between work. -/
def idleSet (f : ℝ → MachineState) (horizon : ℝ) (interiorOnly : Bool) : Set ℝ :=
  {t | 0 ≤ t ∧ t ≤ horizon ∧ f t = .idle ∧ (interiorOnly = true → Between f t)}

/-- The idle times at which a decision is obsolete once the latency has passed. -/
def obsoleteSet (f : ℝ → MachineState) (next : ℝ → WithTop ℝ) (latency horizon : ℝ) (interiorOnly : Bool) : Set ℝ :=
  {t | t ∈ idleSet f horizon interiorOnly ∧ next t ≤ ((t + latency : ℝ) : WithTop ℝ)}

/-- From `a` on, where the machine is in state `s`, it follows the breakpoints. -/
structure Follows (f : ℝ → MachineState) (next : ℝ → WithTop ℝ) (k : Nat) (a : ℝ) (s : MachineState) (bs : List (ℝ × MachineState)) : Prop where
  tight : Tight s bs
  nonneg : 0 ≤ a
  reached : ∀ p ∈ bs, a ≤ p.1
  strict : s ≠ .idle → ∀ p ∈ bs, a < p.1
  value : ∀ t, a ≤ t → f t = valueAt s bs t
  next : ∀ t, a ≤ t → next t = nextAfter (bs.map Prod.fst) t
  first : k = 0 → a = 0
  worked : k ≠ 0 → s = .idle → ∃ u, 0 ≤ u ∧ u < a ∧ f u ≠ .idle

namespace Follows

variable {f : ℝ → MachineState} {next : ℝ → WithTop ℝ} {k : Nat} {a u : ℝ} {s s' : MachineState} {bs : List (ℝ × MachineState)}

theorem tail (h : Follows f next k a s ((u, s') :: bs)) : Follows f next (k + 1) u s' bs where
  tight := h.tight.2.2
  nonneg := h.nonneg.trans (h.reached _ List.mem_cons_self)
  reached p member := le_of_lt (h.tight.2.1 p member)
  strict _ := h.tight.2.1
  value t after := (h.value t ((h.reached _ List.mem_cons_self).trans after)).trans (if_pos after)
  next t after := by
    rw [h.next t ((h.reached _ List.mem_cons_self).trans after), nextAfter, nextAfter, List.map_cons, List.findIdx_cons,
      decide_eq_false (not_lt.mpr after)]
    rfl
  first none := nomatch none
  worked _ idle := by
    have working : s ≠ .idle := fun same => h.tight.1 (idle.trans same.symm)
    have before : a < u := h.strict working (u, s') List.mem_cons_self
    refine ⟨a, h.nonneg, before, ?_⟩
    rw [h.value a (le_refl a), valueAt, if_neg (not_le.mpr before)]
    exact working

/-- Until the next breakpoint. -/
def Here (a : ℝ) (bs : List (ℝ × MachineState)) (t : ℝ) : Prop := a ≤ t ∧ ∀ p ∈ bs.head?, t < p.1

variable {t : ℝ}

theorem before (h : Follows f next k a s bs) (here : Here a bs t) : ∀ p ∈ bs, t < p.1 := by
  cases bs with
  | nil => exact fun _ none => nomatch none
  | cons q rest =>
    have early : t < q.1 := here.2 q rfl
    intro p member
    rcases List.mem_cons.mp member with rfl | later
    · exact early
    · exact early.trans (h.tight.2.1 p later)

theorem state_here (h : Follows f next k a s bs) (here : Here a bs t) : f t = s :=
  (h.value t here.1).trans (valueAt_before (h.before here))

theorem next_here (h : Follows f next k a s bs) (here : Here a bs t) : next t = (bs.head?.map Prod.fst).elim ⊤ fun b => (b : WithTop ℝ) := by
  rw [h.next t here.1, nextAfter]
  cases bs with
  | nil => rfl
  | cons q rest =>
    rw [List.map_cons, List.findIdx_cons, decide_eq_true (here.2 q rfl)]
    rfl

theorem between_here (h : Follows f next k a s bs) (idle : s = .idle) (here : Here a bs t) : Between f t ↔ ¬(k = 0 ∨ bs.head?.map Prod.fst = none) := by
  rw [not_or]
  constructor
  · rintro ⟨⟨u, start, early, working⟩, v, late, again⟩
    refine ⟨fun first => working ?_, fun last => again ?_⟩
    · refine (h.state_here ⟨(h.first first).trans_le start, fun p head => early.trans (here.2 p head)⟩).trans idle
    · have nothing : bs = [] := List.head?_eq_none_iff.mp (Option.map_eq_none_iff.mp last)
      subst nothing
      exact (h.state_here ⟨here.1.trans (le_of_lt late), fun _ none => nomatch none⟩).trans idle
  · rintro ⟨notFirst, notLast⟩
    obtain ⟨u, start, early, working⟩ := h.worked notFirst idle
    refine ⟨⟨u, start, early.trans_le here.1, working⟩, ?_⟩
    cases bs with
    | nil => exact absurd rfl notLast
    | cons q rest =>
      refine ⟨q.1, here.2 q rfl, ?_⟩
      rw [h.value q.1 (h.reached q List.mem_cons_self), h.tight.valueAt_mem List.mem_cons_self, ← idle]
      exact h.tight.1

end Follows

/-! ### Measures -/

namespace Follows

variable {f : ℝ → MachineState} {next : ℝ → WithTop ℝ} {k : Nat} {a : ℝ} {s : MachineState} {bs : List (ℝ × MachineState)}
  {latency horizon : ℝ} {interiorOnly : Bool} {t : ℝ}

/-- The interval is idle and not left out. -/
def Counts (k : Nat) (s : MachineState) (bs : List (ℝ × MachineState)) (interiorOnly : Bool) : Prop :=
  s = .idle ∧ (interiorOnly = true → ¬(k = 0 ∨ bs.head?.map Prod.fst = none))

theorem mem_idleSet_here (h : Follows f next k a s bs) (here : Here a bs t) :
    t ∈ idleSet f horizon interiorOnly ↔ (0 ≤ t ∧ t ≤ horizon) ∧ Counts k s bs interiorOnly := by
  rw [idleSet, mem_ofPred_eq, h.state_here here, Counts, and_assoc, and_congr_right_iff, and_congr_right_iff]
  intro _ _
  rw [and_congr_right_iff]
  intro idle
  rw [h.between_here idle here]

/-- How long the interval is idle before the horizon, and for how much of this it is obsolete; `b` is its end. -/
theorem volume_here (latency horizon : ℝ) (h : Follows f next k a s bs) (counts : Counts k s bs interiorOnly) :
    match bs.head?.map Prod.fst with
    | some b => volume.real (idleSet f horizon interiorOnly ∩ {t | Here a bs t}) = max (min b horizon - max a 0) 0 ∧
        volume.real (obsoleteSet f next latency horizon interiorOnly ∩ {t | Here a bs t}) = max (min b horizon - max (max a 0) (b - latency)) 0
    | none => volume.real (idleSet f horizon interiorOnly ∩ {t | Here a bs t}) = max (horizon - max a 0) 0 ∧
        volume.real (obsoleteSet f next latency horizon interiorOnly ∩ {t | Here a bs t}) = 0 := by
  have idle : ∀ t, t ∈ idleSet f horizon interiorOnly ∩ {t | Here a bs t} ↔ (0 ≤ t ∧ t ≤ horizon) ∧ Here a bs t := fun t =>
    ⟨fun ⟨idle, here⟩ => ⟨((h.mem_idleSet_here here).mp idle).1, here⟩, fun ⟨inside, here⟩ => ⟨(h.mem_idleSet_here here).mpr ⟨inside, counts⟩, here⟩⟩
  have obsolete : ∀ t, t ∈ obsoleteSet f next latency horizon interiorOnly ∩ {t | Here a bs t} ↔
      ((0 ≤ t ∧ t ≤ horizon) ∧ Here a bs t) ∧ (bs.head?.map Prod.fst).elim ⊤ (fun b => (b : WithTop ℝ)) ≤ ((t + latency : ℝ) : WithTop ℝ) := by
    intro t
    rw [← idle]
    constructor
    · rintro ⟨⟨isIdle, soon⟩, here⟩
      exact ⟨⟨isIdle, here⟩, h.next_here here ▸ soon⟩
    · rintro ⟨⟨isIdle, here⟩, soon⟩
      exact ⟨⟨isIdle, (h.next_here here).symm ▸ soon⟩, here⟩
  cases bs with
  | nil =>
    refine ⟨volume_between (fun t ⟨late, early⟩ => (idle t).mpr ?_) fun t isIdle => ?_, ?_⟩
    · obtain ⟨after, start⟩ := max_lt_iff.mp late
      exact ⟨⟨le_of_lt start, le_of_lt early⟩, le_of_lt after, fun _ none => nomatch none⟩
    · obtain ⟨⟨start, early⟩, after, _⟩ := (idle t).mp isIdle
      exact ⟨max_le after start, early⟩
    · have nothing : obsoleteSet f next latency horizon interiorOnly ∩ {t | Here a [] t} = ∅ :=
        eq_empty_of_forall_notMem fun t member => absurd ((obsolete t).mp member).2 (not_le.mpr (WithTop.coe_lt_top _))
      rw [nothing, measureReal_empty]
  | cons q rest =>
    refine ⟨volume_between (fun t ⟨late, early⟩ => (idle t).mpr ?_) fun t isIdle => ?_,
      volume_between (fun t ⟨late, early⟩ => (obsolete t).mpr ?_) fun t member => ?_⟩
    · obtain ⟨after, start⟩ := max_lt_iff.mp late
      obtain ⟨unchanged, early⟩ := lt_min_iff.mp early
      refine ⟨⟨le_of_lt start, le_of_lt early⟩, le_of_lt after, ?_⟩
      rintro _ ⟨⟩
      exact unchanged
    · obtain ⟨⟨start, early⟩, after, unchanged⟩ := (idle t).mp isIdle
      exact ⟨max_le after start, le_min (le_of_lt (unchanged q rfl)) early⟩
    · obtain ⟨inside, soon⟩ := max_lt_iff.mp late
      obtain ⟨after, start⟩ := max_lt_iff.mp inside
      obtain ⟨unchanged, early⟩ := lt_min_iff.mp early
      refine ⟨⟨⟨le_of_lt start, le_of_lt early⟩, le_of_lt after, ?_⟩, WithTop.coe_le_coe.mpr (by linarith)⟩
      rintro _ ⟨⟩
      exact unchanged
    · obtain ⟨⟨⟨start, early⟩, after, unchanged⟩, soon⟩ := (obsolete t).mp member
      have soon : q.1 ≤ t + latency := WithTop.coe_le_coe.mp soon
      exact ⟨max_le (max_le after start) (by linarith), le_min (le_of_lt (unchanged q rfl)) early⟩

/-- What one pass of the loop adds. -/
theorem offlineStep_eq (h : Follows f next k a s bs) (sums : ℝ × ℝ) :
    offlineStep latency horizon interiorOnly k a s (bs.head?.map Prod.fst) sums =
      (sums.1 + volume.real (obsoleteSet f next latency horizon interiorOnly ∩ {t | Here a bs t}),
        sums.2 + volume.real (idleSet f horizon interiorOnly ∩ {t | Here a bs t})) := by
  by_cases counts : Counts k s bs interiorOnly
  · have volumes := volume_here latency horizon h counts
    obtain ⟨idle, included⟩ := counts
    unfold offlineStep
    rw [if_neg (not_not.mpr idle), if_neg fun left => included left.1 left.2]
    cases ends : bs.head?.map Prod.fst with
    | none =>
      rw [ends] at volumes
      rw [volumes.1, volumes.2]
      simp only
      generalize max a 0 = lo
      split
      · rw [max_eq_right (by linarith), add_zero, add_zero]
      · rw [max_eq_left (by linarith), add_zero]
    | some b =>
      rw [ends] at volumes
      rw [volumes.1, volumes.2]
      simp only
      generalize max a 0 = lo
      have le : lo ≤ max lo (b - latency) := le_max_left _ _
      generalize max lo (b - latency) = olo at le
      generalize min b horizon = hi
      split
      · rw [max_eq_right (show hi - olo ≤ 0 by linarith), max_eq_right (show hi - lo ≤ 0 by linarith), add_zero, add_zero]
      · rw [max_eq_left (show 0 ≤ hi - lo by linarith)]
        split
        · rw [max_eq_left (by linarith)]
        · rw [max_eq_right (by linarith), add_zero]
  · have none : idleSet f horizon interiorOnly ∩ {t | Here a bs t} = ∅ :=
      eq_empty_of_forall_notMem fun t ⟨idle, here⟩ => counts ((h.mem_idleSet_here here).mp idle).2
    have none' : obsoleteSet f next latency horizon interiorOnly ∩ {t | Here a bs t} = ∅ :=
      eq_empty_of_forall_notMem fun t ⟨obsolete, here⟩ => counts ((h.mem_idleSet_here here).mp obsolete.1).2
    rw [none, none', measureReal_empty, add_zero, add_zero]
    unfold offlineStep
    by_cases idle : s = .idle
    · rw [if_neg (not_not.mpr idle), if_pos]
      by_contra not
      exact counts ⟨idle, fun only out => not ⟨only, out⟩⟩
    · rw [if_pos idle]

/-- What the loop adds. -/
theorem offlineLoop_eq (h : Follows f next k a s bs) (sums : ℝ × ℝ) :
    offlineLoop latency horizon interiorOnly k ((a, s) :: bs) sums =
      (sums.1 + volume.real (obsoleteSet f next latency horizon interiorOnly ∩ Ici a),
        sums.2 + volume.real (idleSet f horizon interiorOnly ∩ Ici a)) := by
  induction bs generalizing k a s sums with
  | nil =>
    have all : {t | Here a [] t} = Ici a := Set.ext fun t => ⟨fun here => here.1, fun after => ⟨after, fun _ none => nomatch none⟩⟩
    rw [offlineLoop, offlineLoop, h.offlineStep_eq, all]
  | cons q rest ih =>
    have piece : {t | Here a (q :: rest) t} = Ico a q.1 := Set.ext fun t =>
      ⟨fun here => ⟨here.1, here.2 q rfl⟩, fun inside => ⟨inside.1, by rintro _ ⟨⟩; exact inside.2⟩⟩
    have le : a ≤ q.1 := h.reached q List.mem_cons_self
    have idle : idleSet f horizon interiorOnly ⊆ Icc 0 horizon := fun t isIdle => ⟨isIdle.1, isIdle.2.1⟩
    have obsolete : obsoleteSet f next latency horizon interiorOnly ⊆ Icc 0 horizon := fun t member => idle member.1
    rw [offlineLoop, h.offlineStep_eq, ih h.tail, piece, volume_split idle le, volume_split obsolete le, add_assoc, add_assoc]

end Follows

namespace Timeline

/-! ### The sums over the machines -/

/-- The idle times of a machine up to the horizon; those between work only, if the ends of the log are left out. -/
def idleTimes (tl : Timeline ℝ) (latency : ℝ) (interiorOnly : Bool) (m : Str) : Set ℝ :=
  {t | 0 ≤ t ∧ t ≤ tl.span - latency ∧ tl.state m t = some .idle ∧
    (interiorOnly = true → (∃ u, 0 ≤ u ∧ u < t ∧ tl.state m u ≠ some .idle) ∧ ∃ u, t < u ∧ tl.state m u ≠ some .idle)}

/-- The machine leaves its state within the latency. -/
def obsoleteTimes (tl : Timeline ℝ) (latency : ℝ) (m : Str) : Set ℝ :=
  {t | ∃ next, tl.nextChange m t = some next ∧ next ≤ ((t + latency : ℝ) : WithTop ℝ)}

/-- A decision at an idle machine: its index and the time, uniform over idle machine-time. -/
noncomputable def decisions (tl : Timeline ℝ) (latency : ℝ) : Measure (Fin tl.machines.length × ℝ) :=
  ProbabilityTheory.cond (Measure.count.prod volume) {x | x.2 ∈ tl.idleTimes latency false (tl.machines.get x.1)}

variable {steps : List (WorkStep ℝ)} {tl : Timeline ℝ} (built : Timeline.build steps = some tl) {m : Str}
  (has : ∃ step ∈ steps, step.machine = m) (latency : ℝ) (interiorOnly : Bool)

/-- The states of a machine as its breakpoints give them. -/
noncomputable def course (tl : Timeline ℝ) (steps : List (WorkStep ℝ)) (m : Str) : ℝ → MachineState :=
  valueAt .idle (breakpoints (machinePoints tl.t0 m steps))

noncomputable def courseNext (tl : Timeline ℝ) (steps : List (WorkStep ℝ)) (m : Str) : ℝ → WithTop ℝ :=
  nextAfter ((breakpoints (machinePoints tl.t0 m steps)).map Prod.fst)

include built has in
theorem idleTimes_eq : tl.idleTimes latency interiorOnly m = idleSet (tl.course steps m) (tl.span - latency) interiorOnly := by
  have state : ∀ {t}, 0 ≤ t → tl.state m t = some (tl.course steps m t) := fun after => state_breakpoints built has after
  ext t
  simp only [idleTimes, idleSet, mem_ofPred_eq, Between]
  refine and_congr_right fun start => and_congr_right fun _ => ?_
  rw [state start, Option.some_inj]
  refine and_congr_right fun _ => forall_congr' fun _ => and_congr (exists_congr fun u => ?_) (exists_congr fun u => ?_)
  · exact and_congr_right fun after => by rw [state after, ne_eq, ne_eq, Option.some_inj]
  · exact and_congr_right fun late => by rw [state (start.trans (le_of_lt late)), ne_eq, ne_eq, Option.some_inj]

include built has in
theorem obsoleteTimes_eq : tl.idleTimes latency interiorOnly m ∩ tl.obsoleteTimes latency m =
    obsoleteSet (tl.course steps m) (tl.courseNext steps m) latency (tl.span - latency) interiorOnly := by
  rw [idleTimes_eq built has]
  ext t
  simp only [obsoleteTimes, obsoleteSet, mem_inter_iff, mem_ofPred_eq]
  refine and_congr_right fun idle => ?_
  rw [nextChange_breakpoints built has idle.1]
  constructor
  · rintro ⟨_, same, le⟩
    obtain rfl := Option.some.inj same
    exact le
  · exact fun le => ⟨_, rfl, le⟩

include built has in
/-- The loop adds the measures of a machine. -/
theorem offlineLoop_machine (sums : ℝ × ℝ) {c : Changes ℝ} (stored : tl.changes.get m = some c) :
    offlineLoop latency (tl.span - latency) interiorOnly 0 (c.times.zip c.states) sums =
      (sums.1 + volume.real (tl.idleTimes latency interiorOnly m ∩ tl.obsoleteTimes latency m),
        sums.2 + volume.real (tl.idleTimes latency interiorOnly m)) := by
  have first : ∀ step ∈ steps, tl.t0 ≤ step.start := fun step member => (changes_build built).1.2 ⟨step, member, rfl⟩
  have follows : Follows (tl.course steps m) (tl.courseNext steps m) 0 0 .idle (breakpoints (machinePoints tl.t0 m steps)) :=
    { tight := tight_breakpoints _
      nonneg := le_refl 0
      reached := fun p member => nonneg_breakpoints first member
      strict := fun working => absurd rfl working
      value := fun t _ => rfl
      next := fun t _ => rfl
      first := fun _ => rfl
      worked := fun later => absurd rfl later }
  obtain rfl := Option.some.inj (stored.symm.trans (get_changes built has))
  have inside : ∀ {A : Set ℝ}, A ⊆ tl.idleTimes latency interiorOnly m → A ∩ Ici 0 = A := fun sub =>
    inter_eq_left.mpr fun t member => (sub member).1
  rw [List.zip_cons_cons, List.zip_map', List.map_id', follows.offlineLoop_eq, ← obsoleteTimes_eq built has, ← idleTimes_eq built has,
    inside inter_subset_left, inside subset_rfl]

include built in
theorem has_of_mem_machines (member : m ∈ tl.machines) : ∃ step ∈ steps, step.machine = m := by
  obtain ⟨t0, _, made⟩ := Option.bind_eq_some_iff.mp built
  obtain ⟨last, _, made⟩ := Option.bind_eq_some_iff.mp made
  obtain rfl := Option.some.inj made
  have contained := Dict.mem_keys.mp (mem_sortedSet.mp member)
  rw [Dict.contains, get_pointsOf] at contained
  by_contra none
  rw [if_neg none] at contained
  cases contained

include built in
theorem offlineExact_eq : tl.offlineExact latency interiorOnly = some
    ((tl.machines.map fun m => volume.real (tl.idleTimes latency interiorOnly m ∩ tl.obsoleteTimes latency m)).sum,
      (tl.machines.map fun m => volume.real (tl.idleTimes latency interiorOnly m)).sum) := by
  have loop : ∀ (ms : List Str), (∀ m ∈ ms, m ∈ tl.machines) → ∀ sums : ℝ × ℝ, ms.foldlM (fun sums m => do
      let c ← tl.changes.get m
      return offlineLoop latency (tl.span - latency) interiorOnly 0 (c.times.zip c.states) sums) sums = some
        (sums.1 + (ms.map fun m => volume.real (tl.idleTimes latency interiorOnly m ∩ tl.obsoleteTimes latency m)).sum,
          sums.2 + (ms.map fun m => volume.real (tl.idleTimes latency interiorOnly m)).sum) := by
    intro ms
    induction ms with
    | nil => intro _ sums; simp
    | cons m ms ih =>
      intro machines sums
      have has := has_of_mem_machines built (machines m List.mem_cons_self)
      have stored := get_changes built has
      have first := congrArg some (offlineLoop_machine built has latency interiorOnly sums stored)
      rw [List.foldlM_cons, stored]
      refine (congrArg (fun sums : Option (ℝ × ℝ) => sums >>= _) first).trans ?_
      rw [Option.bind_eq_bind, Option.bind_some]
      refine (ih (fun m' member => machines m' (List.mem_cons_of_mem _ member)) _).trans ?_
      simp only [List.map_cons, List.sum_cons, add_assoc]
  have sums := loop tl.machines (fun _ member => member) (0, 0)
  rw [zero_add, zero_add] at sums
  exact sums

/-! ### The estimate -/

include built has in
theorem measurableSet_idleTimes : MeasurableSet (tl.idleTimes latency false m) := by
  have all : tl.idleTimes latency false m = Icc 0 (tl.span - latency) ∩ {t | tl.course steps m t = .idle} := by
    rw [idleTimes_eq built has]
    ext t
    simp [idleSet, and_assoc]
  rw [all]
  exact measurableSet_Icc.inter (measurableSet_valueAt _ _ _)

include built has in
theorem measurableSet_obsoleteTimes : MeasurableSet (tl.obsoleteTimes latency m) := by
  have all : tl.obsoleteTimes latency m =
      {t | nextAfter (0 :: (breakpoints (machinePoints tl.t0 m steps)).map Prod.fst) t ≤ ((t + latency : ℝ) : WithTop ℝ)} := by
    ext t
    rw [obsoleteTimes, mem_ofPred_eq, nextChange, get_changes built has]
    constructor
    · rintro ⟨_, same, le⟩
      obtain rfl := Option.some.inj same
      exact le
    · exact fun le => ⟨_, rfl, le⟩
  rw [all]
  exact measurableSet_nextAfter _ _

end Timeline

/-- For every timeline and every latency, `offline_exact` gives the measure of the idle times at which the next change comes within
the latency and that of all idle times, summed over the machines; and its fraction is the mean of the estimate on any number of decisions
drawn uniformly from the idle machine-time. -/
theorem offline_exact_measure (steps : List (WorkStep ℝ)) :
    match Timeline.build steps with
    | none => steps = []
    | some tl => ∀ latency, (∀ interiorOnly, tl.offlineExact latency interiorOnly = some
        ((tl.machines.map fun m => volume.real (tl.idleTimes latency interiorOnly m ∩ tl.obsoleteTimes latency m)).sum,
          (tl.machines.map fun m => volume.real (tl.idleTimes latency interiorOnly m)).sum)) ∧
      ∀ obsolete idle, tl.offlineExact latency false = some (obsolete, idle) → ∀ (n : Nat) (Ω : Type) (_ : MeasurableSpace Ω) (P : Measure Ω)
        (X : Fin n → Ω → Fin tl.machines.length × ℝ), n ≠ 0 → (∀ k, AEMeasurable (X k) P) → (∀ k, P.map (X k) = tl.decisions latency) →
          ∫ ω, (∑ k, {x : Fin tl.machines.length × ℝ | x.2 ∈ tl.obsoleteTimes latency (tl.machines.get x.1)}.indicator 1 (X k ω)) / (n : ℝ) ∂P =
            obsolete / idle := by
  split
  · rename_i built
    exact Timeline.build_eq_none.mp built
  · rename_i tl built
    intro latency
    refine ⟨fun interiorOnly => Timeline.offlineExact_eq built latency interiorOnly, fun obsolete idle sums n Ω _ P X drawn measurable draws => ?_⟩
    have has : ∀ i, ∃ step ∈ steps, step.machine = tl.machines.get i := fun i =>
      Timeline.has_of_mem_machines built (List.get_mem tl.machines i)
    have idles := fun i => Timeline.measurableSet_idleTimes built (has i) latency
    have obsoletes := fun i => Timeline.measurableSet_obsoleteTimes built (has i) latency
    have finite : ∀ i, volume (tl.idleTimes latency false (tl.machines.get i)) ≠ ⊤ := fun i =>
      measure_ne_top_of_subset (fun t idle => ⟨idle.1, idle.2.1⟩ : _ ⊆ Icc 0 (tl.span - latency)) measure_Icc_lt_top.ne
    rw [Timeline.offlineExact_eq built] at sums
    obtain ⟨rfl, rfl⟩ := Prod.mk.inj (Option.some.inj sums)
    rw [← Fin.sum_univ_fun_getElem, ← Fin.sum_univ_fun_getElem]
    have bounded : IsFiniteMeasure (tl.decisions latency) := by
      rw [Timeline.decisions]
      infer_instance
    have mean := integral_share drawn measurable draws (measurableSet_fibers obsoletes)
    have probability := cond_fibers idles obsoletes finite
    rw [← Timeline.decisions] at probability
    exact mean.trans probability

/-- Three steps of one machine, in seconds. -/
def threeSteps : List (WorkStep ℝ) :=
  [⟨"m".toList, 60, 120, "S".toList⟩, ⟨"m".toList, 120, 180, "D".toList⟩, ⟨"m".toList, 300, 360, "D".toList⟩]

theorem offline_exact_measure_threeSteps :
    match Timeline.build threeSteps with
    | none => threeSteps = []
    | some tl => ∃ obsolete idle, tl.offlineExact 30 false = some (obsolete, idle) ∧
        ∫ x, (∑ _k : Fin 1, {x : Fin tl.machines.length × ℝ | x.2 ∈ tl.obsoleteTimes 30 (tl.machines.get x.1)}.indicator 1 x) / ((1 : Nat) : ℝ)
          ∂tl.decisions 30 = obsolete / idle := by
  have measured := offline_exact_measure threeSteps
  split at measured
  · exact measured
  · rename_i tl built
    obtain ⟨sums, mean⟩ := measured 30
    exact ⟨_, _, sums false, mean _ _ (sums false) 1 _ _ (tl.decisions 30) (fun _ x => x) Nat.one_ne_zero (fun _ => aemeasurable_id) fun _ => Measure.map_id⟩

end Xair
