import Xair.Runtime.Mandates

/-!
# Draining the queue

`process_all` makes passes until the queue is empty. A delayed intent goes back to the queue, and
nothing in the loop gives its target back.
-/

namespace Xair

open Library

section

variable [PyText]

/-- The arguments of the passes of `process_all`. `timedOut` answers for the wall clock of each evaluation. -/
def passCall (now : ℚ) (timedOut : Nat → Nat → Bool) (k : Nat) : ProcessCall :=
  ⟨now, timedOut k, none, none, none, none, true⟩

/-- `process_all` from its `k`-th pass on; `none` if it has not returned after `fuel` passes. -/
def processAll (cfg : Config) (now : ℚ) (timedOut : Nat → Nat → Bool) : Nat → Nat → RuntimeM (Option (List IntentRecord))
  | 0, _ => return none
  | fuel + 1, k => do
    match ← processNext cfg (passCall now timedOut k) with
    | none => return some []
    | some record =>
      let results ← processAll cfg now timedOut fuel (k + 1)
      return results.map (record :: ·)

/-- The loop returns or raises. -/
def Terminates (cfg : Config) (now : ℚ) (timedOut : Nat → Nat → Bool) (rt : Runtime) : Prop :=
  ∃ fuel, Ends (processAll cfg now timedOut fuel 0) rt (fun results _ => results ≠ none) fun _ _ => True

/-- A pass would delay the intent: it is open to validation, not a stop, in time and valid, and its target is locked. -/
structure Blocked (cfg : Config) (call : ProcessCall) (rt : Runtime) (ref : Ref) : Prop where
  opened : rt.Open (rt.heap ref).id
  notStop : rt.policy.actionClass (rt.heap ref) ≠ .stop
  timely : (cfg.validate (rt.prepared ref) call.now).1 = true
  valid : ∃ msg, evaluatePredicates call.timedOut (rt.prepared ref).safetyConstraints (rt.prepared ref).preconditions
    rt.context = .ok (true, msg)
  locked : (rt.heap ref).target ∈ rt.activeTargets

/-- The state before the `k`-th pass, if the loop comes to it. -/
def loopState (cfg : Config) (now : ℚ) (timedOut : Nat → Nat → Bool) (rt : Runtime) : Nat → Option Runtime
  | 0 => some rt
  | k + 1 => (loopState cfg now timedOut rt k).bind fun s =>
    match (processNext cfg (passCall now timedOut k)).run s with
    | .ok (some _) s' => some s'
    | .ok none _ | .error _ _ => none

/-- The loop comes to its `k`-th pass, which takes a blocked intent from the queue. -/
def BlockedAt (cfg : Config) (now : ℚ) (timedOut : Nat → Nat → Bool) (rt : Runtime) (k : Nat) : Prop :=
  ∃ s q rest, loopState cfg now timedOut rt k = some s ∧ s.queue = q :: rest ∧
    Blocked cfg (passCall now timedOut k) { s with queue := rest } q.intent

/-! ### The loop -/

variable {cfg : Config} {now : ℚ} {timedOut : Nat → Nat → Bool} {rt : Runtime}

theorem loopState_ended {k n : Nat} (later : k ≤ n) (ended : loopState cfg now timedOut rt k = none) :
    loopState cfg now timedOut rt n = none := by
  induction later with
  | refl => exact ended
  | step _ ih => rw [loopState, ih, Option.bind_none]

/-- What the loop does is what the passes do one after the other. -/
theorem ends_processAll_iff (fuel k : Nat) {s : Runtime} (here : loopState cfg now timedOut rt k = some s) :
    Ends (processAll cfg now timedOut fuel k) s (fun results _ => results ≠ none) (fun _ _ => True) ↔
      loopState cfg now timedOut rt (k + fuel) = none := by
  induction fuel generalizing k s with
  | zero =>
    rw [Nat.add_zero, here]
    exact iff_of_false (fun h => h rfl) (fun h => by cases h)
  | succ fuel ih =>
    have next : loopState cfg now timedOut rt (k + 1) = loopState cfg now timedOut rt (k + 1) := rfl
    conv at next => rhs; rw [loopState, here, Option.bind_some]
    rw [processAll, ends_bind, Ends, show k + (fuel + 1) = k + 1 + fuel by omega]
    cases run : (processNext cfg (passCall now timedOut k)).run s with
    | error e s' =>
      rw [run] at next
      exact iff_of_true trivial (loopState_ended (Nat.le_add_right _ _) next)
    | ok result s' =>
      rw [run] at next
      cases result with
      | none => exact iff_of_true (fun h => by cases h) (loopState_ended (Nat.le_add_right _ _) next)
      | some record =>
        rw [← ih (k + 1) next]
        simp only [ends_bind, ends_pure]
        exact ends_congr (fun results _ => by simp) fun _ _ => Iff.rfl

theorem terminates_iff_loopState : Terminates cfg now timedOut rt ↔ ∃ n, loopState cfg now timedOut rt n = none := by
  refine exists_congr fun fuel => ?_
  rw [ends_processAll_iff fuel 0 rfl, Nat.zero_add]

/-! ### One pass -/

/-- The intent is to be degraded before it is executed. -/
def Runtime.degradable (rt : Runtime) (ref : Ref) : Bool := decide ((rt.heap ref).payload.degradationPolicy ≠ .none)

/-- What a pass does to the queue. -/
inductive Drained (cfg : Config) (call : ProcessCall) (rt : Runtime) (ref : Ref) (rt' : Runtime) : Prop
  | gone (free : ¬Blocked cfg call rt ref) (queue : rt'.queue = rt.queue) (degradable : rt'.degradable = rt.degradable)
  | degraded (free : ¬Blocked cfg call rt ref) (q : QueuedIntent) (own : q.intent = ref)
      (queue : rt'.queue = insertQueued q rt.queue) (was : rt.degradable ref = true)
      (degradable : rt'.degradable = Function.update rt.degradable ref false)
  | delayed (blocked : Blocked cfg call rt ref) (q : QueuedIntent) (own : q.intent = ref)
      (queue : rt'.queue = insertQueued q rt.queue) (degradable : rt'.degradable = rt.degradable)
      (heap : rt'.heap = Function.update rt.heap ref (rt.prepared ref)) (locks : rt'.activeTargets = rt.activeTargets)
      (state : ∃ record, rt'.records.get (rt.heap ref).id = some record ∧ record.state = .delayed)

omit [PyText] in
theorem degradable_update {rt rt' : Runtime} {ref : Ref} (i : ActionIntent) (heap : rt'.heap = Function.update rt.heap ref i) :
    rt'.degradable = Function.update rt.degradable ref (decide (i.payload.degradationPolicy ≠ .none)) := by
  funext r
  rw [Runtime.degradable, heap, Function.update_apply, Function.update_apply]
  split <;> rfl

theorem degradable_prepared {rt rt' : Runtime} {ref : Ref} (heap : rt'.heap = Function.update rt.heap ref (rt.prepared ref)) :
    rt'.degradable = rt.degradable := by
  rw [degradable_update _ heap, Runtime.prepared, Policy.applyTo_payload]
  exact Function.update_eq_self ref rt.degradable

omit [PyText] in
theorem decideOutcome_delay_iff {i : ActionIntent} {temporal context : Bool × Str} {busy : Bool} {outcome : DecisionOutcome}
    {reason : Str} (h : decideOutcome i temporal context busy = (outcome, reason)) :
    outcome = .delay ↔ temporal.1 = true ∧ context.1 = true ∧ busy = true := by
  obtain ⟨timely, why⟩ := temporal
  obtain ⟨valid, why'⟩ := context
  unfold decideOutcome at h
  cases timely with
  | false =>
    cases h
    exact iff_of_false nofun fun all => nomatch all.1
  | true =>
    cases valid with
    | false =>
      cases h
      exact iff_of_false nofun fun all => nomatch all.2.1
    | true =>
      cases busy with
      | true =>
        cases h
        exact iff_of_true rfl ⟨rfl, rfl, rfl⟩
      | false =>
        refine iff_of_false ?_ fun all => nomatch all.2.2
        rintro rfl
        by_cases degradable : i.payload.degradationPolicy ≠ .none
        · simp [degradable] at h
        · simp [degradable] at h

theorem Evaluated.delay_iff {call : ProcessCall} (installed : call.context = none) {rt' : Runtime} {ref : Ref}
    {record : IntentRecord} {outcome : DecisionOutcome} {reason : Str} (h : Evaluated cfg call rt ref rt' record outcome reason)
    (opened : rt.Open (rt.heap ref).id) (notStop : rt.policy.actionClass (rt.heap ref) ≠ .stop) :
    outcome = .delay ↔ Blocked cfg call rt ref := by
  have decided := h.decided
  rw [decision, show call.snapshot rt = rt.context by rw [ProcessCall.snapshot, installed]; rfl] at decided
  cases evaluated : evaluatePredicates call.timedOut (rt.prepared ref).safetyConstraints
      (rt.prepared ref).preconditions rt.context with
  | error e => rw [evaluated] at decided; cases decided
  | ok context =>
    rw [evaluated] at decided
    rw [decideOutcome_delay_iff (Except.ok.inj decided), Runtime.busy, rt.prepared_target, List.contains_iff_mem]
    constructor
    · rintro ⟨timely, valid, locked⟩
      exact ⟨opened, notStop, timely, ⟨context.2, by rw [evaluated, ← valid]⟩, locked⟩
    · rintro ⟨_, _, timely, ⟨msg, valid⟩, locked⟩
      rw [evaluated] at valid
      exact ⟨timely, by rw [Except.ok.inj valid], locked⟩

theorem drained_conclude {call : ProcessCall} (installed : call.context = none) {rt' : Runtime} {ref : Ref}
    {record : IntentRecord} {outcome : DecisionOutcome} {reason : Str} (h : Evaluated cfg call rt ref rt' record outcome reason)
    (queue : rt'.queue = rt.queue) (opened : rt.Open (rt.heap ref).id) (notStop : rt.policy.actionClass (rt.heap ref) ≠ .stop) :
    Ends (conclude ref (rt.heap ref).id true outcome reason) rt' (fun _ rt'' => Drained cfg call rt ref rt'')
      fun _ _ => ¬Blocked cfg call rt ref := by
  have delay_iff := h.delay_iff installed opened notStop
  have same : rt'.degradable = rt.degradable := degradable_prepared h.heap
  cases outcome with
  | degrade =>
    have free : ¬Blocked cfg call rt ref := fun blocked => by cases delay_iff.mpr blocked
    simp only [conclude]
    rw [ends_bind, ends_get]
    cases degraded : applyDegradation (rt'.heap ref) with
    | error e => exact ends_throw.mpr free
    | ok i =>
      obtain ⟨was, now⟩ := applyDegradation_policy degraded
      simp only
      rw [ends_bind, ends_modify]
      refine (ends_assign_transition (by exact h.stored) (by simp [h.state, IntentState.allowed])).mpr ?_
      rw [ends_bind, ends_modify, ends_bind, ends_modify, ends_pure]
      refine .degraded free _ rfl (congrArg (insertQueued _) queue) ?_ ?_
      · rw [← same]
        exact decide_eq_true was
      · rw [← same, ← decide_eq_false (p := i.payload.degradationPolicy ≠ .none) (not_not.mpr now)]
        exact degradable_update i rfl
  | execute =>
    simp only [conclude]
    rw [ends_bind, ends_modify]
    refine (ends_assign_transition (by exact h.stored) (by simp [h.state, IntentState.allowed])).mpr ?_
    rw [ends_bind, ends_modify, ends_pure]
    exact .gone (fun blocked => by cases delay_iff.mpr blocked) queue same
  | delay =>
    simp only [conclude]
    rw [ends_bind]
    refine (ends_transition h.stored (by simp [h.state, IntentState.allowed])).mpr ?_
    rw [ends_bind, ends_modify, ends_bind, ends_modify, ends_pure]
    exact .delayed (delay_iff.mp rfl) _ rfl (congrArg (insertQueued _) queue) same h.heap h.locks
      ⟨_, Dict.get_insert_self _ _ _, rfl⟩
  | revoke =>
    simp only [conclude]
    rw [ends_bind]
    refine (ends_transition h.stored (by rw [h.state]; split <;> decide)).mpr ?_
    rw [ends_bind, ends_modify, ends_pure]
    exact .gone (fun blocked => by cases delay_iff.mpr blocked) queue same

theorem drained_validationPass {call : ProcessCall} (installed : call.context = none) (unversioned : call.contextVersion = none)
    (requeue : call.requeue = true) (ref : Ref) {record : IntentRecord}
    (found : rt.records.get (rt.heap ref).id = some record) (opened : record.state.validatable = true) :
    Ends (validationPass cfg call ref) rt (fun _ rt' => Drained cfg call rt ref rt') fun _ _ => ¬Blocked cfg call rt ref := by
  apply ends_validationPass_begun cfg call ref found opened
  · intro rt₁ r₁ h queue stop
    have free : ¬Blocked cfg call rt ref := fun blocked => blocked.notStop stop
    rw [authorizeStop, ends_bind, ends_modify]
    refine (ends_assign_transition (by exact h.stored) (by simp [h.state, IntentState.allowed])).mpr ?_
    rw [ends_bind, ends_modify, ends_pure]
    refine .gone free queue ?_
    have heap : (rt₁.putIntent ref { rt₁.heap ref with policyAdded := some [] }).heap =
        Function.update rt.heap ref { rt.heap ref with policyAdded := some [] } := by rw [Runtime.putIntent, h.heap]
    exact (degradable_update _ heap).trans (Function.update_eq_self ref rt.degradable)
  · intro rt₁ r₁ h _ _ stale
    rw [unversioned] at stale
    cases stale
  · intro rt₁ r₁ h queue notStop _
    apply ends_evaluate_decided h
    · intro rt₂ r₂ e _ _ _ _ decided blocked
      obtain ⟨msg, valid⟩ := blocked.valid
      rw [decision, show call.snapshot rt = rt.context by rw [ProcessCall.snapshot, installed]; rfl, valid] at decided
      cases decided
    · intro rt₂ r₂ outcome reason evaluated queue'
      rw [requeue]
      exact drained_conclude installed evaluated (queue'.trans queue) h.opened notStop

theorem blocked_congr {call : ProcessCall} {rt' : Runtime} {ref : Ref} (heap : rt'.heap = rt.heap) (policy : rt'.policy = rt.policy)
    (context : rt'.context = rt.context) (locks : rt'.activeTargets = rt.activeTargets)
    (opened : rt'.Open (rt.heap ref).id ↔ rt.Open (rt.heap ref).id) : Blocked cfg call rt' ref ↔ Blocked cfg call rt ref := by
  have prepared : rt'.prepared ref = rt.prepared ref := by rw [Runtime.prepared, Runtime.prepared, heap, policy]
  constructor
  · rintro ⟨isOpen, notStop, timely, valid, locked⟩
    rw [heap] at isOpen notStop locked
    rw [policy] at notStop
    rw [prepared] at timely valid
    rw [context] at valid
    exact ⟨opened.mp isOpen, notStop, timely, valid, locks ▸ locked⟩
  · rintro ⟨isOpen, notStop, timely, valid, locked⟩
    refine ⟨?_, ?_, ?_, ?_, ?_⟩
    · rw [heap]
      exact opened.mpr isOpen
    · rw [heap, policy]
      exact notStop
    · rw [prepared]
      exact timely
    · rw [prepared, context]
      exact valid
    · rw [heap, locks]
      exact locked

theorem drained_processIntent (call : ProcessCall) (installed : call.context = none) (unversioned : call.contextVersion = none)
    (requeue : call.requeue = true) (rt : Runtime) (ref : Ref) :
    Ends (processIntent cfg call ref) rt (fun _ rt' => Drained cfg call rt ref rt') fun _ _ => ¬Blocked cfg call rt ref := by
  rw [processIntent, ends_bind, ends_get]
  cases found : rt.records.get (rt.heap ref).id with
  | some record =>
    simp only
    rw [ends_ite]
    refine ⟨drained_validationPass installed unversioned requeue ref found, fun closed => ends_pure.mpr ?_⟩
    exact .gone (fun blocked => closed (blocked.opened record found)) rfl rfl
  | none =>
    simp only
    rw [ends_bind, ends_set]
    have isOpen : rt.Open (rt.heap ref).id := fun r stored => by
      rw [found] at stored
      cases stored
    have stored : (rt.register ref).records.get ((rt.register ref).heap ref).id = some (.fresh ref) := Dict.get_insert_self _ _ _
    have reopened : (rt.register ref).Open (rt.heap ref).id := fun r present => by
      obtain rfl := Option.some.inj ((show some _ = some r from stored.symm.trans present))
      rfl
    have same : Blocked cfg call (rt.register ref) ref ↔ Blocked cfg call rt ref :=
      blocked_congr rfl rfl rfl rfl (iff_of_true reopened isOpen)
    refine (drained_validationPass installed unversioned requeue ref stored rfl).imp ?_ fun _ _ free => fun blocked => free (same.mpr blocked)
    rintro a rt' (⟨free, queue, degradable⟩ | ⟨free, q, own, queue, was, degradable⟩ |
      ⟨blocked, q, own, queue, degradable, heap, locks, state⟩)
    · exact .gone (fun blocked => free (same.mpr blocked)) queue degradable
    · exact .degraded (fun blocked => free (same.mpr blocked)) q own queue was degradable
    · exact .delayed (same.mp blocked) q own queue degradable heap locks state

/-! ### The work left -/

omit [PyText] in
theorem insertQueued_perm (q : QueuedIntent) (queue : List QueuedIntent) : (insertQueued q queue).Perm (q :: queue) := by
  induction queue with
  | nil => exact .refl _
  | cons x xs ih =>
    rw [insertQueued]
    split
    · exact .refl _
    · exact (ih.cons x).trans (.swap q x xs)

/-- The queued intents, and those of them that are to be degraded. -/
def Runtime.work (rt : Runtime) : Nat := rt.queue.length + rt.queue.countP fun q => rt.degradable q.intent

/-- A pass that delays leaves as much work as there was, any other leaves less. -/
theorem Drained.work {call : ProcessCall} {q : QueuedIntent} {rest : List QueuedIntent} {rt' : Runtime} (queue : rt.queue = q :: rest)
    (h : Drained cfg call { rt with queue := rest } q.intent rt') :
    rt'.work ≤ rt.work ∧ (¬Blocked cfg call { rt with queue := rest } q.intent → rt'.work < rt.work) := by
  have before : rt.work = rest.length + 1 + (rest.countP (fun q => rt.degradable q.intent) +
      if rt.degradable q.intent = true then 1 else 0) := by
    rw [Runtime.work, queue, List.length_cons, List.countP_cons]
  rw [before]
  cases h with
  | gone free queue' degradable =>
    have after : rt'.work = rest.length + rest.countP fun q => rt.degradable q.intent := by
      rw [Runtime.work, degradable, queue']
      rfl
    rw [after]
    exact ⟨by omega, fun _ => by omega⟩
  | degraded free q' own queue' was degradable =>
    have was : rt.degradable q.intent = true := was
    have fewer : rest.countP (fun x => rt'.degradable x.intent) ≤ rest.countP fun x => rt.degradable x.intent := by
      refine List.countP_mono_left fun x _ still => ?_
      rw [degradable, Function.update_apply] at still
      split at still
      · cases still
      · exact still
    have after : rt'.work = rest.length + 1 + rest.countP fun x => rt'.degradable x.intent := by
      have own : rt'.degradable q'.intent = false := by rw [degradable, own, Function.update_self]
      have perm := insertQueued_perm q' rest
      rw [Runtime.work, queue', perm.length_eq, perm.countP_eq, List.countP_cons, own, List.length_cons]
      rfl
    rw [after, if_pos was]
    exact ⟨by omega, fun _ => by omega⟩
  | delayed blocked q' own queue' degradable _ _ _ =>
    refine ⟨?_, fun free => absurd blocked free⟩
    have perm := insertQueued_perm q' rest
    rw [Runtime.work, queue', perm.length_eq, perm.countP_eq, List.countP_cons, List.length_cons, own, degradable]
    rfl

/-! ### Termination -/

/-- The pass after which the loop goes on. -/
theorem ends_pass {s : Runtime} {q : QueuedIntent} {rest : List QueuedIntent} (queue : s.queue = q :: rest) (k : Nat) :
    Ends (processNext cfg (passCall now timedOut k)) s
      (fun result s' => result.isSome = true ∧ Drained cfg (passCall now timedOut k) { s with queue := rest } q.intent s')
      fun _ _ => ¬Blocked cfg (passCall now timedOut k) { s with queue := rest } q.intent := by
  rw [processNext, ends_bind, ends_get]
  simp only [queue]
  rw [ends_bind, ends_set, ends_bind]
  refine (drained_processIntent (passCall now timedOut k) rfl rfl rfl { s with queue := rest } q.intent).imp ?_ fun _ _ free => free
  intro record s' drained
  exact ends_pure.mpr ⟨rfl, drained⟩

theorem loopState_succ {k : Nat} {s s' : Runtime} (here : loopState cfg now timedOut rt k = some s)
    (next : loopState cfg now timedOut rt (k + 1) = some s') :
    ∃ q rest, s.queue = q :: rest ∧ Drained cfg (passCall now timedOut k) { s with queue := rest } q.intent s' := by
  rw [loopState, here, Option.bind_some] at next
  cases queue : s.queue with
  | nil =>
    have ended : (processNext cfg (passCall now timedOut k)).run s = .ok none s := by
      unfold processNext
      simp only [EStateM.run_bind, EStateM.run_get, queue]
      rfl
    rw [ended] at next
    cases next
  | cons q rest =>
    refine ⟨q, rest, rfl, ?_⟩
    cases run : (processNext cfg (passCall now timedOut k)).run s with
    | error e s'' =>
      rw [run] at next
      cases next
    | ok result s'' =>
      obtain ⟨returned, drained⟩ := (ends_pass queue k).of_run_ok run
      obtain ⟨record, rfl⟩ := Option.isSome_iff_exists.mp returned
      rw [run] at next
      obtain rfl := Option.some.inj next
      exact drained

theorem loopState_work {k : Nat} {s s' : Runtime} (here : loopState cfg now timedOut rt k = some s)
    (next : loopState cfg now timedOut rt (k + 1) = some s') :
    s'.work ≤ s.work ∧ (¬BlockedAt cfg now timedOut rt k → s'.work < s.work) := by
  obtain ⟨q, rest, queue, drained⟩ := loopState_succ here next
  exact ⟨(drained.work queue).1, fun free => (drained.work queue).2 fun blocked => free ⟨s, q, rest, here, queue, blocked⟩⟩

/-- A loop that goes on has, after its last progress, only blocked intents to take. -/
theorem blocked_of_endless (endless : ∀ n, ∃ s, loopState cfg now timedOut rt n = some s) :
    ∃ k, ∀ j, k ≤ j → BlockedAt cfg now timedOut rt j := by
  choose state at_ using endless
  have work_le : ∀ k n, (state (k + n)).work ≤ (state k).work := by
    intro k n
    induction n with
    | zero => exact Nat.le_refl _
    | succ n ih => exact ((loopState_work (at_ (k + n)) (at_ (k + n + 1))).1).trans ih
  have progress : ∀ m k, (state k).work ≤ m → ∃ k, ∀ j, k ≤ j → BlockedAt cfg now timedOut rt j := by
    intro m
    induction m with
    | zero =>
      intro k small
      refine ⟨k, fun j later => not_not.mp fun free => ?_⟩
      have less := (loopState_work (at_ j) (at_ (j + 1))).2 free
      have before := work_le k (j - k)
      rw [Nat.add_sub_cancel' later] at before
      omega
    | succ m ih =>
      intro k small
      by_cases always : ∀ j, k ≤ j → BlockedAt cfg now timedOut rt j
      · exact ⟨k, always⟩
      · push Not at always
        obtain ⟨j, later, free⟩ := always
        have less := (loopState_work (at_ j) (at_ (j + 1))).2 free
        have before := work_le k (j - k)
        rw [Nat.add_sub_cancel' later] at before
        exact ih (j + 1) (by omega)
  exact progress _ 0 (Nat.le_refl _)

theorem terminates_of_progress (free : ∀ k, ∃ j, k ≤ j ∧ ¬BlockedAt cfg now timedOut rt j) : Terminates cfg now timedOut rt := by
  rw [terminates_iff_loopState]
  by_contra endless
  push Not at endless
  obtain ⟨k, blocked⟩ := blocked_of_endless fun n => Option.ne_none_iff_exists'.mp (endless n)
  obtain ⟨j, later, not⟩ := free k
  exact not (blocked j later)

theorem progress_of_terminates (h : Terminates cfg now timedOut rt) (k : Nat) : ∃ j, k ≤ j ∧ ¬BlockedAt cfg now timedOut rt j := by
  obtain ⟨n, ended⟩ := terminates_iff_loopState.mp h
  refine ⟨max k n, le_max_left k n, ?_⟩
  rintro ⟨s, q, rest, here, _⟩
  rw [loopState_ended (le_max_right k n) ended] at here
  cases here

/-- `process_all` terminates exactly if it does not come to a pass from which on every pass takes a blocked intent. -/
theorem processAll_terminates_iff (cfg : Config) (now : ℚ) (timedOut : Nat → Nat → Bool) (rt : Runtime) :
    Terminates cfg now timedOut rt ↔ ¬∃ k, ∀ j, k ≤ j → BlockedAt cfg now timedOut rt j := by
  constructor
  · rintro terminates ⟨k, blocked⟩
    obtain ⟨j, later, free⟩ := progress_of_terminates terminates k
    exact free (blocked j later)
  · intro free
    refine terminates_of_progress fun k => ?_
    by_contra stuck
    push Not at stuck
    exact free ⟨k, stuck⟩

/-! ### A queue of blocked intents -/

theorem prepared_update {rt' : Runtime} {ref : Ref} (policy : rt'.policy = rt.policy)
    (heap : rt'.heap = Function.update rt.heap ref (rt.prepared ref)) (r : Ref) : rt'.prepared r = rt.prepared r := by
  rw [Runtime.prepared, policy, heap, Function.update_apply]
  split
  · rename_i same
    rw [same]
    exact Policy.applyTo_idem _ _
  · rfl

/-- An intent is as blocked after a delay, of itself or of another one, as before. -/
theorem Blocked.after_delay {call : ProcessCall} {rt' : Runtime} {ref r : Ref} (h : Blocked cfg call rt r)
    (alone : Local (rt.heap ref).id rt rt') (heap : rt'.heap = Function.update rt.heap ref (rt.prepared ref))
    (locks : rt'.activeTargets = rt.activeTargets)
    (state : ∃ record, rt'.records.get (rt.heap ref).id = some record ∧ record.state = .delayed) : Blocked cfg call rt' r := by
  have payload : (rt'.heap r).payload = (rt.heap r).payload := by
    rw [heap, Function.update_apply]
    split
    · rename_i same
      rw [same]
      exact Policy.applyTo_payload _ _
    · rfl
  have key : actionKey (rt'.heap r) = actionKey (rt.heap r) := by rw [actionKey, actionKey, payload]
  refine ⟨?_, ?_, ?_, ?_, ?_⟩
  · rw [alone.ids]
    intro record stored
    by_cases own : (rt.heap r).id = (rt.heap ref).id
    · obtain ⟨delayed, found, isDelayed⟩ := state
      rw [own, found] at stored
      rw [← Option.some.inj stored, isDelayed]
      rfl
    · rw [alone.others _ own] at stored
      exact h.opened record stored
  · rw [Policy.actionClass, alone.policy, key]
    exact h.notStop
  · rw [prepared_update alone.policy heap]
    exact h.timely
  · rw [prepared_update alone.policy heap, alone.context]
    exact h.valid
  · rw [locks, alone.targets]
    exact h.locked

/-- Whatever is in the queue is blocked in every pass. -/
def AllBlocked (cfg : Config) (now : ℚ) (timedOut : Nat → Nat → Bool) (rt : Runtime) : Prop :=
  rt.queue ≠ [] ∧ ∀ q ∈ rt.queue, ∀ k, Blocked cfg (passCall now timedOut k) rt q.intent

theorem blocked_dequeued {call : ProcessCall} {s : Runtime} (queue : List QueuedIntent) (ref : Ref) :
    Blocked cfg call { s with queue := queue } ref ↔ Blocked cfg call s ref := blocked_congr rfl rfl rfl rfl Iff.rfl

theorem AllBlocked.pass {s : Runtime} (h : AllBlocked cfg now timedOut s) (k : Nat) :
    Ends (processNext cfg (passCall now timedOut k)) s (fun result s' => result.isSome = true ∧ AllBlocked cfg now timedOut s')
      fun _ _ => False := by
  obtain ⟨nonempty, blocked⟩ := h
  obtain ⟨q, rest, queue⟩ := List.exists_cons_of_ne_nil nonempty
  have head : ∀ k, Blocked cfg (passCall now timedOut k) { s with queue := rest } q.intent := fun k =>
    (blocked_dequeued rest q.intent).mpr (blocked q (by rw [queue]; exact List.mem_cons_self) k)
  rw [processNext, ends_bind, ends_get]
  simp only [queue]
  rw [ends_bind, ends_set, ends_bind]
  refine ((drained_processIntent (passCall now timedOut k) rfl rfl rfl { s with queue := rest } q.intent).and
    (ends_processIntent cfg (passCall now timedOut k) { s with queue := rest } q.intent)).imp ?_ fun _ _ ended => ended.1 (head k)
  rintro record s' ⟨drained, alone, _⟩
  cases drained with
  | gone free => exact absurd (head k) free
  | degraded free => exact absurd (head k) free
  | delayed _ q' own queue' _ heap locks state =>
    refine ends_pure.mpr ⟨rfl, ?_, fun x member k => ?_⟩
    · rw [queue']
      exact List.ne_nil_of_mem ((insertQueued_perm q' rest).mem_iff.mpr List.mem_cons_self)
    · have before : Blocked cfg (passCall now timedOut k) { s with queue := rest } x.intent := by
        rw [queue', (insertQueued_perm q' rest).mem_iff] at member
        rcases List.mem_cons.mp member with rfl | later
        · rw [own]
          exact head k
        · exact (blocked_dequeued rest x.intent).mpr (blocked x (by rw [queue]; exact List.mem_cons_of_mem _ later) k)
      exact before.after_delay alone heap locks state

/-- From then on the loop goes round. -/
theorem AllBlocked.endless {k : Nat} {s : Runtime} (here : loopState cfg now timedOut rt k = some s)
    (h : AllBlocked cfg now timedOut s) (n : Nat) : ∃ s', loopState cfg now timedOut rt (k + n) = some s' ∧ AllBlocked cfg now timedOut s' := by
  induction n with
  | zero => exact ⟨s, here, h⟩
  | succ n ih =>
    obtain ⟨s', there, blocked⟩ := ih
    have pass := blocked.pass (k + n)
    rw [← Nat.add_assoc, loopState, there, Option.bind_some]
    cases run : (processNext cfg (passCall now timedOut (k + n))).run s' with
    | error e s'' => exact (pass.of_run_error run).elim
    | ok result s'' =>
      obtain ⟨returned, blocked'⟩ := pass.of_run_ok run
      obtain ⟨record, rfl⟩ := Option.isSome_iff_exists.mp returned
      exact ⟨s'', rfl, blocked'⟩

theorem not_terminates_of_allBlocked {k : Nat} {s : Runtime} (here : loopState cfg now timedOut rt k = some s)
    (h : AllBlocked cfg now timedOut s) : ¬Terminates cfg now timedOut rt := by
  intro terminates
  obtain ⟨n, ended⟩ := terminates_iff_loopState.mp terminates
  obtain ⟨s', there, _⟩ := h.endless here n
  rw [loopState_ended (Nat.le_add_left n k) ended] at there
  cases there

end

/-- Two executable intents on one target are queued. -/
def twoQueued : Runtime :=
  @runAll PyText.ascii plainConfig [.admitIntent 0 0 true, .admitIntent 1 0 true] (plainRuntime threeIntents)

/-- No evaluation takes too long. -/
def prompt : Nat → Nat → Bool := fun _ _ => false

/-- What the first pass leaves: only `b` is queued, and `a` has its target. -/
theorem twoQueued_first : ∃ s, @loopState PyText.ascii plainConfig 0 prompt twoQueued 1 = some s ∧
    @AllBlocked PyText.ascii plainConfig 0 prompt s := by
  obtain ⟨s, here⟩ : ∃ s, @loopState PyText.ascii plainConfig 0 prompt twoQueued 1 = some s :=
    Option.isSome_iff_exists.mp (by decide +kernel)
  have queue : (@loopState PyText.ascii plainConfig 0 prompt twoQueued 1).map (fun s => s.queue.map QueuedIntent.intent) =
    some [1] := by decide +kernel
  have opened : (@loopState PyText.ascii plainConfig 0 prompt twoQueued 1).map (fun s =>
    (s.records.get (s.heap 1).id).all fun record => record.state.validatable) = some true := by decide +kernel
  have notStop : (@loopState PyText.ascii plainConfig 0 prompt twoQueued 1).map (fun s =>
    decide (@Policy.actionClass PyText.ascii s.policy (s.heap 1) ≠ .stop)) = some true := by decide +kernel
  have timely : (@loopState PyText.ascii plainConfig 0 prompt twoQueued 1).map (fun s =>
    (plainConfig.validate (@Runtime.prepared PyText.ascii s 1) 0).1) = some true := by decide +kernel
  have valid : (@loopState PyText.ascii plainConfig 0 prompt twoQueued 1).map (fun s =>
    ((@Runtime.prepared PyText.ascii s 1).safetyConstraints, (@Runtime.prepared PyText.ascii s 1).preconditions)) =
      some ([], []) := by decide +kernel
  have locked : (@loopState PyText.ascii plainConfig 0 prompt twoQueued 1).map (fun s =>
    decide ((s.heap 1).target ∈ s.activeTargets)) = some true := by decide +kernel
  rw [here, Option.map_some, Option.some.injEq] at queue opened notStop timely valid locked
  obtain ⟨safety, pre⟩ := Prod.mk.inj valid
  refine ⟨s, here, fun empty => ?_, fun q member k => ?_⟩
  · rw [empty] at queue
    cases queue
  · have own : q.intent = 1 := by
      have listed := List.mem_map_of_mem (f := QueuedIntent.intent) member
      rw [queue] at listed
      exact List.mem_singleton.mp listed
    rw [own]
    refine @Blocked.mk PyText.ascii _ _ _ _ (fun record stored => ?_) (of_decide_eq_true notStop) timely
      ⟨"context_ok".toList, ?_⟩ (of_decide_eq_true locked)
    · rw [stored] at opened
      exact opened
    · have emptyOk : @evaluatePredicates PyText.ascii (passCall 0 prompt k).timedOut [] [] s.context =
          .ok (true, "context_ok".toList) := rfl
      rw [safety, pre]
      exact emptyOk

theorem twoQueued_endless :
    ¬∀ (cfg : Config) (now : ℚ) (timedOut : Nat → Nat → Bool) (ops : List Operation),
      @Terminates PyText.ascii cfg now timedOut (@runAll PyText.ascii cfg ops (plainRuntime threeIntents)) := by
  intro terminates
  obtain ⟨s, here, blocked⟩ := twoQueued_first
  exact @not_terminates_of_allBlocked PyText.ascii _ _ _ _ _ _ here blocked
    (terminates plainConfig 0 prompt [.admitIntent 0 0 true, .admitIntent 1 0 true])

end Xair
