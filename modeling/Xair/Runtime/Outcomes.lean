import Xair.Runtime.Operations
import Xair.Library.Ends

/-!
# How operations end

One lemma per operation, returned and raised alike: which records it leaves alone,
the state it leaves its own record in, and the targets it locks or frees.
-/

namespace Xair

open Library

/-! ### Lifecycle steps -/

section

variable {rt : Runtime} {id : Str} {record : IntentRecord}

theorem ends_transition (found : rt.records.get id = some record) {state : IntentState}
    (allowed : state ∈ record.state.allowed) {outcome : Option DecisionOutcome} {reason : Str}
    {ok : IntentRecord → Runtime → Prop} {raised : RuntimeError → Runtime → Prop} :
    Ends (transition id state outcome reason) rt ok raised ↔
      ok (Runtime.movedRecord record state outcome reason) (rt.move id record state outcome reason) := by
  rw [transition, ends_bind, ends_get]
  simp only [found]
  rw [if_pos allowed]
  rfl

theorem ends_transition_refused (found : rt.records.get id = some record) {state : IntentState}
    (refused : state ∉ record.state.allowed) {outcome : Option DecisionOutcome} {reason : Str}
    {ok : IntentRecord → Runtime → Prop} {raised : RuntimeError → Runtime → Prop} :
    Ends (transition id state outcome reason) rt ok raised ↔
      raised (.invalidTransition id record.state state) rt := by
  rw [transition, ends_bind, ends_get]
  simp only [found]
  rw [if_neg refused]
  rfl

theorem ends_assign (found : rt.records.get id = some record) {f : IntentRecord → IntentRecord}
    {ok : PUnit → Runtime → Prop} {raised : RuntimeError → Runtime → Prop} :
    Ends (assign id f) rt ok raised ↔ ok ⟨⟩ (rt.putRecord id (f record)) := by
  simp only [assign, ends_modify, found]

/-- Assignments to a record followed by its transition. -/
theorem ends_assign_transition (found : rt.records.get id = some record) {f : IntentRecord → IntentRecord}
    {state : IntentState} (allowed : state ∈ (f record).state.allowed) {outcome : Option DecisionOutcome} {reason : Str}
    {α : Type} {k : IntentRecord → RuntimeM α} {ok : α → Runtime → Prop} {raised : RuntimeError → Runtime → Prop} :
    Ends (do assign id f; let a ← transition id state outcome reason; k a) rt ok raised ↔
      Ends (k (Runtime.movedRecord (f record) state outcome reason))
        ((rt.putRecord id (f record)).move id (f record) state outcome reason) ok raised := by
  rw [ends_bind, ends_assign found, ends_bind]
  exact ends_transition (Dict.get_insert_self _ _ _) allowed

end

/-! ### Frames -/

/-- What an operation on one intent leaves alone: all other records, what every intent is
about, and the parts of the runtime that only admission and the operator write. -/
structure Local (id : Str) (rt rt' : Runtime) : Prop where
  others : ∀ other, other ≠ id → rt'.records.get other = rt.records.get other
  ids : ∀ r, (rt'.heap r).id = (rt.heap r).id
  targets : ∀ r, (rt'.heap r).target = (rt.heap r).target
  actions : ∀ r, (rt'.heap r).payload.actionType = (rt.heap r).payload.actionType
  audit : ∃ more, rt'.audit = rt.audit ++ more ∧ ∀ e ∈ more, e.intentId = id
  seen : rt'.seen = rt.seen
  policy : rt'.policy = rt.policy
  context : rt'.context = rt.context
  contextVersion : rt'.contextVersion = rt.contextVersion

namespace Local

variable {id : Str} {rt rt' rt'' : Runtime}

theorem refl (id : Str) (rt : Runtime) : Local id rt rt :=
  ⟨fun _ _ => rfl, fun _ => rfl, fun _ => rfl, fun _ => rfl, ⟨[], by simp, fun _ h => absurd h List.not_mem_nil⟩, rfl, rfl, rfl,
    rfl⟩

theorem trans (h : Local id rt rt') (h' : Local id rt' rt'') : Local id rt rt'' := by
  obtain ⟨more, appended, own⟩ := h.audit
  obtain ⟨more', appended', own'⟩ := h'.audit
  refine ⟨fun other ne => (h'.others other ne).trans (h.others other ne), fun r => (h'.ids r).trans (h.ids r),
    fun r => (h'.targets r).trans (h.targets r), fun r => (h'.actions r).trans (h.actions r),
    ⟨more ++ more', ?_, ?_⟩, h'.seen.trans h.seen,
    h'.policy.trans h.policy, h'.context.trans h.context, h'.contextVersion.trans h.contextVersion⟩
  · rw [appended', appended, List.append_assoc]
  · intro e member
    rcases List.mem_append.mp member with first | later
    · exact own e first
    · exact own' e later

theorem putRecord (h : Local id rt rt') (record : IntentRecord) : Local id rt (rt'.putRecord id record) :=
  h.trans ⟨fun _ ne => Dict.get_insert_ne _ _ ne, fun _ => rfl, fun _ => rfl, fun _ => rfl,
    ⟨[], by simp [Runtime.putRecord], fun _ h => absurd h List.not_mem_nil⟩, rfl, rfl, rfl, rfl⟩

theorem log (h : Local id rt rt') (state : IntentState) (outcome : Option DecisionOutcome) (reason : Str) :
    Local id rt (rt'.log ⟨id, state, outcome, reason⟩) :=
  h.trans ⟨fun _ _ => rfl, fun _ => rfl, fun _ => rfl, fun _ => rfl,
    ⟨[⟨id, state, outcome, reason⟩], rfl, fun _ h => by rw [List.mem_singleton.mp h]⟩, rfl, rfl, rfl, rfl⟩

theorem move (h : Local id rt rt') (record : IntentRecord) (state : IntentState) (outcome : Option DecisionOutcome)
    (reason : Str) : Local id rt (rt'.move id record state outcome reason) :=
  (h.putRecord _).log state outcome reason

/-- A write to locks, counters, the queue or the callback's calls. -/
theorem aside (h : Local id rt rt') (records : rt''.records = rt'.records) (heap : rt''.heap = rt'.heap)
    (audit : rt''.audit = rt'.audit) (seen : rt''.seen = rt'.seen) (policy : rt''.policy = rt'.policy)
    (context : rt''.context = rt'.context) (contextVersion : rt''.contextVersion = rt'.contextVersion) :
    Local id rt rt'' :=
  h.trans ⟨fun _ _ => by rw [records], fun _ => by rw [heap], fun _ => by rw [heap], fun _ => by rw [heap],
    ⟨[], by rw [audit, List.append_nil], fun _ h => absurd h List.not_mem_nil⟩, seen, policy, context, contextVersion⟩

theorem count (h : Local id rt rt') (f : Metrics → Metrics) : Local id rt (rt'.count f) :=
  h.aside rfl rfl rfl rfl rfl rfl rfl

theorem acquire (h : Local id rt rt') (target : Str) : Local id rt (rt'.acquire target) :=
  h.aside rfl rfl rfl rfl rfl rfl rfl

theorem release (h : Local id rt rt') (target : Str) : Local id rt (rt'.release target) :=
  h.aside rfl rfl rfl rfl rfl rfl rfl

theorem submit (h : Local id rt rt') (requeue : Bool) (ref : Ref) :
    Local id rt (if requeue then rt'.submit ref else rt') := by
  split
  · exact h.aside rfl rfl rfl rfl rfl rfl rfl
  · exact h

theorem putIntent (h : Local id rt rt') {ref : Ref} {i : ActionIntent} (same : i.id = (rt'.heap ref).id)
    (target : i.target = (rt'.heap ref).target) (action : i.payload.actionType = (rt'.heap ref).payload.actionType) :
    Local id rt (rt'.putIntent ref i) := by
  refine h.trans ⟨fun _ _ => rfl, fun r => ?_, fun r => ?_, fun r => ?_,
    ⟨[], (List.append_nil _).symm, fun _ h => absurd h List.not_mem_nil⟩, rfl, rfl, rfl, rfl⟩
  · rw [Runtime.heap_putIntent]
    split
    · rename_i here
      rw [here, same]
    · rfl
  · rw [Runtime.heap_putIntent]
    split
    · rename_i here
      rw [here, target]
    · rfl
  · rw [Runtime.heap_putIntent]
    split
    · rename_i here
      rw [here, action]
    · rfl

end Local

theorem IntentState.pending_of_validatable {s : IntentState} (h : s.validatable = true) : .pending ∈ s.allowed := by
  cases s <;> first | decide | cases h

/-! ### Parts of a pass, once the record is `VALIDATING` -/

section

variable {rt : Runtime} {id : Str} {record : IntentRecord}

theorem ends_authorizeStop (found : rt.records.get id = some record) (state : record.state = .validating)
    (ref : Ref) (installed : Nat) :
    Ends (authorizeStop ref id installed) rt
      (fun a rt' => Local id rt rt' ∧ rt'.records.get id = some a ∧ a.state = .authorized ∧
        a.actionClass = record.actionClass ∧ rt'.activeTargets = rt.activeTargets ∧ a.intent = ref)
      fun _ _ => False := by
  rw [authorizeStop, ends_bind, ends_modify]
  refine (ends_assign_transition (by exact found) (by simp [state, IntentState.allowed])).mpr ?_
  rw [ends_bind, ends_modify, ends_pure]
  exact ⟨((((Local.refl id rt).putIntent (by exact rfl) (by exact rfl) (by exact rfl)).putRecord _).move _ _ _ _).count _,
    Dict.get_insert_self _ _ _, rfl, rfl, rfl, rfl⟩

theorem ends_revokeStale (found : rt.records.get id = some record) (state : record.state = .validating)
    (installed : Nat) :
    Ends (revokeStale id installed) rt
      (fun a rt' => Local id rt rt' ∧ rt'.records.get id = some a ∧ a.state = .revoked ∧
        a.outcome = some .revoke ∧ rt'.activeTargets = rt.activeTargets)
      fun _ _ => False := by
  rw [revokeStale]
  refine (ends_assign_transition (by exact found) (by simp [state, IntentState.allowed])).mpr ?_
  rw [ends_bind, ends_modify, ends_pure]
  exact ⟨(((Local.refl id rt).putRecord _).move _ _ _ _).count _, Dict.get_insert_self _ _ _, rfl, rfl, rfl⟩

end

section

variable [PyText]

/-! ### A validation pass -/

/-- The intent of a pass with the policy's predicates added. -/
def Runtime.prepared (rt : Runtime) (ref : Ref) : ActionIntent := (rt.policy.applyTo (rt.heap ref)).1

/-- The context a pass evaluates. -/
def ProcessCall.snapshot (call : ProcessCall) (rt : Runtime) : Members := call.context.getD rt.context

/-- Its version. -/
def ProcessCall.version (call : ProcessCall) (rt : Runtime) : Nat :=
  match call.context with
  | none => rt.contextVersion
  | some _ => call.contextVersion.getD rt.contextVersion

/-- The record a pass works on is still open to validation. -/
def Runtime.Open (rt : Runtime) (id : Str) : Prop :=
  ∀ record, rt.records.get id = some record → record.state.validatable = true

/-- What authorizing an intent that is not a stop takes: a free target and valid predicates. -/
structure Authorized (call : ProcessCall) (rt : Runtime) (ref : Ref) (record : IntentRecord) : Prop where
  state : record.state = .authorized
  outcome : record.outcome = some .execute
  cls : record.actionClass = rt.policy.actionClass (rt.heap ref)
  notStop : record.actionClass ≠ .stop
  intent : record.intent = ref
  free : (rt.heap ref).target ∉ rt.activeTargets
  valid : ∃ msg, evaluatePredicates call.timedOut (rt.prepared ref).safetyConstraints (rt.prepared ref).preconditions
    (call.snapshot rt) = .ok (true, msg)
  fresh : ∀ v, call.contextVersion = some v → rt.contextVersion ≤ v
  fields : ∃ before, record = { validatedRecord call (rt.prepared ref) (call.version rt) before with
    state := record.state, outcome := record.outcome, reason := record.reason, intent := ref }

/-- How a pass that returns has ended. -/
inductive Verdict (call : ProcessCall) (rt : Runtime) (ref : Ref) (record : IntentRecord) (rt' : Runtime) : Prop
  | kept (present : rt.records.get (rt.heap ref).id = some record) (closed : record.state.validatable = false)
      (same : rt' = rt)
  | stopped (opened : rt.Open (rt.heap ref).id) (stored : rt'.records.get (rt.heap ref).id = some record)
      (state : record.state = .authorized) (cls : record.actionClass = .stop)
      (policy : rt.policy.actionClass (rt.heap ref) = .stop)
      (locks : rt'.activeTargets = rt.activeTargets)
  | refused (opened : rt.Open (rt.heap ref).id) (stored : rt'.records.get (rt.heap ref).id = some record)
      (state : record.state = .delayed ∨ record.state = .degraded ∨ record.state = .revoked ∨ record.state = .expired)
      (outcome : ∃ o, record.outcome = some o ∧ o ≠ .execute)
      (locks : rt'.activeTargets = rt.activeTargets)
  | authorized (opened : rt.Open (rt.heap ref).id) (stored : rt'.records.get (rt.heap ref).id = some record)
      (granted : Authorized call rt ref record)
      (locks : rt'.activeTargets = (rt.acquire (rt.heap ref).target).activeTargets)

/-- How a pass that raises has ended. -/
structure Aborted (rt : Runtime) (id : Str) (rt' : Runtime) : Prop where
  opened : rt.Open id
  state : ∃ record, rt'.records.get id = some record ∧ record.state = .validating
  locks : rt'.activeTargets = rt.activeTargets

section

variable {rt : Runtime} {id : Str} {record : IntentRecord}

theorem ends_conclude_execute (found : rt.records.get id = some record) (state : record.state = .validating)
    (ref : Ref) (requeue : Bool) (reason : Str) :
    Ends (conclude ref id requeue .execute reason) rt
      (fun a rt' => Local id rt rt' ∧ rt'.records.get id = some a ∧
        a = Runtime.movedRecord { record with intent := ref } .authorized (some .execute) reason ∧
        rt'.activeTargets = (rt.acquire (rt.heap ref).target).activeTargets)
      fun _ _ => False := by
  simp only [conclude]
  rw [ends_bind, ends_modify]
  refine (ends_assign_transition (by exact found) (by simp [state, IntentState.allowed])).mpr ?_
  rw [ends_bind, ends_modify, ends_pure]
  exact ⟨((((Local.refl id rt).acquire _).putRecord _).move _ _ _ _).count _,
    Dict.get_insert_self _ _ _, rfl, rfl⟩

/-- A pass that does not execute locks nothing; it raises only before its record has moved. -/
theorem ends_conclude_other (found : rt.records.get id = some record) (state : record.state = .validating)
    (ref : Ref) (requeue : Bool) {outcome : DecisionOutcome} (other : outcome ≠ .execute) (reason : Str) :
    Ends (conclude ref id requeue outcome reason) rt
      (fun a rt' => Local id rt rt' ∧ rt'.records.get id = some a ∧
        (a.state = .delayed ∨ a.state = .degraded ∨ a.state = .revoked ∨ a.state = .expired) ∧
        a.outcome = some outcome ∧ rt'.activeTargets = rt.activeTargets)
      fun _ rt' => rt' = rt := by
  cases outcome with
  | execute => exact absurd rfl other
  | degrade =>
    simp only [conclude]
    rw [ends_bind, ends_get]
    cases degraded : applyDegradation (rt.heap ref) with
    | error e => exact ends_throw.mpr rfl
    | ok i =>
      obtain ⟨same, target, action, _⟩ := applyDegradation_ok degraded
      simp only
      rw [ends_bind, ends_modify]
      refine (ends_assign_transition (by exact found) (by simp [state, IntentState.allowed])).mpr ?_
      rw [ends_bind, ends_modify, ends_bind, ends_modify, ends_pure]
      refine ⟨(((((Local.refl id rt).putIntent same target action).putRecord _).move _ _ _ _).count _).submit _ _,
        ?_, Or.inr (Or.inl rfl), rfl, ?_⟩ <;> split
      · exact Dict.get_insert_self _ _ _
      · exact Dict.get_insert_self _ _ _
      · rfl
      · rfl
  | delay =>
    simp only [conclude]
    rw [ends_bind]
    refine (ends_transition found (by simp [state, IntentState.allowed])).mpr ?_
    rw [ends_bind, ends_modify, ends_bind, ends_modify, ends_pure]
    refine ⟨(((Local.refl id rt).move _ _ _ _).count _).submit _ _, ?_, Or.inl rfl, rfl, ?_⟩ <;> split
    · exact Dict.get_insert_self _ _ _
    · exact Dict.get_insert_self _ _ _
    · rfl
    · rfl
  | revoke =>
    simp only [conclude]
    rw [ends_bind]
    refine (ends_transition found (by rw [state]; split <;> decide)).mpr ?_
    rw [ends_bind, ends_modify, ends_pure]
    refine ⟨((Local.refl id rt).move _ _ _ _).count _, Dict.get_insert_self _ _ _, ?_, rfl, rfl⟩
    simp only [Runtime.movedRecord]
    split
    · exact Or.inr (Or.inr (Or.inr rfl))
    · exact Or.inr (Or.inr (Or.inl rfl))

end

/-- The start of a pass: the record is registered if it was not, and is `VALIDATING`. -/
structure Begun (rt : Runtime) (ref : Ref) (rt' : Runtime) (record : IntentRecord) : Prop where
  opened : rt.Open (rt.heap ref).id
  alone : Local (rt.heap ref).id rt rt'
  stored : rt'.records.get (rt.heap ref).id = some record
  state : record.state = .validating
  cls : record.actionClass = rt.policy.actionClass (rt.heap ref)
  heap : rt'.heap = rt.heap
  locks : rt'.activeTargets = rt.activeTargets

/-- An evaluation has decided; its record is about to move. -/
structure Evaluated (cfg : Config) (call : ProcessCall) (rt : Runtime) (ref : Ref) (rt' : Runtime) (record : IntentRecord)
    (outcome : DecisionOutcome) (reason : Str) : Prop where
  alone : Local (rt.heap ref).id rt rt'
  stored : rt'.records.get (rt.heap ref).id = some record
  state : record.state = .validating
  cls : record.actionClass = rt.policy.actionClass (rt.heap ref)
  heap : rt'.heap = Function.update rt.heap ref (rt.prepared ref)
  locks : rt'.activeTargets = rt.activeTargets
  decided : decision cfg call rt (rt.prepared ref) (call.snapshot rt) = .ok (outcome, reason)
  fields : ∃ before, record = validatedRecord call (rt.prepared ref) (call.version rt) before

theorem Runtime.prepared_target (rt : Runtime) (ref : Ref) : (rt.prepared ref).target = (rt.heap ref).target :=
  congrArg ActionDescriptor.targetEntity (Policy.applyTo_payload _ _)

/-- An evaluation raises with its record still `VALIDATING`, or goes on with its decision. -/
theorem ends_evaluate_decided {cfg : Config} {call : ProcessCall} {rt rt' : Runtime} {ref : Ref} {record : IntentRecord}
    (begun : Begun rt ref rt' record) {ok : IntentRecord → Runtime → Prop} {raised : RuntimeError → Runtime → Prop}
    (raises : ∀ rt₁ r₁ e, Local (rt.heap ref).id rt rt₁ → rt₁.records.get (rt.heap ref).id = some r₁ → r₁.state = .validating →
      rt₁.activeTargets = rt.activeTargets →
        decision cfg call rt (rt.prepared ref) (call.snapshot rt) = .error e → raised (.py e) rt₁)
    (concludes : ∀ rt₁ r₁ outcome reason, Evaluated cfg call rt ref rt₁ r₁ outcome reason → rt₁.queue = rt'.queue →
      Ends (conclude ref (rt.heap ref).id call.requeue outcome reason) rt₁ ok raised) :
    Ends (evaluate cfg call ref (rt.heap ref).id (call.snapshot rt) (call.version rt)) rt' ok raised := by
  obtain ⟨opened, alone, stored, state, cls, heap, locks⟩ := begun
  have prepared : rt'.policy.applyTo (rt'.heap ref) = rt.policy.applyTo (rt.heap ref) := by
    rw [alone.policy, heap]
  have written : Local (rt.heap ref).id rt (rt'.putIntent ref (rt.prepared ref)) :=
    alone.putIntent (by rw [heap]; exact Policy.applyTo_id _ _) (by rw [heap]; exact rt.prepared_target ref)
      (by rw [heap]; exact congrArg ActionDescriptor.actionType (Policy.applyTo_payload _ _))
  rw [evaluate, ends_bind, ends_get]
  simp only [prepared]
  rw [ends_bind, ends_set, ends_bind]
  refine (ends_assign (by exact stored)).mpr ?_
  rw [ends_bind, ends_get]
  generalize added : (rt.policy.applyTo (rt.heap ref)).2 = policyPredicates
  have state : { record with policyPredicates := policyPredicates }.state = .validating := state
  have cls : { record with policyPredicates := policyPredicates }.actionClass = rt.policy.actionClass (rt.heap ref) := cls
  generalize { record with policyPredicates := policyPredicates } = named at state cls
  have written := written.putRecord named
  have stored : ((rt'.putIntent ref (rt.prepared ref)).putRecord (rt.heap ref).id named).records.get (rt.heap ref).id =
      some named := Dict.get_insert_self _ _ _
  have heap : ((rt'.putIntent ref (rt.prepared ref)).putRecord (rt.heap ref).id named).heap =
      Function.update rt.heap ref (rt.prepared ref) := by
    change Function.update rt'.heap ref (rt.prepared ref) = _
    rw [heap]
  have locks : ((rt'.putIntent ref (rt.prepared ref)).putRecord (rt.heap ref).id named).activeTargets = rt.activeTargets :=
    locks
  have queue : ((rt'.putIntent ref (rt.prepared ref)).putRecord (rt.heap ref).id named).queue = rt'.queue := rfl
  have same : decision cfg call ((rt'.putIntent ref (rt.prepared ref)).putRecord (rt.heap ref).id named) (rt.prepared ref)
      (call.snapshot rt) = decision cfg call rt (rt.prepared ref) (call.snapshot rt) := by
    rw [decision, decision, Runtime.busy, Runtime.busy, locks]
  rw [show (rt.policy.applyTo (rt.heap ref)).1 = rt.prepared ref from rfl, same]
  generalize (rt'.putIntent ref (rt.prepared ref)).putRecord (rt.heap ref).id named = rt₁ at *
  cases decided : decision cfg call rt (rt.prepared ref) (call.snapshot rt) with
  | error e => exact ends_throw.mpr (raises rt₁ named e written stored state locks decided)
  | ok verdict =>
    obtain ⟨outcome, reason⟩ := verdict
    simp only
    rw [ends_bind]
    refine (ends_assign stored).mpr ?_
    refine concludes _ (validatedRecord call (rt.prepared ref) (call.version rt) named) outcome reason ?_ queue
    exact ⟨written.putRecord _, Dict.get_insert_self _ _ _, state, cls, heap, locks, decided, named, rfl⟩

/-- Executed is what is timely, valid, and on a free target. -/
theorem Evaluated.execute {cfg : Config} {call : ProcessCall} {rt rt' : Runtime} {ref : Ref} {record : IntentRecord}
    {reason : Str} (h : Evaluated cfg call rt ref rt' record .execute reason) :
    (rt.heap ref).target ∉ rt.activeTargets ∧
      ∃ msg, evaluatePredicates call.timedOut (rt.prepared ref).safetyConstraints (rt.prepared ref).preconditions
        (call.snapshot rt) = .ok (true, msg) := by
  have decided := h.decided
  rw [decision] at decided
  cases evaluated : evaluatePredicates call.timedOut (rt.prepared ref).safetyConstraints
      (rt.prepared ref).preconditions (call.snapshot rt) with
  | error e => rw [evaluated] at decided; cases decided
  | ok context =>
    rw [evaluated] at decided
    obtain ⟨_, valid, free⟩ := decideOutcome_execute (Except.ok.inj decided)
    obtain ⟨ok, msg⟩ := context
    obtain rfl : ok = true := valid
    rw [Runtime.busy, rt.prepared_target, ← Bool.not_eq_true, List.contains_iff_mem] at free
    exact ⟨free, msg, rfl⟩

theorem ends_evaluate {cfg : Config} {call : ProcessCall} {rt rt' : Runtime} {ref : Ref} {record : IntentRecord}
    (begun : Begun rt ref rt' record) (notStop : rt.policy.actionClass (rt.heap ref) ≠ .stop)
    (fresh : ∀ v, call.contextVersion = some v → rt.contextVersion ≤ v) :
    Ends (evaluate cfg call ref (rt.heap ref).id (call.snapshot rt) (call.version rt)) rt'
      (fun a rt'' => Local (rt.heap ref).id rt rt'' ∧ Verdict call rt ref a rt'')
      fun _ rt'' => Local (rt.heap ref).id rt rt'' ∧ Aborted rt (rt.heap ref).id rt'' := by
  apply ends_evaluate_decided begun
  · intro rt₁ r₁ e alone stored state locks _
    exact ⟨alone, begun.opened, ⟨r₁, stored, state⟩, locks⟩
  · intro rt₁ r₁ outcome reason h _
    by_cases execute : outcome = .execute
    · subst execute
      refine (ends_conclude_execute h.stored h.state _ _ _).imp ?_ (fun _ _ h => h.elim)
      rintro a rt'' ⟨local', stored', rfl, locks'⟩
      obtain ⟨free, valid⟩ := h.execute
      obtain ⟨before, rfl⟩ := h.fields
      refine ⟨h.alone.trans local', .authorized begun.opened stored' ⟨rfl, rfl, h.cls, ?_, rfl, free, valid, fresh, ⟨before, rfl⟩⟩ ?_⟩
      · exact fun stop => notStop (h.cls.symm.trans stop)
      · rw [locks', h.heap, Function.update_self, rt.prepared_target, Runtime.acquire, Runtime.acquire, h.locks]
    · refine (ends_conclude_other h.stored h.state _ _ execute _).imp ?_ ?_
      · rintro a rt'' ⟨local', stored', state', outcome', locks'⟩
        exact ⟨h.alone.trans local', .refused begun.opened stored' state' ⟨_, outcome', execute⟩ (locks'.trans h.locks)⟩
      · rintro _ rt'' rfl
        exact ⟨h.alone, begun.opened, ⟨_, h.stored, h.state⟩, h.locks⟩

theorem Verdict.of_begun {call : ProcessCall} {rt rt₁ : Runtime} {ref : Ref} {record : IntentRecord} {rt' : Runtime}
    (h : Verdict call rt₁ ref record rt') (heap : rt₁.heap = rt.heap) (locks : rt₁.activeTargets = rt.activeTargets) (policy : rt₁.policy = rt.policy)
    (context : rt₁.context = rt.context) (contextVersion : rt₁.contextVersion = rt.contextVersion)
    (opened : rt.Open (rt.heap ref).id) (reopened : rt₁.Open (rt.heap ref).id) :
    Verdict call rt ref record rt' := by
  cases h with
  | kept present closed same =>
    rw [heap] at present
    rw [reopened _ present] at closed
    cases closed
  | stopped _ stored state cls policy' locks' =>
    exact .stopped opened (heap ▸ stored) state cls (by rw [← policy', policy, heap]) (locks'.trans locks)
  | refused _ stored state outcome locks' =>
    exact .refused opened (heap ▸ stored) state outcome (locks'.trans locks)
  | authorized _ stored granted locks' =>
    have prepared : rt₁.prepared ref = rt.prepared ref := by rw [Runtime.prepared, Runtime.prepared, policy, heap]
    have snapshot : call.snapshot rt₁ = call.snapshot rt := by rw [ProcessCall.snapshot, ProcessCall.snapshot, context]
    have version : call.version rt₁ = call.version rt := by
      rw [ProcessCall.version, ProcessCall.version, contextVersion]
    refine .authorized opened (heap ▸ stored) ⟨granted.state, granted.outcome, ?_, granted.notStop, granted.intent, ?_, ?_, ?_, ?_⟩ ?_
    · rw [granted.cls, policy, heap]
    · rw [← heap, ← locks]; exact granted.free
    · rw [← prepared, ← snapshot]; exact granted.valid
    · rw [← contextVersion]; exact granted.fresh
    · rw [← prepared, ← version]; exact granted.fields
    · rw [locks', heap, Runtime.acquire, Runtime.acquire, locks]

/-- A pass that has begun authorizes a stop, revokes on a stale snapshot, or evaluates. -/
theorem ends_validationPass_begun (cfg : Config) (call : ProcessCall) {rt : Runtime} (ref : Ref) {record : IntentRecord}
    (found : rt.records.get (rt.heap ref).id = some record) (opened : record.state.validatable = true)
    {ok : IntentRecord → Runtime → Prop} {raised : RuntimeError → Runtime → Prop}
    (stop : ∀ rt' r, Begun rt ref rt' r → rt'.queue = rt.queue → rt.policy.actionClass (rt.heap ref) = .stop →
      Ends (authorizeStop ref (rt.heap ref).id rt.contextVersion) rt' ok raised)
    (stale : ∀ rt' r, Begun rt ref rt' r → rt'.queue = rt.queue → rt.policy.actionClass (rt.heap ref) ≠ .stop →
      (call.contextVersion.any fun v => decide (v < rt.contextVersion)) = true →
        Ends (revokeStale (rt.heap ref).id rt.contextVersion) rt' ok raised)
    (evaluates : ∀ rt' r, Begun rt ref rt' r → rt'.queue = rt.queue → rt.policy.actionClass (rt.heap ref) ≠ .stop →
      (∀ v, call.contextVersion = some v → rt.contextVersion ≤ v) →
        Ends (evaluate cfg call ref (rt.heap ref).id (call.snapshot rt) (call.version rt)) rt' ok raised) :
    Ends (validationPass cfg call ref) rt ok raised := by
  have isOpen : rt.Open (rt.heap ref).id := fun r stored => by
    rw [found] at stored
    exact Option.some.inj stored ▸ opened
  rw [validationPass, ends_bind, ends_get]
  simp only
  rw [ends_bind]
  refine (ends_transition found (IntentState.pending_of_validatable opened)).mpr ?_
  rw [ends_bind]
  refine (ends_transition (Dict.get_insert_self _ _ _) List.mem_cons_self).mpr ?_
  rw [ends_bind]
  refine (ends_assign (Dict.get_insert_self _ _ _)).mpr ?_
  generalize begun : Runtime.putRecord _ _ _ = rt₁
  obtain ⟨r₁, h, queue⟩ : ∃ r₁, Begun rt ref rt₁ r₁ ∧ rt₁.queue = rt.queue := by
    subst begun
    exact ⟨_, ⟨isOpen, (((Local.refl _ rt).move _ _ _ _).move _ _ _ _).putRecord _, Dict.get_insert_self _ _ _, rfl, rfl,
      rfl, rfl⟩, rfl⟩
  split
  · rename_i isStop
    exact stop rt₁ r₁ h queue (of_decide_eq_true isStop)
  · rename_i notStop
    have notStop : rt.policy.actionClass (rt.heap ref) ≠ .stop := fun same => notStop (by rw [same]; rfl)
    split
    · rename_i isStale
      exact stale rt₁ r₁ h queue notStop isStale
    · rename_i notStale
      refine evaluates rt₁ r₁ h queue notStop fun v supplied => ?_
      rw [supplied, Option.any_some, decide_eq_true_eq] at notStale
      exact Nat.le_of_not_lt notStale

theorem ends_validationPass (cfg : Config) (call : ProcessCall) {rt : Runtime} (ref : Ref) {record : IntentRecord}
    (found : rt.records.get (rt.heap ref).id = some record) (opened : record.state.validatable = true) :
    Ends (validationPass cfg call ref) rt
      (fun a rt' => Local (rt.heap ref).id rt rt' ∧ Verdict call rt ref a rt')
      fun _ rt' => Local (rt.heap ref).id rt rt' ∧ Aborted rt (rt.heap ref).id rt' := by
  apply ends_validationPass_begun cfg call ref found opened
  · intro rt₁ r₁ h _ stop
    refine (ends_authorizeStop h.stored h.state _ _).imp ?_ (fun _ _ h => h.elim)
    rintro a rt' ⟨alone, stored, state, cls, locks, _⟩
    exact ⟨h.alone.trans alone, .stopped h.opened stored state (cls.trans (h.cls.trans stop)) stop (locks.trans h.locks)⟩
  · intro rt₁ r₁ h _ _ _
    refine (ends_revokeStale h.stored h.state _).imp ?_ (fun _ _ h => h.elim)
    rintro a rt' ⟨alone, stored, state, outcome, locks⟩
    exact ⟨h.alone.trans alone, .refused h.opened stored (Or.inr (Or.inr (Or.inl state))) ⟨_, outcome, by decide⟩
      (locks.trans h.locks)⟩
  · intro rt₁ r₁ h _ notStop fresh
    exact ends_evaluate h notStop fresh

/-- `process_intent`: it leaves every other record alone, and ends in one of four ways or raises. -/
theorem ends_processIntent (cfg : Config) (call : ProcessCall) (rt : Runtime) (ref : Ref) :
    Ends (processIntent cfg call ref) rt
      (fun a rt' => Local (rt.heap ref).id rt rt' ∧ Verdict call rt ref a rt')
      fun _ rt' => Local (rt.heap ref).id rt rt' ∧ Aborted rt (rt.heap ref).id rt' := by
  rw [processIntent, ends_bind, ends_get]
  cases found : rt.records.get (rt.heap ref).id with
  | some record =>
    simp only
    split
    · rename_i opened
      exact ends_validationPass cfg call ref found opened
    · rename_i closed
      exact ends_pure.mpr ⟨Local.refl _ _, .kept found (Bool.eq_false_iff.mpr closed) rfl⟩
  | none =>
    simp only
    rw [ends_bind, ends_set]
    have isOpen : rt.Open (rt.heap ref).id := fun r stored => by
      rw [found] at stored
      cases stored
    have registered : Local (rt.heap ref).id rt (rt.register ref) :=
      ((Local.refl _ rt).putRecord _).log _ _ _
    have stored : (rt.register ref).records.get ((rt.register ref).heap ref).id = some (.fresh ref) :=
      Dict.get_insert_self _ _ _
    have reopened : (rt.register ref).Open (rt.heap ref).id := fun r present => by
      obtain rfl := Option.some.inj ((show some _ = some r from stored.symm.trans present))
      rfl
    refine (ends_validationPass cfg call ref stored rfl).imp ?_ ?_
    · rintro a rt' ⟨alone, verdict⟩
      exact ⟨registered.trans alone, verdict.of_begun rfl rfl rfl rfl rfl isOpen reopened⟩
    · rintro _ rt' ⟨alone, _, state, locks⟩
      exact ⟨registered.trans alone, isOpen, state, locks⟩

/-- A stop whose record is open is authorized, whatever the context. -/
theorem ends_processIntent_stop (cfg : Config) (call : ProcessCall) {rt : Runtime} {ref : Ref} {record : IntentRecord}
    (found : rt.records.get (rt.heap ref).id = some record) (opened : record.state.validatable = true)
    (stop : rt.policy.actionClass (rt.heap ref) = .stop) :
    Ends (processIntent cfg call ref) rt
      (fun a rt' => Local (rt.heap ref).id rt rt' ∧ rt'.records.get (rt.heap ref).id = some a ∧ a.state = .authorized ∧
        a.intent = ref ∧ rt'.activeTargets = rt.activeTargets)
      fun _ _ => False := by
  rw [processIntent, ends_bind, ends_get]
  simp only [found, opened, if_true]
  apply ends_validationPass_begun cfg call ref found opened
  · intro rt₁ r₁ h _ _
    refine (ends_authorizeStop h.stored h.state _ _).imp ?_ (fun _ _ h => h.elim)
    rintro a rt' ⟨alone, stored, state, _, locks, intent⟩
    exact ⟨h.alone.trans alone, stored, state, intent, locks.trans h.locks⟩
  · intro _ _ _ _ notStop
    exact absurd stop notStop
  · intro _ _ _ _ notStop
    exact absurd stop notStop

end

/-! ### Reports -/

/-- A report that moved the record of `id` to `state`. -/
structure Settled (id : Str) (rt : Runtime) (record : IntentRecord) (state : IntentState) (a : IntentRecord)
    (rt' : Runtime) : Prop where
  found : rt.records.get id = some record
  alone : Local id rt rt'
  stored : rt'.records.get id = some a
  reached : a.state = state
  allowed : state ∈ record.state.allowed
  intent : a.intent = record.intent
  cls : a.actionClass = record.actionClass
  versions : a.contextVersion = record.contextVersion ∧ a.readSetVersion = record.readSetVersion
  heap : rt'.heap = rt.heap
  logged : ∃ outcome reason, rt'.audit = rt.audit ++ [⟨id, state, outcome, reason⟩]
  consistent : record.Consistent → a.Consistent
  quiet : state ≠ .released → rt'.actuated = rt.actuated

/-- At most a refused report was noted. -/
structure Noted (rt rt' : Runtime) : Prop where
  records : rt'.records = rt.records
  heap : rt'.heap = rt.heap
  locks : rt'.activeTargets = rt.activeTargets
  audit : rt'.audit = rt.audit ∨ ∃ id record reason, rt.records.get id = some record ∧
    rt'.audit = rt.audit ++ [⟨id, record.state, none, "rejected_report:".toList ++ reason⟩]
  actuated : rt'.actuated = rt.actuated
  seen : rt'.seen = rt.seen
  policy : rt'.policy = rt.policy
  context : rt'.context = rt.context
  contextVersion : rt'.contextVersion = rt.contextVersion

theorem Noted.refl (rt : Runtime) : Noted rt rt := ⟨rfl, rfl, rfl, Or.inl rfl, rfl, rfl, rfl, rfl, rfl⟩

section

variable {rt : Runtime} {id : Str} {record : IntentRecord}

theorem Settled.of_move (found : rt.records.get id = some record) {rt₁ : Runtime} (alone : Local id rt rt₁)
    (heap : rt₁.heap = rt.heap) (audit : rt₁.audit = rt.audit) (actuated : rt₁.actuated = rt.actuated)
    (f : IntentRecord → IntentRecord) (intent : (f record).intent = record.intent)
    (cls : (f record).actionClass = record.actionClass)
    (versions : (f record).contextVersion = record.contextVersion ∧ (f record).readSetVersion = record.readSetVersion) {state : IntentState} (allowed : state ∈ record.state.allowed)
    (outcome : Option DecisionOutcome) (reason : Str) (g : Metrics → Metrics)
    (consistent : record.Consistent → (Runtime.movedRecord (f record) state outcome reason).Consistent) :
    Settled id rt record state (Runtime.movedRecord (f record) state outcome reason)
      (((rt₁.putRecord id (f record)).move id (f record) state outcome reason).count g) :=
  ⟨found, ((alone.putRecord _).move _ _ _ _).count _, Dict.get_insert_self _ _ _, rfl, allowed, intent, cls, versions, heap,
    ⟨outcome, reason, congrArg (· ++ _) audit⟩, consistent, fun _ => actuated⟩

/-- The callback is called on a release only. -/
theorem Settled.callback {a : IntentRecord} {rt' : Runtime} (h : Settled id rt record .released a rt') (on : Bool) (ref : Ref) :
    Settled id rt record .released a (if on then { rt' with actuated := rt'.actuated ++ [ref] } else rt') := by
  split
  · exact ⟨h.found, h.alone.aside rfl rfl rfl rfl rfl rfl rfl, h.stored, h.reached, h.allowed, h.intent, h.cls, h.versions,
      h.heap,
      h.logged, h.consistent, fun other => absurd rfl other⟩
  · exact h

theorem ends_reject {α : Type} (record : IntentRecord) (requested : IntentState) (reason : Str)
    (ok : α → Runtime → Prop) : Ends (reject record requested reason) rt ok fun _ rt' => Noted rt rt' := by
  rw [reject, ends_bind, ends_get, ends_bind, note, ends_modify, ends_throw]
  cases stored : rt.records.get (rt.heap record.intent).id with
  | none => exact Noted.refl rt
  | some found =>
    exact ⟨rfl, rfl, rfl, Or.inr ⟨_, found, _, stored, by simp only [Runtime.log, List.append_assoc]; rfl⟩, rfl, rfl, rfl, rfl, rfl⟩

/-- The state a recorded commit leads to. -/
def commitState (committed : Bool) : IntentState := if committed then .committed else .withheld

theorem ends_recordCommit (rt : Runtime) (id : Str) (committed : Bool) (reason : Str) (seq : Option Nat) :
    Ends (recordCommit id committed reason seq) rt
      (fun a rt' => (rt' = rt ∧ rt.records.get id = some a ∧ a.state = commitState committed) ∨
        ∃ record, record.state = .authorized ∧ Settled id rt record (commitState committed) a rt' ∧
          rt'.activeTargets = (rt.release (rt.heap record.intent).target).activeTargets)
      fun _ rt' => Noted rt rt' := by
  rw [recordCommit, ends_bind, ends_get]
  cases found : rt.records.get id with
  | none => exact ends_throw.mpr (Noted.refl rt)
  | some record =>
    simp only
    rw [ends_ite]
    refine ⟨fun replay => ends_pure.mpr (Or.inl ⟨rfl, rfl, replay.1⟩), fun _ => ?_⟩
    rw [ends_ite]
    refine ⟨fun _ => ends_reject record _ reason _, fun authorized => ?_⟩
    rw [not_not] at authorized
    rw [releaseTarget, ends_bind, ends_modify, ends_ite]
    have freed := (Local.refl id rt).release (rt.heap record.intent).target
    have allowed : commitState committed ∈ record.state.allowed := by rw [authorized]; cases committed <;> decide
    refine ⟨fun yes => ?_, fun no => ?_⟩
    · obtain rfl : committed = true := yes
      refine (ends_assign_transition (by exact found) (by simp [authorized, IntentState.allowed])).mpr ?_
      rw [ends_bind, ends_modify, ends_pure]
      exact Or.inr ⟨record, authorized, .of_move found freed rfl rfl rfl (fun r => { r with commitSeq := seq }) rfl rfl
        ⟨rfl, rfl⟩
        allowed _ _ _ fun c => ⟨c.decision.trans (by rw [authorized]; rfl), c.effect.trans (by rw [authorized]; rfl)⟩,
        rfl⟩
    · obtain rfl : committed = false := Bool.eq_false_iff.mpr no
      refine (ends_assign_transition (by exact found) (by simp [authorized, IntentState.allowed])).mpr ?_
      rw [ends_bind, ends_modify, ends_pure]
      exact Or.inr ⟨record, authorized, .of_move found freed rfl rfl rfl
        (fun r => { r with releaseDecision := some .withhold }) rfl rfl ⟨rfl, rfl⟩ allowed _ _ _
        fun c => ⟨rfl, c.effect.trans (by rw [authorized]; rfl)⟩, rfl⟩

theorem ends_reportRelease (cfg : Config) (rt : Runtime) (id : Str) (released : Bool) (reason : Str)
    (contextVersion readSetVersion : Option Int) :
    Ends (reportRelease cfg id released reason contextVersion readSetVersion) rt
      (fun a rt' => (rt' = rt ∧ rt.records.get id = some a ∧ (a.state = .revoked ∨ a.releaseDecision ≠ none)) ∨
        ∃ record state, (record.state = .authorized ∨ record.state = .committed) ∧ record.releaseDecision = none ∧
          ((gateVersionCheck record released reason contextVersion readSetVersion).1 = false ∧ state = .withheld ∨
            released = true ∧ (gateVersionCheck record released reason contextVersion readSetVersion).1 = true ∧ state = .released) ∧
          Settled id rt record state a rt' ∧
          (state = .released → rt'.actuated = if cfg.callback then rt.actuated ++ [record.intent] else rt.actuated) ∧
          rt'.activeTargets = (rt.release (rt.heap record.intent).target).activeTargets)
      fun _ rt' => Noted rt rt' := by
  rw [reportRelease, ends_bind, ends_get]
  cases found : rt.records.get id with
  | none => exact ends_throw.mpr (Noted.refl rt)
  | some record =>
    simp only
    rw [ends_ite]
    refine ⟨fun revoked => ends_pure.mpr (Or.inl ⟨rfl, rfl, Or.inl revoked.2⟩), fun _ => ?_⟩
    rw [ends_ite]
    refine ⟨fun same => ends_pure.mpr (Or.inl ⟨rfl, rfl, Or.inr (by rw [same]; exact Option.some_ne_none _)⟩), fun _ => ?_⟩
    rw [ends_ite]
    refine ⟨fun _ => ends_reject record _ reason _, fun undecided => ?_⟩
    rw [ends_ite]
    refine ⟨fun _ => ends_reject record _ reason _, fun open_ => ?_⟩
    have state : record.state = .authorized ∨ record.state = .committed := by
      by_contra neither
      exact open_ (not_or.mp neither)
    have decision : record.releaseDecision = none := Option.not_isSome_iff_eq_none.mp undecided
    have kept : (gateVersionCheck record released reason contextVersion readSetVersion).1 = true → released = true := by
      simp only [gateVersionCheck]
      intro kept
      repeat' split at kept
      all_goals first
        | exact kept
        | cases kept
    generalize checks : gateVersionCheck record released reason contextVersion readSetVersion = checked at kept
    rw [releaseTarget, ends_bind, ends_modify, ends_ite]
    have freed := (Local.refl id rt).release (rt.heap record.intent).target
    have toReleased : IntentState.released ∈ record.state.allowed := by rcases state with h | h <;> rw [h] <;> decide
    have toWithheld : IntentState.withheld ∈ record.state.allowed := by rcases state with h | h <;> rw [h] <;> decide
    have noEffect : record.state.effect = none := by rcases state with h | h <;> rw [h] <;> rfl
    refine ⟨fun yes => ?_, fun no => ?_⟩
    · refine (ends_assign_transition (by exact found) toReleased).mpr ?_
      rw [ends_bind, ends_modify, ends_bind, ends_modify, ends_pure]
      exact Or.inr ⟨record, .released, state, decision, Or.inr ⟨kept yes, by rw [checks]; exact yes, rfl⟩,
        (Settled.of_move found freed rfl rfl rfl (fun r => { r with releaseDecision := some .release }) rfl rfl
          ⟨rfl, rfl⟩ toReleased
          _ _ _ fun c => ⟨rfl, c.effect.trans noEffect⟩).callback _ _, fun _ => by split <;> rfl, by split <;> rfl⟩
    · refine (ends_assign_transition (by exact found) toWithheld).mpr ?_
      rw [ends_bind, ends_modify, ends_pure]
      exact Or.inr ⟨record, .withheld, state, decision,
        Or.inl ⟨by rw [checks]; exact Bool.eq_false_iff.mpr no, rfl⟩,
        .of_move found freed rfl rfl rfl (fun r => { r with releaseDecision := some .withhold }) rfl rfl ⟨rfl, rfl⟩ toWithheld _ _ _
          fun c => ⟨rfl, c.effect.trans noEffect⟩, (fun other => by cases other), rfl⟩

theorem ends_reportEffect (rt : Runtime) (id : Str) (status : EffectStatus) (detail : Str) :
    Ends (reportEffect id status detail) rt
      (fun a rt' => (rt' = rt ∧ rt.records.get id = some a) ∨
        ∃ record, Settled id rt record status.state a rt' ∧ rt'.activeTargets = rt.activeTargets)
      fun _ rt' => Noted rt rt' := by
  rw [reportEffect, ends_bind, ends_get]
  cases found : rt.records.get id with
  | none => exact ends_throw.mpr (Noted.refl rt)
  | some record =>
    simp only
    rw [ends_ite]
    refine ⟨fun _ => ends_pure.mpr (Or.inl ⟨rfl, rfl⟩), fun _ => ?_⟩
    rw [ends_ite]
    refine ⟨fun _ => ends_reject record _ detail _, fun allowed => ?_⟩
    rw [not_not] at allowed
    refine (ends_assign_transition (by exact found) allowed).mpr ?_
    rw [ends_bind, ends_modify, ends_pure]
    exact Or.inr ⟨record, .of_move found (Local.refl id rt) rfl rfl rfl
      (fun r => { r with effectStatus := some status, effectDetail := detail }) rfl rfl ⟨rfl, rfl⟩ allowed _ _ _
      fun c => ⟨(c.decision.trans (IntentState.released_of_effect allowed)).trans status.state_decision.symm,
        status.state_effect.symm⟩, rfl⟩

theorem ends_supervisoryRevoke (rt : Runtime) (id : Str) (reason : Str) :
    Ends (supervisoryRevoke id reason) rt
      (fun a rt' => ∃ record, Settled id rt record .revoked a rt' ∧
        rt'.activeTargets = (rt.release (rt.heap record.intent).target).activeTargets)
      fun _ rt' => rt' = rt ∧ ∀ record, rt.records.get id = some record → IntentState.revoked ∉ record.state.allowed := by
  rw [supervisoryRevoke, ends_bind, ends_get]
  cases found : rt.records.get id with
  | none => exact ends_throw.mpr ⟨rfl, fun record absent => by cases absent⟩
  | some record =>
    simp only
    rw [ends_bind]
    by_cases allowed : IntentState.revoked ∈ record.state.allowed
    · refine (ends_transition found allowed).mpr ?_
      rw [releaseTarget, ends_bind, ends_modify, ends_pure]
      obtain ⟨undecided, noEffect⟩ := IntentState.undecided_of_revocable allowed
      exact ⟨record, ⟨found, ((Local.refl id rt).move _ _ _ _).release _, Dict.get_insert_self _ _ _, rfl, allowed, rfl,
        rfl, ⟨rfl, rfl⟩, rfl, ⟨_, _, rfl⟩, fun c => ⟨c.decision.trans undecided, c.effect.trans noEffect⟩, fun _ => rfl⟩, rfl⟩
    · refine (ends_transition_refused found allowed).mpr ⟨rfl, fun record' present => ?_⟩
      obtain rfl := Option.some.inj present
      exact allowed

end

end Xair
