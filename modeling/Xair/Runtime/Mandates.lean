import Xair.Runtime.TargetLock

/-!
# Mandatory predicates

The policy's predicates are added to an intent once and remembered. A pass that
finds them added already does not look at the policy again, so what it evaluates
is what an earlier policy mandated.
-/

namespace Xair

open Library

/-- The pass on the installed context that `process_next` makes. -/
def ProcessCall.next (call : ProcessCall) : ProcessCall :=
  { call with context := none, contextVersion := none, pathVersions := none, predicateVersions := none, requeue := true }

section

variable [PyText]

/-- The validation pass an operation makes. -/
def Operation.pass (op : Operation) (rt : Runtime) : Option (ProcessCall × Ref) :=
  match op with
  | .processIntent call ref => some (call, ref)
  | .processNext call => rt.queue.head?.map fun q => (call.next, q.intent)
  | _ => none

/-- The operation moves the record of `id`, which is not a stop's, to `AUTHORIZED`. -/
def Authorizes (cfg : Config) (op : Operation) (rt : Runtime) (id : Str) : Prop :=
  (∀ before, rt.records.get id = some before → before.state ≠ .authorized) ∧
    ∃ record, (op.exec cfg rt).records.get id = some record ∧ record.state = .authorized ∧ record.actionClass ≠ .stop

theorem authorizes_iff {cfg : Config} {op : Operation} {rt : Runtime} {id : Str} : Authorizes cfg op rt id ↔
    (rt.records.get id).all (fun before => decide (before.state ≠ .authorized)) = true ∧
      ((op.exec cfg rt).records.get id).any
        (fun record => decide (record.state = .authorized ∧ record.actionClass ≠ .stop)) = true := by
  rw [Option.all_eq_true, Option.any_eq_true]
  simp only [decide_eq_true_eq]
  exact Iff.rfl

instance (cfg : Config) (op : Operation) (rt : Runtime) (id : Str) : Decidable (Authorizes cfg op rt id) :=
  decidable_of_iff _ authorizes_iff.symm

/-- Whatever the operation authorizes is an intent it passes on, and what the installed policy mandates
for that intent is true on the snapshot of the pass. -/
def MandatesHold (cfg : Config) (op : Operation) (rt : Runtime) : Prop :=
  ∀ id, Authorizes cfg op rt id → ∃ call ref, op.pass rt = some (call, ref) ∧ (rt.heap ref).id = id ∧
    ∀ e ∈ rt.policy.mandated (rt.heap ref), truth e (call.snapshot rt) = .ok true

/-- The intent the operation passes on has not had its policy predicates added yet, or it declares
all that the installed policy mandates. -/
def CarriesMandated (op : Operation) (rt : Runtime) : Prop :=
  ∀ call ref, op.pass rt = some (call, ref) →
    (rt.heap ref).policyAdded = none ∨ ∀ e ∈ rt.policy.mandated (rt.heap ref), e ∈ (rt.heap ref).predicates

/-! ### What a pass evaluates -/

/-- The first pass of an intent carries all that the policy mandates. -/
theorem Policy.mem_applyTo_of_mandated {policy : Policy} {i : ActionIntent} {e : Str}
    (carried : i.policyAdded = none ∨ ∀ e ∈ policy.mandated i, e ∈ i.predicates) (mandated : e ∈ policy.mandated i) :
    e ∈ (policy.applyTo i).1.predicates := by
  unfold applyTo
  cases added : i.policyAdded with
  | some exprs =>
    rcases carried with fresh | declared
    · rw [added] at fresh
      cases fresh
    · exact declared e mandated
  | none =>
    simp only [ActionIntent.predicates]
    by_cases declared : e ∈ i.predicates
    · rcases List.mem_append.mp declared with safety | pre
      · exact List.mem_append_left _ safety
      · exact List.mem_append_right _ (List.mem_append_left _ pre)
    · apply List.mem_append_right
      apply List.mem_append_right
      rw [mem_uniqueFirst, List.mem_filter, decide_eq_true_eq]
      exact ⟨mandated, fun pre => declared (List.mem_append_right _ pre),
        fun safety => declared (List.mem_append_left _ safety)⟩

theorem Authorized.mandated {call : ProcessCall} {rt : Runtime} {ref : Ref} {record : IntentRecord}
    (granted : Authorized call rt ref record)
    (carried : (rt.heap ref).policyAdded = none ∨ ∀ e ∈ rt.policy.mandated (rt.heap ref), e ∈ (rt.heap ref).predicates) :
    ∀ e ∈ rt.policy.mandated (rt.heap ref), truth e (call.snapshot rt) = .ok true := by
  intro e mandated
  obtain ⟨msg, valid⟩ := granted.valid
  exact truth_of_evaluatePredicates valid e (Policy.mem_applyTo_of_mandated carried mandated)

theorem exec_next_nil (cfg : Config) (call : ProcessCall) {rt : Runtime} (queue : rt.queue = []) :
    (Operation.processNext call).exec cfg rt = rt := by
  simp only [Operation.exec, processNext, finalState_get_bind, queue]
  rfl

theorem exec_next_cons (cfg : Config) (call : ProcessCall) {rt : Runtime} {q : QueuedIntent} {rest : List QueuedIntent}
    (queue : rt.queue = q :: rest) : (Operation.processNext call).exec cfg rt =
      finalState (processIntent cfg call.next q.intent) { rt with queue := rest } := by
  simp only [Operation.exec, processNext, finalState_get_bind, queue]
  exact (finalState_set_bind _ _).trans (finalState_bind_pure _)

/-- An operation that makes a pass does nothing else but take the intent off the queue. -/
theorem exec_of_pass (cfg : Config) {op : Operation} {rt : Runtime} {call : ProcessCall} {ref : Ref}
    (pass : op.pass rt = some (call, ref)) :
    ∃ queue, op.exec cfg rt = finalState (processIntent cfg call ref) { rt with queue := queue } := by
  cases op with
  | processIntent call' ref' =>
    cases pass
    exact ⟨rt.queue, rfl⟩
  | processNext call' =>
    unfold Operation.pass at pass
    cases queue : rt.queue with
    | nil =>
      rw [queue] at pass
      cases pass
    | cons q rest =>
      rw [queue] at pass
      cases pass
      exact ⟨rest, exec_next_cons cfg call' queue⟩
  | _ => cases pass

/-! ### What authorizes -/

end

/-- Whatever is authorized was authorized before. -/
def GrantsNothing (rt rt' : Runtime) : Prop :=
  ∀ id record, rt'.records.get id = some record → record.state = .authorized → rt.records.get id = some record

theorem GrantsNothing.of_records {rt rt' : Runtime} (same : rt'.records = rt.records) : GrantsNothing rt rt' := by
  intro id record stored _
  rw [← same]
  exact stored

/-- A report moves its own record only, and not to `AUTHORIZED`. -/
theorem Settled.grantsNothing {id : Str} {rt rt' : Runtime} {record a : IntentRecord} {state : IntentState}
    (settled : Settled id rt record state a rt') (left : state ≠ .authorized) : GrantsNothing rt rt' := by
  intro other r stored authorized
  by_cases same : other = id
  · subst same
    rw [settled.stored] at stored
    obtain rfl := Option.some.inj stored
    exact absurd (settled.reached.symm.trans authorized) left
  · rw [settled.alone.others other same] at stored
    exact stored

theorem Admission.grantsNothing {ref : Ref} {rt rt' : Runtime} (admission : Admission ref rt rt') :
    GrantsNothing rt rt' := by
  intro id record stored authorized
  rcases admission.records id record stored with kept | ⟨_, rfl⟩
  · exact kept
  · cases authorized

section

variable [PyText]

/-- Only a pass authorizes. -/
theorem grantsNothing_exec (cfg : Config) {op : Operation} {rt : Runtime} (pass : op.pass rt = none) :
    GrantsNothing rt (op.exec cfg rt) := by
  cases op with
  | admitIntent ref mono enqueue =>
    refine Ends.finalState ((ends_admitIntent cfg ref mono enqueue rt).imp ?_ fun _ _ h => h.elim)
    intro a rt' ended
    exact ended.1.grantsNothing
  | processIntent call ref => cases pass
  | processNext call =>
    have empty : rt.queue = [] := by
      unfold Operation.pass at pass
      cases queue : rt.queue with
      | nil => rfl
      | cons q rest =>
        rw [queue] at pass
        cases pass
    rw [exec_next_nil cfg call empty]
    exact .of_records rfl
  | recordCommit id committed reason seq =>
    refine Ends.finalState ((ends_recordCommit rt id committed reason seq).imp ?_ fun _ _ noted => .of_records noted.records)
    rintro a rt' (⟨rfl, _⟩ | ⟨record, _, settled, _⟩)
    · exact .of_records rfl
    · exact settled.grantsNothing (by cases committed <;> decide)
  | reportRelease id released reason cv rv =>
    refine Ends.finalState ((ends_reportRelease cfg rt id released reason cv rv).imp ?_
      fun _ _ noted => .of_records noted.records)
    rintro a rt' (⟨rfl, _⟩ | ⟨record, state, _, _, target, settled, _⟩)
    · exact .of_records rfl
    · exact settled.grantsNothing (by rcases target with ⟨_, rfl⟩ | ⟨_, _, rfl⟩ <;> decide)
  | reportEffect id status detail =>
    refine Ends.finalState ((ends_reportEffect rt id status detail).imp ?_ fun _ _ noted => .of_records noted.records)
    rintro a rt' (⟨rfl, _⟩ | ⟨record, settled, _⟩)
    · exact .of_records rfl
    · exact settled.grantsNothing (by cases status <;> decide)
  | supervisoryRevoke id reason =>
    refine Ends.finalState ((ends_supervisoryRevoke rt id reason).imp ?_ ?_)
    · rintro a rt' ⟨record, settled, _⟩
      exact settled.grantsNothing (by decide)
    · rintro _ rt' ⟨rfl, _⟩
      exact .of_records rfl
  | setPolicy policy => exact .of_records rfl
  | installContext snapshot version =>
    simp only [Operation.exec, installContextSnapshot]
    split <;> exact .of_records rfl
  | setPreconditions ref preconditions => exact .of_records rfl

/-- What a pass authorizes it has validated, unless it was authorized before. -/
theorem authorized_of_processIntent (cfg : Config) (call : ProcessCall) (rt : Runtime) (ref : Ref) {id : Str}
    {record : IntentRecord} (stored : (finalState (processIntent cfg call ref) rt).records.get id = some record)
    (state : record.state = .authorized) (notStop : record.actionClass ≠ .stop) :
    rt.records.get id = some record ∨ (rt.heap ref).id = id ∧ Authorized call rt ref record := by
  revert stored
  refine Ends.finalState (P := fun rt' => rt'.records.get id = some record → _)
    ((ends_processIntent cfg call rt ref).imp ?_ ?_)
  · intro a rt' ended stored
    obtain ⟨alone, verdict⟩ := ended
    by_cases same : id = (rt.heap ref).id
    · subst same
      cases verdict with
      | kept present _ unchanged =>
        rw [unchanged] at stored
        exact Or.inl stored
      | stopped _ stored' _ cls =>
        rw [stored'] at stored
        obtain rfl := Option.some.inj stored
        exact absurd cls notStop
      | refused _ stored' refused =>
        rw [stored'] at stored
        obtain rfl := Option.some.inj stored
        rw [state] at refused
        rcases refused with h | h | h | h <;> cases h
      | authorized _ stored' granted =>
        rw [stored'] at stored
        obtain rfl := Option.some.inj stored
        exact Or.inr ⟨rfl, granted⟩
    · rw [alone.others id same] at stored
      exact Or.inl stored
  · intro _ rt' ended stored
    obtain ⟨alone, _, ⟨aborted, present, validating⟩, _⟩ := ended
    by_cases same : id = (rt.heap ref).id
    · subst same
      rw [present] at stored
      obtain rfl := Option.some.inj stored
      rw [validating] at state
      cases state
    · rw [alone.others id same] at stored
      exact Or.inl stored

/-- One operation. -/
theorem mandatesHold_exec (cfg : Config) (op : Operation) (rt : Runtime) (carried : CarriesMandated op rt) :
    MandatesHold cfg op rt := by
  intro id authorizes
  obtain ⟨before, record, stored, state, notStop⟩ := authorizes
  cases pass : op.pass rt with
  | none => exact absurd state (before record (grantsNothing_exec cfg pass id record stored state))
  | some passed =>
    obtain ⟨call, ref⟩ := passed
    obtain ⟨queue, same⟩ := exec_of_pass cfg pass
    rw [same] at stored
    rcases authorized_of_processIntent cfg call { rt with queue := queue } ref stored state notStop with kept | ⟨own, granted⟩
    · exact absurd state (before record kept)
    · exact ⟨call, ref, rfl, own, granted.mandated (carried call ref pass)⟩

/-- In a run whose passes each carry what the installed policy mandates, nothing is authorized against it. -/
theorem mandatesHold_runAll (cfg : Config) (ops : List Operation) (rt : Runtime) (carried : Along cfg CarriesMandated ops rt) :
    Along cfg (MandatesHold cfg) ops rt := by
  induction ops generalizing rt with
  | nil => trivial
  | cons op ops ih => exact ⟨mandatesHold_exec cfg op rt carried.1, ih _ carried.2⟩

end

/-! ### Runs -/

/-- A policy that wants a guard closed before anything moves. -/
def guardPolicy : Policy where
  actions := Dict.empty.insert "MOVE".toList ["guard.closed == True".toList]
  classes := Dict.empty
  classPredicates := Dict.empty

/-- The policy is there before the intent is. -/
def guardedPass : List Operation :=
  [.setPolicy guardPolicy, .admitIntent 0 0 false, .processIntent plainCall 0]

theorem mandatesHold_guardedPass :
    @Along PyText.ascii plainConfig (@MandatesHold PyText.ascii plainConfig) guardedPass (plainRuntime threeIntents) := by
  refine @mandatesHold_runAll PyText.ascii plainConfig guardedPass (plainRuntime threeIntents) ⟨?_, ?_, ?_, trivial⟩
  · rintro call ref ⟨⟩
  · rintro call ref ⟨⟩
  · rintro call ref ⟨⟩
    exact Or.inl rfl

/-- `b` is delayed by `a` before the policy is installed, and passes again after `a` is withheld. -/
def policyInstalledLate : List Operation :=
  [.admitIntent 0 0 false, .processIntent plainCall 0, .admitIntent 1 0 false, .processIntent plainCall 1,
    .setPolicy guardPolicy, .reportRelease "a".toList false [] none none]

theorem policyInstalledLate_unmandated :
    ¬∀ (ops : List Operation) (op : Operation),
      @MandatesHold PyText.ascii plainConfig op (@runAll PyText.ascii plainConfig ops (plainRuntime threeIntents)) := by
  intro holds
  obtain ⟨call, ref, pass, _, mandated⟩ := holds policyInstalledLate (.processIntent plainCall 1) "b".toList
    (by decide +kernel)
  cases pass
  have wanted := mandated "guard.closed == True".toList (by decide +kernel)
  revert wanted
  decide +kernel

end Xair
