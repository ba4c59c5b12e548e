import Xair.Runtime.References

/-!
# Passes that come to an end

A pass moves its record to `VALIDATING` before it evaluates anything. If a predicate raises, or
the degradation of the intent does, so does the pass, and the record stays there.
-/

namespace Xair

open Library

section

variable [PyText]

/-- Predicates that hold are evaluated without an exception, whenever the time runs out. -/
theorem evaluateFrom_of_truth {context : Members} {exprs : List (Str × Str)} (all : ∀ item ∈ exprs, truth item.2 context = .ok true)
    (timedOut : Nat → Bool) (k : Nat) : ∃ verdict, evaluateFrom timedOut context k exprs = .ok verdict := by
  induction exprs generalizing k with
  | nil => exact ⟨_, rfl⟩
  | cons item rest ih =>
    obtain ⟨label, expr⟩ := item
    have holds := all (label, expr) List.mem_cons_self
    rw [evaluateFrom]
    split
    · exact ⟨_, rfl⟩
    · rw [truth] at holds
      split
      · rename_i raised
        rw [raised] at holds
        cases holds
      · exact ⟨_, rfl⟩
      · exact ih (fun item member => all item (List.mem_cons_of_mem _ member)) (k + 1)

theorem evaluatePredicates_of_truth {context : Members} {safetyConstraints preconditions : List Str}
    (all : ∀ expr ∈ safetyConstraints ++ preconditions, truth expr context = .ok true) (timedOut : Nat → Bool) :
    ∃ verdict, evaluatePredicates timedOut safetyConstraints preconditions context = .ok verdict := by
  refine evaluateFrom_of_truth (fun item member => ?_) timedOut 0
  rcases List.mem_append.mp member with safety | pre
  · obtain ⟨expr, its, rfl⟩ := List.mem_map.mp safety
    exact all expr (List.mem_append_left _ its)
  · obtain ⟨expr, its, rfl⟩ := List.mem_map.mp pre
    exact all expr (List.mem_append_right _ its)

omit [PyText] in
/-- Degraded is what is valid, and declares a degradation. -/
theorem decideOutcome_degrade {i : ActionIntent} {temporal context : Bool × Str} {busy : Bool} {reason : Str}
    (h : decideOutcome i temporal context busy = (.degrade, reason)) :
    context.1 = true ∧ i.payload.degradationPolicy ≠ .none := by
  rw [decideOutcome] at h
  split at h
  · cases h
  · split at h
    · cases h
    · rename_i valid
      split at h
      · cases h
      · split at h
        · rename_i declared
          rw [Bool.not_eq_true', Bool.not_eq_false] at valid
          exact ⟨valid, declared⟩
        · cases h

/-- The decision on an intent, with the policy applied, can be made and carried out. -/
def Runtime.concludes (cfg : Config) (call : ProcessCall) (rt : Runtime) (i : ActionIntent) : Bool :=
  match decision cfg call rt i (call.snapshot rt) with
  | .error _ => false
  | .ok (.degrade, _) => (applyDegradation i).isOk
  | .ok _ => true

/-- A pass on the intent raises nothing: it is a stop, the snapshot is stale, or the decision can be carried out. -/
def Runtime.passes (cfg : Config) (call : ProcessCall) (rt : Runtime) (ref : Ref) : Bool :=
  (rt.policy.actionClass (rt.heap ref)).riskReducing || (call.contextVersion.any fun v => decide (v < rt.contextVersion)) ||
    rt.concludes cfg call (rt.prepared ref)

/-- The intent has been degraded after its predicates had been found to hold. -/
structure Degraded (call : ProcessCall) (rt : Runtime) (ref : Ref) (rt' : Runtime) : Prop where
  held : ∀ expr ∈ (rt.prepared ref).predicates, truth expr (call.snapshot rt) = .ok true
  applied : applyDegradation (rt.prepared ref) = .ok (rt'.heap ref)

/-- A pass that has come to an end. -/
structure Concluded (call : ProcessCall) (rt : Runtime) (ref : Ref) (a : IntentRecord) (rt' : Runtime) : Prop where
  alone : Local (rt.heap ref).id rt rt'
  stored : rt'.records.get (rt.heap ref).id = some a
  state : a.state ∈ [.authorized, .revoked, .expired, .delayed] ∨ a.state = .degraded ∧ Degraded call rt ref rt'

theorem Evaluated.held {cfg : Config} {call : ProcessCall} {rt rt' : Runtime} {ref : Ref} {record : IntentRecord} {reason : Str}
    (h : Evaluated cfg call rt ref rt' record .degrade reason) :
    ∀ expr ∈ (rt.prepared ref).predicates, truth expr (call.snapshot rt) = .ok true := by
  have decided := h.decided
  rw [decision] at decided
  cases evaluated : evaluatePredicates call.timedOut (rt.prepared ref).safetyConstraints
      (rt.prepared ref).preconditions (call.snapshot rt) with
  | error e => rw [evaluated] at decided; cases decided
  | ok context =>
    rw [evaluated] at decided
    obtain ⟨ok, msg⟩ := context
    obtain rfl : ok = true := (decideOutcome_degrade (Except.ok.inj decided)).1
    exact truth_of_evaluatePredicates evaluated

section

variable {cfg : Config} {call : ProcessCall} {rt : Runtime} {ref : Ref}

theorem ends_conclude_concluded {rt' : Runtime} {record : IntentRecord} {outcome : DecisionOutcome} {reason : Str}
    (h : Evaluated cfg call rt ref rt' record outcome reason) :
    Ends (conclude ref (rt.heap ref).id call.requeue outcome reason) rt'
      (fun a rt'' => Concluded call rt ref a rt'' ∧ rt.concludes cfg call (rt.prepared ref) = true)
      fun _ _ => rt.concludes cfg call (rt.prepared ref) = false := by
  have decided := h.decided
  have itself : rt'.heap ref = rt.prepared ref := by rw [h.heap, Function.update_self]
  cases outcome with
  | degrade =>
    simp only [conclude]
    rw [ends_bind, ends_get, itself]
    cases degraded : applyDegradation (rt.prepared ref) with
    | error e => exact ends_throw.mpr (by rw [Runtime.concludes, decided]; simp only [degraded]; rfl)
    | ok i =>
      obtain ⟨same, target, action, _⟩ := applyDegradation_ok degraded
      rw [← itself] at same target action
      simp only
      rw [ends_bind, ends_modify]
      refine (ends_assign_transition (by exact h.stored) (by simp [h.state, IntentState.allowed])).mpr ?_
      rw [ends_bind, ends_modify, ends_bind, ends_modify, ends_pure]
      refine ⟨⟨((((h.alone.putIntent same target action).putRecord _).move _ _ _ _).count _).submit _ _, ?_,
        Or.inr ⟨rfl, h.held, ?_⟩⟩, by rw [Runtime.concludes, decided]; simp only [degraded]; rfl⟩
      · split
        · exact Dict.get_insert_self _ _ _
        · exact Dict.get_insert_self _ _ _
      · rw [degraded]
        split
        · exact congrArg _ (Function.update_self (f := rt'.heap) ref i).symm
        · exact congrArg _ (Function.update_self (f := rt'.heap) ref i).symm
  | execute =>
    have fine : rt.concludes cfg call (rt.prepared ref) = true := by rw [Runtime.concludes, decided]
    refine (ends_conclude_execute h.stored h.state ref call.requeue reason).imp ?_ fun _ _ h => h.elim
    rintro a rt'' ⟨alone, stored, rfl, _⟩
    exact ⟨⟨h.alone.trans alone, stored, Or.inl List.mem_cons_self⟩, fine⟩
  | delay =>
    have fine : rt.concludes cfg call (rt.prepared ref) = true := by rw [Runtime.concludes, decided]
    simp only [conclude]
    rw [ends_bind]
    refine (ends_transition h.stored (by simp [h.state, IntentState.allowed])).mpr ?_
    rw [ends_bind, ends_modify, ends_bind, ends_modify, ends_pure]
    refine ⟨⟨((h.alone.move _ _ _ _).count _).submit _ _, ?_, Or.inl (by simp [Runtime.movedRecord])⟩, fine⟩
    split
    · exact Dict.get_insert_self _ _ _
    · exact Dict.get_insert_self _ _ _
  | revoke =>
    have fine : rt.concludes cfg call (rt.prepared ref) = true := by rw [Runtime.concludes, decided]
    simp only [conclude]
    rw [ends_bind]
    refine (ends_transition h.stored (by rw [h.state]; split <;> decide)).mpr ?_
    rw [ends_bind, ends_modify, ends_pure]
    refine ⟨⟨(h.alone.move _ _ _ _).count _, Dict.get_insert_self _ _ _, Or.inl ?_⟩, fine⟩
    simp only [Runtime.movedRecord]
    split <;> simp

variable (cfg call) in
/-- A pass on an open record returns exactly if it passes. -/
theorem ends_processIntent_passes {record : IntentRecord} (found : rt.records.get (rt.heap ref).id = some record)
    (opened : record.state.validatable = true) :
    Ends (processIntent cfg call ref) rt (fun a rt' => Concluded call rt ref a rt' ∧ rt.passes cfg call ref = true)
      fun _ _ => rt.passes cfg call ref = false := by
  rw [processIntent, ends_bind, ends_get]
  simp only [found, opened, if_true]
  apply ends_validationPass_begun cfg call ref found opened
  · intro rt₁ r₁ h _ stop
    refine (ends_authorizeStop h.stored h.state _ _).imp ?_ fun _ _ h => h.elim
    rintro a rt' ⟨alone, stored, state, _⟩
    exact ⟨⟨h.alone.trans alone, stored, Or.inl (by rw [state]; exact List.mem_cons_self)⟩, by
      rw [Runtime.passes, stop]; rfl⟩
  · intro rt₁ r₁ h _ _ stale
    refine (ends_revokeStale h.stored h.state _).imp ?_ fun _ _ h => h.elim
    rintro a rt' ⟨alone, stored, state, _⟩
    exact ⟨⟨h.alone.trans alone, stored, Or.inl (by rw [state]; decide)⟩, by
      rw [Runtime.passes, stale, Bool.or_true, Bool.true_or]⟩
  · intro rt₁ r₁ h _ notStop fresh
    have same : rt.passes cfg call ref = rt.concludes cfg call (rt.prepared ref) := by
      have other : (rt.policy.actionClass (rt.heap ref)).riskReducing = false := decide_eq_false notStop
      have current : (call.contextVersion.any fun v => decide (v < rt.contextVersion)) = false := by
        cases supplied : call.contextVersion with
        | none => rfl
        | some v => exact decide_eq_false (Nat.not_lt.mpr (fresh v supplied))
      rw [Runtime.passes, other, current, Bool.false_or, Bool.false_or]
    rw [same]
    apply ends_evaluate_decided h
    · intro _ _ e _ _ _ _ raised
      rw [Runtime.concludes, raised]
    · intro rt₂ r₂ outcome reason evaluated _
      exact ends_conclude_concluded evaluated

/-- The policy is not applied again to a degraded intent. -/
theorem Degraded.prepared {rt' : Runtime} (h : Degraded call rt ref rt') : rt'.prepared ref = rt'.heap ref := by
  obtain ⟨added, its⟩ := Policy.applyTo_added rt.policy (rt.heap ref)
  have kept : (rt'.heap ref).policyAdded = some added := (applyDegradation_added h.applied).trans its
  rw [Runtime.prepared, Policy.applyTo, kept]

variable (cfg) in
/-- The pass after a degradation, on the same context, degrades nothing and raises nothing. -/
theorem ends_processIntent_degraded {rt' : Runtime} (alone : Local (rt.heap ref).id rt rt') (h : Degraded call rt ref rt') {call' : ProcessCall}
    (same : call'.context = call.context) {record : IntentRecord} (found : rt'.records.get (rt'.heap ref).id = some record)
    (opened : record.state.validatable = true) :
    Ends (processIntent cfg call' ref) rt' (fun a rt'' => Concluded call' rt' ref a rt'' ∧
      a.state ∈ [.authorized, .revoked, .expired, .delayed]) fun _ _ => False := by
  have prepared := h.prepared
  obtain ⟨held, applied⟩ := h
  have undegraded : (rt'.heap ref).payload.degradationPolicy = .none := (applyDegradation_policy applied).2
  have fine : rt'.concludes cfg call' (rt'.prepared ref) = true := by
    have snapshot : call'.snapshot rt' = call.snapshot rt := by
      rw [ProcessCall.snapshot, ProcessCall.snapshot, same, alone.context]
    have holds : ∀ expr ∈ (rt'.heap ref).predicates, truth expr (call.snapshot rt) = .ok true := by
      rw [(applyDegradation_ok applied).2.2.2]
      exact held
    obtain ⟨verdict, evaluated⟩ := evaluatePredicates_of_truth holds call'.timedOut
    rw [Runtime.concludes, decision, prepared, snapshot, evaluated]
    split
    · rename_i raised
      cases raised
    · rename_i degraded
      exact absurd undegraded (decideOutcome_degrade (Except.ok.inj degraded)).2
    · rfl
  refine (ends_processIntent_passes cfg call' found opened).imp ?_ fun _ _ raised => ?_
  · rintro a rt'' ⟨concluded, _⟩
    refine ⟨concluded, concluded.state.resolve_right ?_⟩
    rintro ⟨_, again⟩
    have declared := (applyDegradation_policy again.applied).1
    rw [prepared] at declared
    exact declared undegraded
  · rw [Runtime.passes, fine, Bool.or_true] at raised
    cases raised

end

end

end Xair
