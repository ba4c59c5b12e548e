import Xair.Runtime.State

/-!
# Policy, time bounds and the decision

The stateless parts of a validation pass: the operator's policy, the temporal
validator, the decision engine and the degradation of a payload.
-/

namespace Xair

open Library

/-! ### Policy -/

/-- `list(dict.fromkeys(xs))`. -/
def uniqueFirst : List Str → List Str
  | [] => []
  | x :: xs => x :: (uniqueFirst xs).filter fun y => decide (y ≠ x)

theorem mem_uniqueFirst {xs : List Str} {x : Str} : x ∈ uniqueFirst xs ↔ x ∈ xs := by
  induction xs with
  | nil => simp [uniqueFirst]
  | cons y xs ih =>
    rw [uniqueFirst, List.mem_cons, List.mem_cons, List.mem_filter, ih, decide_eq_true_eq]
    by_cases same : x = y
    · simp [same]
    · simp [same]

section

variable [PyText]

/-- `str(action_type).strip().upper()`. -/
def actionKey (i : ActionIntent) : Str := PyText.upper (strip i.payload.actionType)

/-- `action_class`. -/
def Policy.actionClass (policy : Policy) (i : ActionIntent) : ActionClass :=
  (policy.classes.get (actionKey i)).getD .other

/-- The predicates the policy makes mandatory for an intent. -/
def Policy.mandated (policy : Policy) (i : ActionIntent) : List Str :=
  (policy.actions.get (actionKey i)).getD [] ++ (policy.classPredicates.get (policy.actionClass i)).getD []

/-- `_apply_policy`: the intent with the predicates added, and the ones added. -/
def Policy.applyTo (policy : Policy) (i : ActionIntent) : ActionIntent × List Str :=
  match i.policyAdded with
  | some added => (i, added)
  | none =>
    let added := uniqueFirst ((policy.mandated i).filter fun e =>
      decide (e ∉ i.preconditions ∧ e ∉ i.safetyConstraints))
    ({ i with preconditions := i.preconditions ++ added, policyAdded := some added }, added)

theorem Policy.applyTo_id (policy : Policy) (i : ActionIntent) : (policy.applyTo i).1.id = i.id := by
  rw [applyTo]; split <;> rfl

theorem Policy.applyTo_payload (policy : Policy) (i : ActionIntent) :
    (policy.applyTo i).1.payload = i.payload := by rw [applyTo]; split <;> rfl

/-- The policy has been applied. -/
theorem Policy.applyTo_added (policy : Policy) (i : ActionIntent) : ∃ added, (policy.applyTo i).1.policyAdded = some added := by
  rw [applyTo]
  split
  · rename_i added its
    exact ⟨added, its⟩
  · exact ⟨_, rfl⟩

theorem Policy.applyTo_idem (policy : Policy) (i : ActionIntent) :
    (policy.applyTo (policy.applyTo i).1).1 = (policy.applyTo i).1 := by
  cases added : i.policyAdded with
  | some exprs => simp only [applyTo, added]
  | none => simp only [applyTo, added]

/-- `FENCE_PREFIX`. -/
def fencePrefix : Str := "stop.".toList

/-- `_registered`. -/
def registered (exprs : List Str) : List Str := exprs.filter fun e => !startsWith fencePrefix (lstrip e)

def ActionIntent.predicates (i : ActionIntent) : List Str := i.safetyConstraints ++ i.preconditions

end

/-! ### Time bounds -/

namespace Config

/-- `_age_ms`. -/
def age (i : ActionIntent) (now : ℚ) : ℚ := now - i.timestampDecision

/-- `release_bound_ms`. -/
def releaseBound (i : ActionIntent) : ℚ :=
  match i.deadlineMs with
  | some d => d
  | none => i.freshnessWindowMs

/-- `_future_skew`. -/
def futureSkew (cfg : Config) (age : ℚ) : Option Str :=
  if age < -cfg.maxFutureSkewMs then
    some ("future_skew: decision ahead by ".toList ++ fixedText 1 (-age) ++ "ms > tolerance ".toList ++
      fixedText 0 cfg.maxFutureSkewMs ++ "ms".toList)
  else none

/-- `TemporalValidator.validate`. -/
def validate (cfg : Config) (i : ActionIntent) (now : ℚ) : Bool × Str :=
  match cfg.futureSkew (age i now) with
  | some skew => (false, skew)
  | none =>
    let age := age i now + cfg.clockUncertaintyMs
    if (i.freshnessWindowMs : ℚ) < age then
      (false, "obsolete: elapsed ".toList ++ fixedText 1 age ++ "ms > freshness ".toList ++
        intText i.freshnessWindowMs ++ "ms".toList)
    else
      match i.deadlineMs with
      | some d =>
        if (d : ℚ) < age then
          (false, "deadline exceeded: ".toList ++ fixedText 1 age ++ "ms > ".toList ++ intText d ++ "ms".toList)
        else (true, "temporal_ok".toList)
      | none => (true, "temporal_ok".toList)

/-- `TemporalValidator.validate_release`. -/
def validateRelease (cfg : Config) (i : ActionIntent) (now : ℚ) : Bool × Str :=
  match cfg.futureSkew (age i now) with
  | some skew => (false, skew)
  | none =>
    let age := age i now + cfg.clockUncertaintyMs
    let bound := releaseBound i
    if bound < age then
      let kind := if i.deadlineMs.isSome then "deadline exceeded".toList else "obsolete".toList
      (false, kind ++ ": elapsed ".toList ++ fixedText 1 age ++ "ms > ".toList ++ fixedText 0 bound ++
        "ms at release".toList)
    else (true, "temporal_ok".toList)

end Config

/-! ### Decision -/

/-- `ExecutionDecisionEngine.decide`. -/
def decideOutcome (i : ActionIntent) (temporal context : Bool × Str) (resourceBusy : Bool) : DecisionOutcome × Str :=
  if !temporal.1 then (.revoke, temporal.2)
  else if !context.1 then (.revoke, context.2)
  else if resourceBusy then (.delay, "target_busy".toList)
  else if i.payload.degradationPolicy ≠ .none then (.degrade, "degradation_policy_active".toList)
  else (.execute, "valid".toList)

/-- Only a context-valid intent on a free target is executed. -/
theorem decideOutcome_execute {i : ActionIntent} {temporal context : Bool × Str} {busy : Bool} {reason : Str}
    (h : decideOutcome i temporal context busy = (.execute, reason)) :
    temporal.1 = true ∧ context.1 = true ∧ busy = false := by
  rw [decideOutcome] at h
  split at h
  · cases h
  · split at h
    · cases h
    · split at h
      · cases h
      · rename_i timely valid free
        rw [Bool.not_eq_true', Bool.not_eq_false] at timely valid
        exact ⟨timely, valid, Bool.eq_false_iff.mpr free⟩

/-- `float(value)`. -/
def toFloat [PyText] : Json → Except PyError PyFloat
  | .bool b => .ok (.fin (if b then 1 else 0))
  | .int n => match floatOfInt n with
    | some x => .ok x
    | none => .error .overflowError
  | .float x => .ok x
  | .str s => match parseFloat s with
    | some x => .ok x
    | none => .error .valueError
  | .null | .arr _ | .obj _ => .error .typeError

/-- `_apply_degradation`. -/
def applyDegradation [PyText] (i : ActionIntent) : Except PyError ActionIntent :=
  match i.payload.degradationPolicy with
  | .reduceSpeed =>
    let factor := (i.payload.parameters.get "speed_factor".toList).getD (.float (.fin 1))
    (toFloat factor).map fun x =>
      { i with payload := { i.payload with
          parameters := i.payload.parameters.set "speed_factor".toList (.float x.half)
          degradationPolicy := .none } }
  | _ => .error .valueError

theorem applyDegradation_ok [PyText] {i j : ActionIntent} (h : applyDegradation i = .ok j) :
    j.id = i.id ∧ j.target = i.target ∧ j.payload.actionType = i.payload.actionType ∧ j.predicates = i.predicates := by
  simp only [applyDegradation] at h
  split at h
  · cases value : toFloat ((i.payload.parameters.get "speed_factor".toList).getD (.float (.fin 1))) with
    | error e => rw [value] at h; cases h
    | ok x =>
      rw [value] at h
      obtain rfl := Except.ok.inj h
      exact ⟨rfl, rfl, rfl, rfl⟩
  · cases h

theorem applyDegradation_added [PyText] {i j : ActionIntent} (h : applyDegradation i = .ok j) : j.policyAdded = i.policyAdded := by
  simp only [applyDegradation] at h
  split at h
  · cases value : toFloat ((i.payload.parameters.get "speed_factor".toList).getD (.float (.fin 1))) with
    | error e => rw [value] at h; cases h
    | ok x =>
      rw [value] at h
      obtain rfl := Except.ok.inj h
      rfl
  · cases h

theorem applyDegradation_policy [PyText] {i j : ActionIntent} (h : applyDegradation i = .ok j) :
    i.payload.degradationPolicy ≠ .none ∧ j.payload.degradationPolicy = .none := by
  simp only [applyDegradation] at h
  split at h
  · rename_i reduce
    cases value : toFloat ((i.payload.parameters.get "speed_factor".toList).getD (.float (.fin 1))) with
    | error e => rw [value] at h; cases h
    | ok x =>
      rw [value] at h
      obtain rfl := Except.ok.inj h
      exact ⟨by rw [reduce]; nofun, rfl⟩
  · cases h

end Xair
