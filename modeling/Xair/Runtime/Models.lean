import Xair.Context.Validator
import Xair.Library.Dict

/-!
# Intents and their records

The data of `models.py` and the transition table of `lifecycle.py`. Intents are
mutable and shared between a request, the queue and a record, so a record refers
to its intent by a reference into the heap of the runtime.
-/

namespace Xair

open Library

inductive IntentState where
  | created | pending | validating | authorized | delayed | degraded | revoked | expired
  | committed | released | withheld | effectConfirmed | failed | unknownEffect
  deriving DecidableEq

inductive ReleaseDecision where
  | release | withhold
  deriving DecidableEq

inductive EffectStatus where
  | confirmed | failed | unknown
  deriving DecidableEq

inductive DecisionOutcome where
  | execute | delay | degrade | revoke
  deriving DecidableEq

/-- The degradation policies the runtime implements, and any other declared text. -/
inductive DegradationPolicy where
  | none | reduceSpeed
  | unsupported (name : Str)
  deriving DecidableEq

/-- `ACTION_CLASSES`. -/
inductive ActionClass where
  | stop | start | motion | reset | shutdown | other
  deriving DecidableEq

/-- `RISK_REDUCING`. -/
def ActionClass.riskReducing (c : ActionClass) : Bool := decide (c = .stop)

structure ActionDescriptor where
  actionType : Str
  targetEntity : Str
  parameters : Members
  degradationPolicy : DegradationPolicy

/-- Times are in milliseconds since the epoch. -/
structure ActionIntent where
  id : Str
  source : Str
  timestampDecision : ℚ
  freshnessWindowMs : Int
  payload : ActionDescriptor
  deadlineMs : Option Int
  preconditions : List Str
  safetyConstraints : List Str
  priority : Int
  policyAdded : Option (List Str)

abbrev ActionIntent.target (i : ActionIntent) : Str := i.payload.targetEntity

abbrev Ref := Nat

structure IntentRecord where
  intent : Ref
  state : IntentState
  outcome : Option DecisionOutcome
  reason : Str
  contextVersion : Nat
  readSet : List Str
  readSetVersion : Nat
  policyPredicates : List Str
  predicates : List Str
  predicateVersion : Int
  actionClass : ActionClass
  releaseDecision : Option ReleaseDecision
  commitSeq : Option Nat
  effectStatus : Option EffectStatus
  effectDetail : Str
  deriving DecidableEq

/-- `IntentRecord(intent=intent, state=CREATED)`. -/
def IntentRecord.fresh (intent : Ref) : IntentRecord where
  intent := intent
  state := .created
  outcome := none
  reason := []
  contextVersion := 0
  readSet := []
  readSetVersion := 0
  policyPredicates := []
  predicates := []
  predicateVersion := -1
  actionClass := .other
  releaseDecision := none
  commitSeq := none
  effectStatus := none
  effectDetail := []

/-! ### The state machine -/

namespace IntentState

/-- `ALLOWED_TRANSITIONS`. -/
def allowed : IntentState → List IntentState
  | created => [pending, revoked]
  | pending => [validating, revoked]
  | validating => [authorized, delayed, degraded, revoked, expired]
  | delayed => [pending, revoked, expired]
  | degraded => [pending, revoked, expired]
  | authorized => [committed, released, withheld, revoked]
  | committed => [released, withheld]
  | released => [effectConfirmed, failed, unknownEffect]
  | unknownEffect => [effectConfirmed, failed]
  | withheld | effectConfirmed | failed | revoked | expired => []

/-- `SETTLED_STATES`. -/
def settled (s : IntentState) : Bool := s.allowed.isEmpty || decide (s = unknownEffect)

/-- `_VALIDATABLE_STATES`. -/
def validatable (s : IntentState) : Bool := decide (s = created ∨ s = delayed ∨ s = degraded)

def text : IntentState → String
  | created => "CREATED"
  | pending => "PENDING"
  | validating => "VALIDATING"
  | authorized => "AUTHORIZED"
  | delayed => "DELAYED"
  | degraded => "DEGRADED"
  | revoked => "REVOKED"
  | expired => "EXPIRED"
  | committed => "COMMITTED"
  | released => "RELEASED"
  | withheld => "WITHHELD"
  | effectConfirmed => "EFFECT_CONFIRMED"
  | failed => "FAILED"
  | unknownEffect => "UNKNOWN_EFFECT"

/-- How far a state is past the admission of its intent. Validation passes repeat below 1. -/
def stage : IntentState → Nat
  | created | pending | validating | delayed | degraded => 0
  | authorized => 1
  | committed => 2
  | released => 3
  | unknownEffect => 4
  | withheld | effectConfirmed | failed | revoked | expired => 5

theorem stage_le_of_allowed {s t : IntentState} (h : t ∈ s.allowed) : s.stage ≤ t.stage := by
  cases s <;> simp only [allowed, List.mem_cons, List.not_mem_nil, or_false] at h
  all_goals rcases h with rfl | rfl | rfl | rfl | rfl <;> decide

end IntentState

def EffectStatus.text : EffectStatus → String
  | confirmed => "confirmed"
  | failed => "failed"
  | unknown => "unknown"

def EffectStatus.state : EffectStatus → IntentState
  | confirmed => .effectConfirmed
  | failed => .failed
  | unknown => .unknownEffect

namespace IntentState

/-- The release decision that belongs to a state. -/
def decision : IntentState → Option ReleaseDecision
  | released | effectConfirmed | failed | unknownEffect => some .release
  | withheld => some .withhold
  | _ => none

/-- The effect status that belongs to a state. -/
def effect : IntentState → Option EffectStatus
  | effectConfirmed => some .confirmed
  | failed => some .failed
  | unknownEffect => some .unknown
  | _ => none

theorem undecided_of_revocable {s : IntentState} (h : revoked ∈ s.allowed) : s.decision = none ∧ s.effect = none := by
  cases s <;> first | exact ⟨rfl, rfl⟩ | (revert h; decide)

theorem released_of_effect {s : IntentState} {status : EffectStatus} (h : status.state ∈ s.allowed) :
    s.decision = some .release := by
  cases s <;> first | rfl | (revert h; cases status <;> decide)

theorem undecided_of_releasable {s : IntentState} (h : released ∈ s.allowed) : s.decision = none := by
  cases s <;> first | rfl | (revert h; decide)

/-- Only a transition to `RELEASED` decides a release. -/
theorem decision_of_allowed {s t : IntentState} (h : t ∈ s.allowed) (other : t ≠ released) :
    t.decision = some .release ↔ s.decision = some .release := by
  cases s <;> revert h <;> cases t <;> revert other <;> decide

theorem ne_self_of_allowed {s t : IntentState} (h : t ∈ s.allowed) : t ≠ s ∧ t ≠ created := by
  cases s <;> revert h <;> cases t <;> decide

end IntentState

theorem EffectStatus.state_decision (status : EffectStatus) : status.state.decision = some .release := by
  cases status <;> rfl

theorem EffectStatus.state_effect (status : EffectStatus) : status.state.effect = some status := by
  cases status <;> rfl

/-- The fields that report release and effect agree with the state. -/
structure IntentRecord.Consistent (record : IntentRecord) : Prop where
  decision : record.releaseDecision = record.state.decision
  effect : record.effectStatus = record.state.effect

structure AuditEntry where
  intentId : Str
  state : IntentState
  outcome : Option DecisionOutcome
  reason : Str
  deriving DecidableEq

/-- The entry that `lifecycle.register` writes. -/
def AuditEntry.registration (id : Str) : AuditEntry := ⟨id, .created, none, []⟩

end Xair
