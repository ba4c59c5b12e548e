import Xair.Runtime.Models

/-!
# The runtime state

`XAIRRuntime` with its parts: the lifecycle tracker, the target locks, the
receiver's queue, the seen-table and the installed context snapshot. An operation
that raises keeps what it has written so far.
-/

namespace Xair

open Library

/-- The exceptions a runtime operation raises to its caller. -/
inductive RuntimeError where
  | py (e : PyError)
  | keyError (id : Str)
  | invalidTransition (id : Str) (current requested : IntentState)
  deriving DecidableEq

structure Policy where
  actions : Dict Str (List Str)
  classes : Dict Str ActionClass
  classPredicates : Dict ActionClass (List Str)

def Policy.empty : Policy := ⟨Dict.empty, Dict.empty, Dict.empty⟩

/-- The counters of `_metrics`. -/
structure Metrics where
  intentsReceived : Nat
  authorized : Nat
  committed : Nat
  released : Nat
  withheld : Nat
  effectConfirmed : Nat
  effectFailed : Nat
  effectUnknown : Nat
  revoked : Nat
  delayed : Nat
  degraded : Nat
  deriving DecidableEq

def Metrics.zero : Metrics := ⟨0, 0, 0, 0, 0, 0, 0, 0, 0, 0, 0⟩

/-- `_QueuedIntent`. -/
structure QueuedIntent where
  priority : Int
  seq : Nat
  intent : Ref
  deriving DecidableEq

/-- What does not change while a process runs. -/
structure Config where
  maxFutureSkewMs : ℚ
  clockUncertaintyMs : ℚ
  idempotencyRetentionS : ℚ
  /-- An `on_actuation` callback is installed. -/
  callback : Bool

structure Runtime where
  /-- The intents, those that callers have yet to create included. -/
  heap : Ref → ActionIntent
  records : Dict Str IntentRecord
  audit : List AuditEntry
  activeTargets : List Str
  /-- Intent id to admission time in seconds, oldest first. -/
  seen : Dict Str ℚ
  /-- Sorted by priority, then by arrival. -/
  queue : List QueuedIntent
  counter : Nat
  context : Members
  contextVersion : Nat
  policy : Policy
  metrics : Metrics
  /-- The calls of `on_actuation`. -/
  actuated : List Ref

/-- A runtime as `__init__` builds it. -/
def Runtime.init (heap : Ref → ActionIntent) (context : Members) (policy : Policy) : Runtime where
  heap := heap
  records := Dict.empty
  audit := []
  activeTargets := []
  seen := Dict.empty
  queue := []
  counter := 0
  context := context
  contextVersion := 0
  policy := policy
  metrics := .zero
  actuated := []

abbrev RuntimeM := EStateM RuntimeError Runtime

namespace Runtime

/-! ### Single writes -/

def putRecord (rt : Runtime) (id : Str) (record : IntentRecord) : Runtime :=
  { rt with records := rt.records.insert id record }

def putIntent (rt : Runtime) (ref : Ref) (intent : ActionIntent) : Runtime :=
  { rt with heap := Function.update rt.heap ref intent }

theorem heap_putIntent (rt : Runtime) (ref r : Ref) (intent : ActionIntent) :
    (rt.putIntent ref intent).heap r = if r = ref then intent else rt.heap r :=
  Function.update_apply rt.heap ref intent r

def log (rt : Runtime) (entry : AuditEntry) : Runtime := { rt with audit := rt.audit ++ [entry] }

def count (rt : Runtime) (f : Metrics → Metrics) : Runtime := { rt with metrics := f rt.metrics }

/-- `coordinator.check_conflict`. -/
def busy (rt : Runtime) (target : Str) : Bool := rt.activeTargets.contains target

/-- `coordinator.acquire`. -/
def acquire (rt : Runtime) (target : Str) : Runtime :=
  { rt with activeTargets := if target ∈ rt.activeTargets then rt.activeTargets else target :: rt.activeTargets }

/-- `coordinator.release`. -/
def release (rt : Runtime) (target : Str) : Runtime :=
  { rt with activeTargets := rt.activeTargets.filter fun t => decide (t ≠ target) }

theorem mem_acquire {rt : Runtime} {target t : Str} :
    t ∈ (rt.acquire target).activeTargets ↔ t = target ∨ t ∈ rt.activeTargets := by
  rw [acquire]
  split
  · rename_i held
    exact ⟨Or.inr, fun h => h.elim (fun same => same ▸ held) id⟩
  · exact List.mem_cons

theorem mem_release {rt : Runtime} {target t : Str} :
    t ∈ (rt.release target).activeTargets ↔ t ≠ target ∧ t ∈ rt.activeTargets := by
  rw [release, List.mem_filter, decide_eq_true_eq, and_comm]

/-! ### The lifecycle tracker -/

/-- `lifecycle.register`. -/
def register (rt : Runtime) (ref : Ref) : Runtime :=
  (rt.putRecord (rt.heap ref).id (.fresh ref)).log ⟨(rt.heap ref).id, .created, none, []⟩

/-- `lifecycle.forget`. -/
def forget (rt : Runtime) (id : Str) : Runtime := { rt with records := rt.records.erase id }

/-- The record after a transition. -/
def movedRecord (record : IntentRecord) (state : IntentState) (outcome : Option DecisionOutcome) (reason : Str) :
    IntentRecord :=
  { record with state := state, outcome := outcome <|> record.outcome, reason := reason }

/-- The effect of a transition that is allowed. -/
def move (rt : Runtime) (id : Str) (record : IntentRecord) (state : IntentState) (outcome : Option DecisionOutcome)
    (reason : Str) : Runtime :=
  (rt.putRecord id (movedRecord record state outcome reason)).log ⟨id, state, outcome, reason⟩

end Runtime

/-- `lifecycle.transition`. -/
def transition (id : Str) (state : IntentState) (outcome : Option DecisionOutcome) (reason : Str) :
    RuntimeM IntentRecord := do
  let rt ← get
  match rt.records.get id with
  | none => throw (.keyError id)
  | some record =>
    if state ∈ record.state.allowed then
      set (rt.move id record state outcome reason)
      return Runtime.movedRecord record state outcome reason
    else throw (.invalidTransition id record.state state)

/-- `lifecycle.note`. -/
def note (id : Str) (reason : Str) : RuntimeM Unit := modify fun rt =>
  match rt.records.get id with
  | none => rt
  | some record => rt.log ⟨id, record.state, none, reason⟩

/-- An assignment to fields of a record of the tracker. -/
def assign (id : Str) (f : IntentRecord → IntentRecord) : RuntimeM Unit := modify fun rt =>
  match rt.records.get id with
  | none => rt
  | some record => rt.putRecord id (f record)

end Xair
