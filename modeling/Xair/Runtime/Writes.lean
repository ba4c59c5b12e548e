import Xair.Runtime.Runs
import Xair.Library.Moves

/-!
# What the operations write

Apart from admission an operation changes the runtime by a few kinds of writes. A preorder
that holds along each of them holds along every operation, returned or raised.
-/

namespace Xair

open Library

variable [PyText]

/-- What a validation pass may make of an intent. -/
inductive Revises (i : ActionIntent) : ActionIntent → Prop
  | policy (policy : Policy) : Revises i (policy.applyTo i).1
  | stop : Revises i { i with policyAdded := some [] }
  | degraded {j : ActionIntent} (h : applyDegradation i = .ok j) : Revises i j

/-- The writes of the operations move along `R`. -/
structure Writes (R : Runtime → Runtime → Prop) : Prop where
  /-- To locks, counters, queue, policy, installed context and the callback's calls. -/
  aside : ∀ rt rt' : Runtime, rt'.heap = rt.heap → rt'.records = rt.records → rt'.audit = rt.audit → rt'.seen = rt.seen → R rt rt'
  moved : ∀ (rt : Runtime) id record state outcome reason, rt.records.get id = some record → state ∈ record.state.allowed →
    R rt (rt.move id record state outcome reason)
  assigned : ∀ (rt : Runtime) id record (f : IntentRecord → IntentRecord), rt.records.get id = some record → R rt (rt.putRecord id (f record))
  noted : ∀ (rt : Runtime) id record reason, rt.records.get id = some record →
    R rt (rt.log ⟨id, record.state, none, "rejected_report:".toList ++ reason⟩)
  revised : ∀ (rt : Runtime) ref i, Revises (rt.heap ref) i → R rt (rt.putIntent ref i)

variable {R : Runtime → Runtime → Prop} [IsPreorder Runtime R] (w : Writes R)

namespace Writes

include w

theorem transition (id : Str) (state : IntentState) (outcome : Option DecisionOutcome) (reason : Str) :
    Moves R (Xair.transition id state outcome reason) := by
  intro rt
  rw [Xair.transition, ends_bind, ends_get]
  cases found : rt.records.get id with
  | none => exact ends_throw.mpr (Std.Refl.refl rt)
  | some record =>
    simp only
    rw [ends_ite]
    refine ⟨fun allowed => ?_, fun _ => ends_throw.mpr (Std.Refl.refl rt)⟩
    exact moves_set (moves_pure _) (w.moved rt id record state outcome reason found allowed)

theorem assign (id : Str) (f : IntentRecord → IntentRecord) : Moves R (Xair.assign id f) := by
  refine moves_modify fun rt => ?_
  cases found : rt.records.get id with
  | none => exact Std.Refl.refl rt
  | some record => exact w.assigned rt id record f found

theorem reject {α : Type} (record : IntentRecord) (requested : IntentState) (reason : Str) :
    Moves R (Xair.reject record requested reason : RuntimeM α) := by
  refine moves_get_bind fun rt => moves_bind (moves_modify fun rt' => ?_) fun _ => moves_throw _
  cases found : rt'.records.get (rt.heap record.intent).id with
  | none => exact Std.Refl.refl rt'
  | some r => exact w.noted rt' _ r _ found

omit [IsPreorder Runtime R] in
theorem count (f : Metrics → Metrics) : Moves R (modify fun rt => rt.count f : RuntimeM PUnit) :=
  moves_modify fun rt => w.aside rt _ rfl rfl rfl rfl

omit [IsPreorder Runtime R] in
theorem releaseTarget (record : IntentRecord) : Moves R (Xair.releaseTarget record) :=
  moves_modify fun rt => w.aside rt _ rfl rfl rfl rfl

theorem requeue (again : Bool) (ref : Ref) : Moves R (modify fun rt => if again then rt.submit ref else rt : RuntimeM PUnit) := by
  refine moves_modify fun rt => ?_
  cases again with
  | true => exact w.aside rt _ rfl rfl rfl rfl
  | false => exact Std.Refl.refl rt

/-! ### A validation pass -/

theorem conclude (ref : Ref) (id : Str) (again : Bool) (outcome : DecisionOutcome) (reason : Str) :
    Moves R (Xair.conclude ref id again outcome reason) := by
  cases outcome with
  | degrade =>
    intro rt
    rw [Xair.conclude, ends_bind, ends_get]
    cases degraded : applyDegradation (rt.heap ref) with
    | error e => exact ends_throw.mpr (Std.Refl.refl rt)
    | ok i =>
      simp only
      rw [ends_bind, ends_modify]
      refine Moves.after ?_ (w.revised rt ref i (.degraded degraded))
      exact moves_bind (w.assign id _) fun _ => moves_bind (w.transition id _ _ _) fun record => moves_bind (w.count _) fun _ =>
        moves_bind (w.requeue again ref) fun _ => moves_pure record
  | execute =>
    exact moves_bind (moves_modify fun rt => w.aside rt _ rfl rfl rfl rfl) fun _ => moves_bind (w.assign id _) fun _ =>
      moves_bind (w.transition id _ _ _) fun record => moves_bind (w.count _) fun _ => moves_pure record
  | delay =>
    exact moves_bind (w.transition id _ _ _) fun record => moves_bind (w.count _) fun _ =>
      moves_bind (w.requeue again ref) fun _ => moves_pure record
  | revoke => exact moves_bind (w.transition id _ _ _) fun record => moves_bind (w.count _) fun _ => moves_pure record

theorem authorizeStop (ref : Ref) (id : Str) (installed : Nat) : Moves R (Xair.authorizeStop ref id installed) :=
  moves_bind (moves_modify fun rt => w.revised rt ref _ .stop) fun _ => moves_bind (w.assign id _) fun _ =>
    moves_bind (w.transition id _ _ _) fun record => moves_bind (w.count _) fun _ => moves_pure record

theorem revokeStale (id : Str) (installed : Nat) : Moves R (Xair.revokeStale id installed) :=
  moves_bind (w.assign id _) fun _ => moves_bind (w.transition id _ _ _) fun record => moves_bind (w.count _) fun _ =>
    moves_pure record

theorem evaluate (cfg : Config) (call : ProcessCall) (ref : Ref) (id : Str) (snapshot : Members) (version : Nat) :
    Moves R (Xair.evaluate cfg call ref id snapshot version) := by
  intro rt
  rw [Xair.evaluate, ends_bind, ends_get]
  refine moves_set (moves_bind (w.assign id _) fun _ => moves_get_bind fun rt' => ?_) (w.revised rt ref _ (.policy rt.policy))
  split
  · exact moves_throw _
  · exact moves_bind (w.assign id _) fun _ => w.conclude ref id _ _ _

theorem validationPass (cfg : Config) (call : ProcessCall) (ref : Ref) : Moves R (Xair.validationPass cfg call ref) := by
  refine moves_get_bind fun rt => moves_bind (w.transition _ _ _ _) fun _ => moves_bind (w.transition _ _ _ _) fun _ =>
    moves_bind (w.assign _ _) fun _ => ?_
  refine moves_ite (fun _ => w.authorizeStop _ _ _) fun _ => moves_ite (fun _ => w.revokeStale _ _) fun _ => w.evaluate _ _ _ _ _ _

/-- A pass on an intent without a record registers it first. -/
theorem processIntent (registers : ∀ (rt : Runtime) ref, rt.records.get (rt.heap ref).id = none → R rt (rt.register ref))
    (cfg : Config) (call : ProcessCall) (ref : Ref) : Moves R (Xair.processIntent cfg call ref) := by
  intro rt
  rw [Xair.processIntent, ends_bind, ends_get]
  cases found : rt.records.get (rt.heap ref).id with
  | none => exact moves_set (w.validationPass cfg call ref) (registers rt ref found)
  | some record => exact moves_ite (fun _ => w.validationPass cfg call ref) (fun _ => moves_pure record) rt

theorem processNext (registers : ∀ (rt : Runtime) ref, rt.records.get (rt.heap ref).id = none → R rt (rt.register ref))
    (cfg : Config) (call : ProcessCall) : Moves R (Xair.processNext cfg call) := by
  intro rt
  rw [Xair.processNext, ends_bind, ends_get]
  cases queue : rt.queue with
  | nil => exact ends_pure.mpr (Std.Refl.refl rt)
  | cons q rest =>
    exact moves_set (moves_bind (w.processIntent registers cfg _ q.intent) fun record => moves_pure _)
      (w.aside rt _ rfl rfl rfl rfl)

/-! ### Commit, release and effect -/

theorem recordCommit (id : Str) (committed : Bool) (reason : Str) (seq : Option Nat) :
    Moves R (Xair.recordCommit id committed reason seq) := by
  refine moves_get_bind fun rt => ?_
  split
  · exact moves_throw _
  · rename_i record _
    refine moves_ite (fun _ => moves_pure record) fun _ => moves_ite (fun _ => w.reject _ _ _) fun _ =>
      moves_bind (w.releaseTarget record) fun _ => moves_ite (fun _ => ?_) fun _ => ?_
    · exact moves_bind (w.assign id _) fun _ => moves_bind (w.transition id _ _ _) fun a => moves_bind (w.count _) fun _ => moves_pure a
    · exact moves_bind (w.assign id _) fun _ => moves_bind (w.transition id _ _ _) fun a => moves_bind (w.count _) fun _ => moves_pure a

theorem reportRelease (cfg : Config) (id : Str) (released : Bool) (reason : Str) (contextVersion readSetVersion : Option Int) :
    Moves R (Xair.reportRelease cfg id released reason contextVersion readSetVersion) := by
  refine moves_get_bind fun rt => ?_
  split
  · exact moves_throw _
  · rename_i record _
    refine moves_ite (fun _ => moves_pure record) fun _ => moves_ite (fun _ => moves_pure record) fun _ =>
      moves_ite (fun _ => w.reject _ _ _) fun _ => moves_ite (fun _ => w.reject _ _ _) fun _ => ?_
    refine moves_bind (w.releaseTarget record) fun _ => moves_ite (fun _ => ?_) fun _ => ?_
    · refine moves_bind (w.assign id _) fun _ => moves_bind (w.transition id _ _ _) fun a => moves_bind (w.count _) fun _ =>
        moves_bind (moves_modify fun rt => ?_) fun _ => moves_pure a
      split
      · exact w.aside rt _ rfl rfl rfl rfl
      · exact Std.Refl.refl rt
    · exact moves_bind (w.assign id _) fun _ => moves_bind (w.transition id _ _ _) fun a => moves_bind (w.count _) fun _ => moves_pure a

theorem reportEffect (id : Str) (status : EffectStatus) (detail : Str) : Moves R (Xair.reportEffect id status detail) := by
  refine moves_get_bind fun rt => ?_
  split
  · exact moves_throw _
  · rename_i record _
    refine moves_ite (fun _ => moves_pure record) fun _ => moves_ite (fun _ => w.reject _ _ _) fun _ => ?_
    exact moves_bind (w.assign id _) fun _ => moves_bind (w.transition id _ _ _) fun a => moves_bind (w.count _) fun _ => moves_pure a

theorem supervisoryRevoke (id : Str) (reason : Str) : Moves R (Xair.supervisoryRevoke id reason) := by
  refine moves_get_bind fun rt => ?_
  split
  · exact moves_throw _
  · exact moves_bind (w.transition id _ _ _) fun a => moves_bind (w.releaseTarget a) fun _ => moves_pure a

end Writes

end Xair
