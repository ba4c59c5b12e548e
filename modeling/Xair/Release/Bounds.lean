import Xair.Release.Cell
import Xair.Runtime.TargetLock
import Xair.Server.Requests
import Xair.Store.Memory
import Mathlib.Tactic.Linarith

/-!
# Bounds on the true age

Every check compares a reading of its own clock with the producer's stamp. With the
producer's clock at most `clock_uncertainty_ms` ahead of the checking one, each of them
bounds the true age, on whichever side of its comparison it has the uncertainty.
-/

namespace Xair

open Library

namespace Config

/-- The deadline the gateway passes to the controller. -/
def cellDeadlineMs (cfg : Config) (i : ActionIntent) : ℚ :=
  i.timestampDecision + releaseBound i - cfg.clockUncertaintyMs

/-- What a check has established of the age it has measured. -/
def AgedAtMost (cfg : Config) (i : ActionIntent) (now bound : ℚ) : Prop := age i now + cfg.clockUncertaintyMs ≤ bound

theorem agedAtMost_of_validate {cfg : Config} {i : ActionIntent} {now : ℚ} (accepted : (cfg.validate i now).1 = true) :
    cfg.AgedAtMost i now i.freshnessWindowMs ∧ ∀ d, i.deadlineMs = some d → cfg.AgedAtMost i now d := by
  simp only [validate] at accepted
  split at accepted
  · cases accepted
  split at accepted
  · cases accepted
  rename_i fresh
  refine ⟨le_of_not_gt fresh, fun d declared => ?_⟩
  rw [declared] at accepted
  simp only at accepted
  split at accepted
  · cases accepted
  · rename_i timely
    exact le_of_not_gt timely

theorem releaseBound_of_validate {cfg : Config} {i : ActionIntent} {now : ℚ} (accepted : (cfg.validate i now).1 = true) :
    cfg.AgedAtMost i now (releaseBound i) := by
  obtain ⟨fresh, timely⟩ := agedAtMost_of_validate accepted
  unfold releaseBound
  split
  · rename_i d declared
    exact timely d declared
  · exact fresh

theorem agedAtMost_of_validateRelease {cfg : Config} {i : ActionIntent} {now : ℚ}
    (accepted : (cfg.validateRelease i now).1 = true) : cfg.AgedAtMost i now (releaseBound i) := by
  simp only [validateRelease] at accepted
  split at accepted
  · cases accepted
  split at accepted
  · cases accepted
  · rename_i timely
    exact le_of_not_gt timely

end Config

theorem CommitRequest.timely_of_refusal {req : CommitRequest} {committed : List Str} {age : ℚ} {observed : Int} {bound : ℚ}
    (h : req.refusal committed age observed = none) (asked : req.ageBoundMs = some bound) : age ≤ bound := by
  unfold refusal at h
  split at h
  · cases h
  split at h
  · cases h
  split at h
  · cases h
  · rename_i timely
    rw [asked] at timely
    exact le_of_not_gt (by simpa using timely)

theorem MemoryStore.timely_of_commit {m : MemoryStore} {now bound : ℚ} {req : CommitRequest}
    (committed : (m.commit now req).1.status = .committed) (asked : req.ageBoundMs = some bound) :
    now * 1000 - req.decisionEpochMs ≤ bound := by
  simp only [commit] at committed
  split at committed
  · rename_i status refused
    have refusal := CommitRequest.refused_of_refusal refused
    rw [show status = .committed from committed] at refusal
    cases refusal
  · rename_i granted
    exact CommitRequest.timely_of_refusal granted asked

theorem Redis.timely_of_commitScript {s : Redis} {layout : Layout} {ticket : Nat} {req : CommitRequest} {reply : ScriptReply}
    {bound : ℚ} (replied : (s.commitScript layout ticket req).1 = some reply) (committed : reply.status = .committed)
    (asked : req.ageBoundMs = some bound) : s.clock * 1000 - req.decisionEpochMs ≤ bound := by
  simp only [commitScript] at replied
  split at replied
  · cases replied
    cases committed
  split at replied
  · cases replied
  split at replied
  · cases replied
    cases committed
  split at replied
  · cases replied
    cases committed
  · rename_i timely
    rw [asked] at timely
    exact le_of_not_gt (by simpa using timely)

/-- A check on the release side lets an intent pass, at a reading of its clock. -/
inductive Passes (cfg : Config) (i : ActionIntent) (now : ℚ) : Prop
  | gate (accepted : (cfg.validateRelease i now).1 = true)
  | memory (m : MemoryStore) (clock : ℚ) (record : IntentRecord) (scope : Scope) (margin : ℚ) (reading : now = clock * 1000)
      (tightened : 0 ≤ margin) (committed : (m.commit clock (cfg.commitRequest i record scope margin)).1.status = .committed)
  | script (s : Redis) (layout : Layout) (ticket : Nat) (record : IntentRecord) (scope : Scope) (margin : ℚ)
      (reply : ScriptReply) (reading : now = s.clock * 1000) (tightened : 0 ≤ margin)
      (replied : (s.commitScript layout ticket (cfg.commitRequest i record scope margin)).1 = some reply)
      (committed : reply.status = .committed)
  | consumer (logged : Members) (record : IntentRecord) (scope : Scope)
      (decision : logged.get "decision_epoch_ms".toList = (cfg.authorizationRecord i record scope).get "decision_epoch_ms".toList)
      (bound : logged.get "release_bound_ms".toList = (cfg.authorizationRecord i record scope).get "release_bound_ms".toList)
      (timely : late now logged = false)
  | conditional (c : Cell) (ticket : Nat) (expected : Int) (state : Str) (version : Int)
      (executed : c.answer now (conditionalResume ticket i.id expected (cfg.cellDeadlineMs i)) = .executed state version)
  | predicate (c : Cell) (ticket : Nat) (state : Str) (version : Int)
      (executed : c.answer now (predicateResume ticket i.id (cfg.cellDeadlineMs i)) = .executed state version)

/-- The controller's test of a deadline that is not passed over as none. -/
theorem agedAtMost_of_deadline {cfg : Config} {i : ActionIntent} {now : ℚ} (positive : 0 < cfg.cellDeadlineMs i)
    (timely : ∀ deadline, cellDeadline (cfg.cellDeadlineMs i) = some deadline → now ≤ deadline) :
    cfg.AgedAtMost i now (Config.releaseBound i) := by
  have bound := timely _ (if_pos positive)
  unfold Config.cellDeadlineMs at bound
  unfold Config.AgedAtMost Config.age
  linarith

theorem Passes.agedAtMost {cfg : Config} {i : ActionIntent} {now : ℚ} (passes : Passes cfg i now)
    (positive : 0 < cfg.cellDeadlineMs i) : cfg.AgedAtMost i now (Config.releaseBound i) := by
  unfold Config.AgedAtMost Config.age
  cases passes with
  | gate accepted => exact Config.agedAtMost_of_validateRelease accepted
  | memory m clock record scope margin reading tightened committed =>
    have timely := MemoryStore.timely_of_commit committed rfl
    simp only [Config.commitRequest] at timely
    linarith
  | script s layout ticket record scope margin reply reading tightened replied committed =>
    have timely := Redis.timely_of_commitScript replied committed rfl
    simp only [Config.commitRequest] at timely
    linarith
  | consumer logged record scope decision bound timely =>
    have first : numberAt logged "decision_epoch_ms" = some (.fin i.timestampDecision) := by
      rw [numberAt, decision]
      rfl
    have second : numberAt logged "release_bound_ms" = some (.fin (Config.releaseBound i - cfg.clockUncertaintyMs)) := by
      rw [numberAt, bound]
      rfl
    have compared : ¬Config.releaseBound i - cfg.clockUncertaintyMs < now - i.timestampDecision := by
      simpa only [late, first, second, PyFloat.lt, decide_eq_false_iff_not] using timely
    linarith
  | conditional c ticket expected state version executed =>
    exact agedAtMost_of_deadline positive (Cell.executed_spec executed).2.2.2.2
  | predicate c ticket state version executed =>
    exact agedAtMost_of_deadline positive (Cell.executed_spec executed).2.2.2.2

/-- A positive reading at which an intent was validated makes the deadline positive. -/
theorem cellDeadlineMs_pos {cfg : Config} {i : ActionIntent} {now : ℚ} (accepted : (cfg.validate i now).1 = true)
    (positive : 0 < now) : 0 < cfg.cellDeadlineMs i := by
  have bound := Config.releaseBound_of_validate accepted
  unfold Config.AgedAtMost Config.age at bound
  unfold Config.cellDeadlineMs
  linarith

/-- The stamp is the true decision time and the producer's offset, a reading the true time and the
offset of the process that checks. -/
theorem trueAge_bounded {cfg : Config} {i : ActionIntent} {decided producer : ℚ}
    (stamped : i.timestampDecision = decided + producer) {time offset : ℚ}
    (ahead : producer ≤ offset + cfg.clockUncertaintyMs) (positive : 0 < time + offset)
    (accepted : (cfg.validate i (time + offset)).1 = true) :
    (time - decided ≤ i.freshnessWindowMs ∧ ∀ d, i.deadlineMs = some d → time - decided ≤ d) ∧
      ∀ time' offset' : ℚ, producer ≤ offset' + cfg.clockUncertaintyMs → Passes cfg i (time' + offset') →
        time' - decided ≤ Config.releaseBound i := by
  have trueAge : ∀ {time offset bound : ℚ}, producer ≤ offset + cfg.clockUncertaintyMs →
      cfg.AgedAtMost i (time + offset) bound → time - decided ≤ bound := by
    intro time offset bound ahead aged
    unfold Config.AgedAtMost Config.age at aged
    linarith
  obtain ⟨fresh, timely⟩ := Config.agedAtMost_of_validate accepted
  refine ⟨⟨trueAge ahead fresh, fun d declared => trueAge ahead (timely d declared)⟩, ?_⟩
  intro time' offset' ahead' passes
  exact trueAge ahead' (passes.agedAtMost (cellDeadlineMs_pos accepted positive))

/-- A decision of time 0, validated half a second later and resumed at the end of its window. -/
theorem trueAge_bounded_plainIntent :
    ((500 : ℚ) - 0 ≤ (plainIntent "a" "cell").freshnessWindowMs ∧
      ∀ d, (plainIntent "a" "cell").deadlineMs = some d → (500 : ℚ) - 0 ≤ d) ∧
      (1000 : ℚ) - 0 ≤ Config.releaseBound (plainIntent "a" "cell") := by
  have stamped : (plainIntent "a" "cell").timestampDecision = 0 + 0 := by decide +kernel
  have ahead : (0 : ℚ) ≤ 0 + plainConfig.clockUncertaintyMs := by decide +kernel
  have positive : (0 : ℚ) < 500 + 0 := by decide +kernel
  obtain ⟨validated, released⟩ := trueAge_bounded stamped ahead positive (by decide +kernel)
  refine ⟨validated, released 1000 0 (by decide +kernel) ?_⟩
  exact .conditional (Cell.boot none 1) 0 1 runState 1 (by decide +kernel)

end Xair
