import Xair.Runtime.Mandates

/-!
# Records and their history

State, release decision, effect status, audit trail and callback are written by
separate statements. Between operations they always tell the same story.
-/

namespace Xair

open Library

/-- The audit entries of `id` lead, from its last registration on and by allowed transitions, to a
state. A refused report is noted with the state it finds. -/
inductive Path (id : Str) : List AuditEntry → IntentState → Prop
  | registered (before : List AuditEntry) : Path id (before ++ [.registration id]) .created
  | other {audit : List AuditEntry} {s : IntentState} {e : AuditEntry} (path : Path id audit s) (ne : e.intentId ≠ id) :
      Path id (audit ++ [e]) s
  | noted {audit : List AuditEntry} {s : IntentState} (path : Path id audit s) (reason : Str) :
      Path id (audit ++ [⟨id, s, none, "rejected_report:".toList ++ reason⟩]) s
  | moved {audit : List AuditEntry} {s t : IntentState} (path : Path id audit s) (allowed : t ∈ s.allowed)
      (outcome : Option DecisionOutcome) (reason : Str) : Path id (audit ++ [⟨id, t, outcome, reason⟩]) t

theorem Path.others {id : Str} {audit more : List AuditEntry} {s : IntentState} (path : Path id audit s)
    (foreign : ∀ e ∈ more, e.intentId ≠ id) : Path id (audit ++ more) s := by
  induction more generalizing audit with
  | nil => rwa [List.append_nil]
  | cons e more ih =>
    rw [List.append_cons]
    exact ih (path.other (foreign e List.mem_cons_self)) fun e' later => foreign e' (List.mem_cons_of_mem _ later)

/-! ### During a pass -/

/-- Since `start`, the record of the intent at `ref` has come to a state its audit entries lead to. -/
structure At (id : Str) (ref : Ref) (state : IntentState) (start rt : Runtime) : Prop where
  own : (rt.heap ref).id = id
  tracked : ∃ record, rt.records.get id = some record ∧ record.state = state ∧ (rt.heap record.intent).id = id ∧
    record.Consistent
  path : Path id rt.audit state
  since : start.audit <+: rt.audit
  calls : rt.actuated = start.actuated

/-- No release decision and no effect belong to the state. -/
def IntentState.Undecided (s : IntentState) : Prop := s.decision = none ∧ s.effect = none

namespace At

variable {id : Str} {ref : Ref} {state : IntentState} {start rt rt' : Runtime}

/-- A write to anything but records, intents, audit trail and callback. -/
theorem aside (h : At id ref state start rt) (records : rt'.records = rt.records) (heap : rt'.heap = rt.heap)
    (audit : rt'.audit = rt.audit) (actuated : rt'.actuated = rt.actuated) : At id ref state start rt' := by
  obtain ⟨own, tracked, path, since, same⟩ := h
  exact ⟨by rw [heap]; exact own, by rw [heap, records]; exact tracked, by rw [audit]; exact path, by rw [audit]; exact since,
    actuated.trans same⟩

theorem submit (h : At id ref state start rt) (requeue : Bool) :
    At id ref state start (if requeue then rt.submit ref else rt) := by
  split
  · exact h.aside rfl rfl rfl rfl
  · exact h

theorem putIntent (h : At id ref state start rt) {i : ActionIntent} (same : i.id = (rt.heap ref).id) :
    At id ref state start (rt.putIntent ref i) := by
  have ids : ∀ r, ((rt.putIntent ref i).heap r).id = (rt.heap r).id := by
    intro r
    rw [Runtime.heap_putIntent]
    split
    · rename_i here
      rw [here, same]
    · rfl
  obtain ⟨own, ⟨record, stored, reached, known, consistent⟩, path, since, same⟩ := h
  exact ⟨(ids ref).trans own, ⟨record, stored, reached, (ids _).trans known, consistent⟩, path, since, same⟩

theorem transition {t : IntentState} (h : At id ref state start rt) (allowed : t ∈ state.allowed)
    (before : state.Undecided) (after : t.Undecided) (outcome : Option DecisionOutcome) (reason : Str) :
    Ends (transition id t outcome reason) rt (fun _ rt' => At id ref t start rt' ∧ rt'.heap = rt.heap)
      fun _ _ => False := by
  obtain ⟨own, ⟨record, stored, rfl, known, decision, effect⟩, path, since, same⟩ := h
  refine (ends_transition stored allowed).mpr ⟨⟨own, ⟨_, Dict.get_insert_self _ _ _, rfl, known, ?_, ?_⟩,
    path.moved allowed outcome reason, since.trans (List.prefix_append _ _), same⟩, rfl⟩
  · exact decision.trans (before.1.trans after.1.symm)
  · exact effect.trans (before.2.trans after.2.symm)

theorem assign (h : At id ref state start rt) {f : IntentRecord → IntentRecord}
    (kept : ∀ r, (f r).state = r.state ∧ (f r).releaseDecision = r.releaseDecision ∧
      (f r).effectStatus = r.effectStatus ∧ ((f r).intent = r.intent ∨ (f r).intent = ref)) :
    Ends (assign id f) rt (fun _ rt' => At id ref state start rt' ∧ rt'.heap = rt.heap) fun _ _ => False := by
  obtain ⟨own, ⟨record, stored, reached, known, decision, effect⟩, path, since, same⟩ := h
  obtain ⟨sameState, sameDecision, sameEffect, intent⟩ := kept record
  refine (ends_assign stored).mpr ⟨⟨own, ⟨_, Dict.get_insert_self _ _ _, sameState.trans reached, ?_, ?_, ?_⟩, path, since,
    same⟩, rfl⟩
  · rcases intent with unchanged | here
    · rw [unchanged]
      exact known
    · rw [here]
      exact own
  · rw [sameDecision, sameState]
    exact decision
  · rw [sameEffect, sameState]
    exact effect

end At

/-- A pass has ended in a state without a decision. -/
def Passed (id : Str) (ref : Ref) (start rt : Runtime) : Prop :=
  ∃ state : IntentState, state.Undecided ∧ At id ref state start rt

section

variable [PyText] {id : Str} {ref : Ref} {start rt : Runtime}

theorem passed_conclude (h : At id ref .validating start rt) (requeue : Bool) (outcome : DecisionOutcome) (reason : Str) :
    Ends (conclude ref id requeue outcome reason) rt (fun _ => Passed id ref start) fun _ => Passed id ref start := by
  have undecided : IntentState.validating.Undecided := ⟨rfl, rfl⟩
  cases outcome with
  | degrade =>
    simp only [conclude]
    rw [ends_bind, ends_get]
    cases degraded : applyDegradation (rt.heap ref) with
    | error e => exact ends_throw.mpr ⟨.validating, undecided, h⟩
    | ok i =>
      simp only
      rw [ends_bind, ends_modify, ends_bind]
      refine ((h.putIntent (applyDegradation_ok degraded).1).assign (by exact fun r => ⟨rfl, rfl, rfl, Or.inr rfl⟩)).imp ?_
        fun _ _ h => h.elim
      intro _ rt₁ h₁
      rw [ends_bind]
      refine (h₁.1.transition (by decide) undecided ⟨rfl, rfl⟩ _ _).imp ?_ fun _ _ h => h.elim
      intro record rt₂ h₂
      rw [ends_bind, ends_modify, ends_bind, ends_modify, ends_pure]
      refine ⟨.degraded, ⟨rfl, rfl⟩, At.submit ?_ requeue⟩
      exact h₂.1.aside rfl rfl rfl rfl
  | execute =>
    simp only [conclude]
    rw [ends_bind, ends_modify, ends_bind]
    have locked : At id ref .validating start (rt.acquire (rt.heap ref).target) := h.aside rfl rfl rfl rfl
    refine (locked.assign (by exact fun r => ⟨rfl, rfl, rfl, Or.inr rfl⟩)).imp ?_ fun _ _ h => h.elim
    intro _ rt₁ h₁
    rw [ends_bind]
    refine (h₁.1.transition (by decide) undecided ⟨rfl, rfl⟩ _ _).imp ?_ fun _ _ h => h.elim
    intro record rt₂ h₂
    rw [ends_bind, ends_modify, ends_pure]
    exact ⟨.authorized, ⟨rfl, rfl⟩, h₂.1.aside rfl rfl rfl rfl⟩
  | delay =>
    simp only [conclude]
    rw [ends_bind]
    refine (h.transition (by decide) undecided ⟨rfl, rfl⟩ _ _).imp ?_ fun _ _ h => h.elim
    intro record rt₁ h₁
    rw [ends_bind, ends_modify, ends_bind, ends_modify, ends_pure]
    refine ⟨.delayed, ⟨rfl, rfl⟩, At.submit ?_ requeue⟩
    exact h₁.1.aside rfl rfl rfl rfl
  | revoke =>
    simp only [conclude]
    generalize target : (if startsWith "deadline".toList reason then IntentState.expired else .revoked) = t
    have ended : t ∈ IntentState.validating.allowed ∧ t.Undecided := by
      subst target
      split
      · exact ⟨by decide, rfl, rfl⟩
      · exact ⟨by decide, rfl, rfl⟩
    rw [ends_bind]
    refine (h.transition ended.1 undecided ended.2 _ _).imp ?_ fun _ _ h => h.elim
    intro record rt₁ h₁
    rw [ends_bind, ends_modify, ends_pure]
    exact ⟨t, ended.2, h₁.1.aside rfl rfl rfl rfl⟩

theorem passed_evaluate (cfg : Config) (call : ProcessCall) (h : At id ref .validating start rt) (snapshot : Members)
    (version : Nat) :
    Ends (evaluate cfg call ref id snapshot version) rt (fun _ => Passed id ref start) fun _ => Passed id ref start := by
  rw [evaluate, ends_bind, ends_get]
  simp only
  rw [ends_bind, ends_set, ends_bind]
  refine ((h.putIntent (Policy.applyTo_id _ _)).assign (by exact fun r => ⟨rfl, rfl, rfl, Or.inl rfl⟩)).imp ?_ fun _ _ h => h.elim
  intro _ rt₁ h₁
  rw [ends_bind, ends_get]
  generalize (rt.policy.applyTo (rt.heap ref)).1 = i
  cases decision cfg call rt₁ i snapshot with
  | error e => exact ends_throw.mpr ⟨.validating, ⟨rfl, rfl⟩, h₁.1⟩
  | ok verdict =>
    obtain ⟨outcome, reason⟩ := verdict
    simp only
    rw [ends_bind]
    refine (h₁.1.assign (by exact fun r => ⟨rfl, rfl, rfl, Or.inl rfl⟩)).imp ?_ fun _ _ h => h.elim
    intro _ rt₂ h₂
    exact passed_conclude h₂.1 _ _ _

theorem passed_validationPass (cfg : Config) (call : ProcessCall) {state : IntentState} (h : At id ref state start rt)
    (opened : state.validatable = true) :
    Ends (validationPass cfg call ref) rt (fun _ => Passed id ref start) fun _ => Passed id ref start := by
  have undecided : state.Undecided := by
    cases state <;> first | exact ⟨rfl, rfl⟩ | cases opened
  obtain rfl := h.own
  rw [validationPass, ends_bind, ends_get]
  simp only
  rw [ends_bind]
  refine (h.transition (IntentState.pending_of_validatable opened) undecided ⟨rfl, rfl⟩ _ _).imp ?_ fun _ _ h => h.elim
  intro _ rt₁ h₁
  rw [ends_bind]
  refine (h₁.1.transition (by decide) ⟨rfl, rfl⟩ ⟨rfl, rfl⟩ _ _).imp ?_ fun _ _ h => h.elim
  intro _ rt₂ h₂
  rw [ends_bind]
  refine (h₂.1.assign (by exact fun r => ⟨rfl, rfl, rfl, Or.inl rfl⟩)).imp ?_ fun _ _ h => h.elim
  intro _ rt₃ h₃
  rw [ends_ite]
  refine ⟨fun _ => ?_, fun _ => ?_⟩
  · rw [authorizeStop, ends_bind, ends_modify, ends_bind]
    refine ((h₃.1.putIntent (by exact rfl)).assign (by exact fun r => ⟨rfl, rfl, rfl, Or.inr rfl⟩)).imp ?_ fun _ _ h => h.elim
    intro _ rt₄ h₄
    rw [ends_bind]
    refine (h₄.1.transition (by decide) ⟨rfl, rfl⟩ ⟨rfl, rfl⟩ _ _).imp ?_ fun _ _ h => h.elim
    intro _ rt₅ h₅
    rw [ends_bind, ends_modify, ends_pure]
    exact ⟨.authorized, ⟨rfl, rfl⟩, h₅.1.aside rfl rfl rfl rfl⟩
  · rw [ends_ite]
    refine ⟨fun _ => ?_, fun _ => passed_evaluate cfg call h₃.1 _ _⟩
    rw [revokeStale, ends_bind]
    refine (h₃.1.assign (by exact fun r => ⟨rfl, rfl, rfl, Or.inl rfl⟩)).imp ?_ fun _ _ h => h.elim
    intro _ rt₄ h₄
    rw [ends_bind]
    refine (h₄.1.transition (by decide) ⟨rfl, rfl⟩ ⟨rfl, rfl⟩ _ _).imp ?_ fun _ _ h => h.elim
    intro _ rt₅ h₅
    rw [ends_bind, ends_modify, ends_pure]
    exact ⟨.revoked, ⟨rfl, rfl⟩, h₅.1.aside rfl rfl rfl rfl⟩

/-- A pass that did something: the record it works on is the one it found or a new one. -/
structure Resumed (rt : Runtime) (ref : Ref) (rt' : Runtime) : Prop where
  opened : rt.Open (rt.heap ref).id
  passed : Passed (rt.heap ref).id ref rt rt'
  registered : rt.records.get (rt.heap ref).id = none → rt.audit ++ [.registration (rt.heap ref).id] <+: rt'.audit

theorem resumed_processIntent (cfg : Config) (call : ProcessCall) (rt : Runtime) (ref : Ref)
    (sound : ∀ record, rt.records.get (rt.heap ref).id = some record → (rt.heap record.intent).id = (rt.heap ref).id ∧
      record.Consistent ∧ Path (rt.heap ref).id rt.audit record.state) :
    Ends (processIntent cfg call ref) rt (fun _ rt' => rt' = rt ∨ Resumed rt ref rt') fun _ rt' => Resumed rt ref rt' := by
  rw [processIntent, ends_bind, ends_get]
  cases found : rt.records.get (rt.heap ref).id with
  | some record =>
    simp only
    obtain ⟨known, consistent, path⟩ := sound record found
    rw [ends_ite]
    refine ⟨fun opened => ?_, fun _ => ends_pure.mpr (Or.inl rfl)⟩
    have resumed : ∀ {rt'}, Passed (rt.heap ref).id ref rt rt' → Resumed rt ref rt' := by
      intro rt' passed
      refine ⟨fun r stored => ?_, passed, fun absent => ?_⟩
      · rw [found] at stored
        exact Option.some.inj stored ▸ opened
      · rw [found] at absent
        cases absent
    have begun : At (rt.heap ref).id ref record.state rt rt :=
      ⟨rfl, ⟨record, found, rfl, known, consistent⟩, path, List.prefix_refl _, rfl⟩
    exact (passed_validationPass cfg call begun opened).imp (fun _ _ passed => Or.inr (resumed passed))
      fun _ _ passed => resumed passed
  | none =>
    simp only
    rw [ends_bind, ends_set]
    have resumed : ∀ {rt'}, Passed (rt.heap ref).id ref (rt.register ref) rt' → Resumed rt ref rt' := by
      intro rt' passed
      obtain ⟨state, undecided, own, tracked, path, since, calls⟩ := passed
      refine ⟨fun r stored => ?_, ⟨state, undecided, own, tracked, path, ?_, calls⟩, fun _ => since⟩
      · rw [found] at stored
        cases stored
      · exact (List.prefix_append _ _).trans since
    have begun : At (rt.heap ref).id ref .created (rt.register ref) (rt.register ref) :=
      ⟨rfl, ⟨.fresh ref, Dict.get_insert_self _ _ _, rfl, rfl, rfl, rfl⟩, .registered _, List.prefix_refl _, rfl⟩
    exact (passed_validationPass cfg call begun rfl).imp (fun _ _ passed => Or.inr (resumed passed))
      fun _ _ passed => resumed passed

end

/-! ### Records and audit trail agree -/

/-- State, release decision, effect status and audit entries of a record agree. -/
structure Tracked (rt : Runtime) (id : Str) (record : IntentRecord) : Prop where
  known : (rt.heap record.intent).id = id
  consistent : record.Consistent
  path : Path id rt.audit record.state

def Tracks (rt : Runtime) : Prop := ∀ id record, rt.records.get id = some record → Tracked rt id record

section

variable {rt rt' : Runtime} {id : Str}

theorem Tracked.frame {other : Str} {record : IntentRecord} (h : Tracked rt other record) (alone : Local id rt rt')
    (ne : other ≠ id) : Tracked rt' other record := by
  obtain ⟨more, audit, own⟩ := alone.audit
  refine ⟨(alone.ids _).trans h.known, h.consistent, ?_⟩
  rw [audit]
  exact h.path.others fun e member => by rw [own e member]; exact ne.symm

theorem Noted.tracks (noted : Noted rt rt') (tracks : Tracks rt) : Tracks rt' := by
  intro other record stored
  rw [noted.records] at stored
  obtain ⟨known, consistent, path⟩ := tracks other record stored
  refine ⟨by rw [noted.heap]; exact known, consistent, ?_⟩
  rcases noted.audit with same | ⟨id, record', reason, stored', audit⟩
  · rw [same]
    exact path
  · rw [audit]
    by_cases own : id = other
    · subst own
      obtain rfl := Option.some.inj (stored'.symm.trans stored)
      exact path.noted reason
    · exact path.other own

theorem Settled.tracks {record a : IntentRecord} {state : IntentState} (settled : Settled id rt record state a rt')
    (tracks : Tracks rt) : Tracks rt' := by
  intro other r stored
  obtain ⟨known, consistent, path⟩ := tracks id record settled.found
  by_cases own : other = id
  · subst own
    obtain rfl := Option.some.inj (settled.stored.symm.trans stored)
    obtain ⟨outcome, reason, audit⟩ := settled.logged
    refine ⟨by rw [settled.intent]; exact (settled.alone.ids _).trans known, settled.consistent consistent, ?_⟩
    rw [audit, settled.reached]
    exact path.moved settled.allowed outcome reason
  · rw [settled.alone.others other own] at stored
    exact (tracks other r stored).frame settled.alone own

theorem Admission.tracks {ref : Ref} (admission : Admission ref rt rt') (tracks : Tracks rt) : Tracks rt' := by
  intro other r stored
  rcases admission.audit with ⟨same, kept⟩ | ⟨audit, fresh⟩
  · obtain ⟨known, consistent, path⟩ := tracks other r (kept other r stored)
    exact ⟨by rw [admission.heap]; exact known, consistent, by rw [same]; exact path⟩
  · by_cases own : other = (rt.heap ref).id
    · subst own
      obtain rfl := Option.some.inj (fresh.symm.trans stored)
      exact ⟨by rw [admission.heap]; rfl, ⟨rfl, rfl⟩, by rw [audit]; exact .registered _⟩
    · rcases admission.records other r stored with before | ⟨same, _⟩
      · obtain ⟨known, consistent, path⟩ := tracks other r before
        exact ⟨by rw [admission.heap]; exact known, consistent, by rw [audit]; exact path.other (Ne.symm own)⟩
      · exact absurd same own

theorem Passed.tracks {ref : Ref} (passed : Passed (rt.heap ref).id ref rt rt') (alone : Local (rt.heap ref).id rt rt')
    (tracks : Tracks rt) : Tracks rt' := by
  obtain ⟨state, _, _, ⟨record, stored, rfl, known, consistent⟩, path, _⟩ := passed
  intro other r stored'
  by_cases own : other = (rt.heap ref).id
  · subst own
    obtain rfl := Option.some.inj (stored.symm.trans stored')
    exact ⟨known, consistent, path⟩
  · rw [alone.others other own] at stored'
    exact (tracks other r stored').frame alone own

end

/-- A write to the policy, the queue, the installed context or an intent's preconditions. -/
theorem Tracks.aside {rt rt' : Runtime} (tracks : Tracks rt) (records : rt'.records = rt.records)
    (ids : ∀ ref, (rt'.heap ref).id = (rt.heap ref).id) (audit : rt'.audit = rt.audit) : Tracks rt' := by
  intro id record stored
  rw [records] at stored
  obtain ⟨known, consistent, path⟩ := tracks id record stored
  exact ⟨(ids _).trans known, consistent, by rw [audit]; exact path⟩

section

variable [PyText]

theorem Tracks.pass {rt : Runtime} (tracks : Tracks rt) (cfg : Config) (call : ProcessCall) (ref : Ref) :
    Tracks (finalState (processIntent cfg call ref) rt) := by
  have resumed := resumed_processIntent cfg call rt ref fun record stored =>
    ⟨(tracks _ record stored).known, (tracks _ record stored).consistent, (tracks _ record stored).path⟩
  refine Ends.finalState ((resumed.and (ends_processIntent cfg call rt ref)).imp ?_ ?_)
  · intro a rt' ended
    obtain ⟨rfl | resumed, alone, _⟩ := ended
    · exact tracks
    · exact resumed.passed.tracks alone tracks
  · intro _ rt' ended
    exact ended.1.passed.tracks ended.2.1 tracks

/-- One operation. -/
theorem Tracks.exec (cfg : Config) (op : Operation) (rt : Runtime) (tracks : Tracks rt) : Tracks (op.exec cfg rt) := by
  cases op with
  | admitIntent ref mono enqueue =>
    exact Ends.finalState ((ends_admitIntent cfg ref mono enqueue rt).imp (fun _ _ ended => ended.1.tracks tracks)
      fun _ _ h => h.elim)
  | processIntent call ref => exact tracks.pass cfg call ref
  | processNext call =>
    cases queue : rt.queue with
    | nil =>
      rw [exec_next_nil cfg call queue]
      exact tracks
    | cons q rest =>
      rw [exec_next_cons cfg call queue]
      have dequeued : Tracks { rt with queue := rest } := tracks.aside rfl (fun _ => rfl) rfl
      exact dequeued.pass cfg call.next q.intent
  | recordCommit id committed reason seq =>
    refine Ends.finalState ((ends_recordCommit rt id committed reason seq).imp ?_ fun _ _ noted => noted.tracks tracks)
    rintro a rt' (⟨rfl, _⟩ | ⟨record, _, settled, _⟩)
    · exact tracks
    · exact settled.tracks tracks
  | reportRelease id released reason cv rv =>
    refine Ends.finalState ((ends_reportRelease cfg rt id released reason cv rv).imp ?_ fun _ _ noted => noted.tracks tracks)
    rintro a rt' (⟨rfl, _⟩ | ⟨record, state, _, _, _, settled, _, _⟩)
    · exact tracks
    · exact settled.tracks tracks
  | reportEffect id status detail =>
    refine Ends.finalState ((ends_reportEffect rt id status detail).imp ?_ fun _ _ noted => noted.tracks tracks)
    rintro a rt' (⟨rfl, _⟩ | ⟨record, settled, _⟩)
    · exact tracks
    · exact settled.tracks tracks
  | supervisoryRevoke id reason =>
    refine Ends.finalState ((ends_supervisoryRevoke rt id reason).imp ?_ ?_)
    · rintro a rt' ⟨record, settled, _⟩
      exact settled.tracks tracks
    · rintro _ rt' ⟨rfl, _⟩
      exact tracks
  | setPolicy policy => exact tracks.aside rfl (fun _ => rfl) rfl
  | installContext snapshot version =>
    rw [Operation.exec, installContextSnapshot]
    split
    · exact tracks
    · exact tracks.aside rfl (fun _ => rfl) rfl
  | setPreconditions ref preconditions =>
    exact tracks.aside rfl ((Local.refl (rt.heap ref).id rt).putIntent (by exact rfl) (by exact rfl) (by exact rfl)).ids rfl

theorem along_any (cfg : Config) (ops : List Operation) (rt : Runtime) : Along cfg (fun _ _ => True) ops rt := by
  induction ops generalizing rt with
  | nil => trivial
  | cons op ops ih => exact ⟨trivial, ih _⟩

theorem tracks_runAll (cfg : Config) (heap : Ref → ActionIntent) (context : Members) (policy : Policy)
    (ops : List Operation) : Tracks (runAll cfg ops (.init heap context policy)) :=
  runAll_preserves (fun op rt tracks _ => tracks.exec cfg op rt) (by intro id record absent; cases absent) (along_any cfg ops _)

end

/-! ### The invariant -/

/-- A runtime with the number of calls of the callback for each id since its last registration. -/
structure Observed where
  runtime : Runtime
  calls : Str → Nat

/-- The calls after an operation. -/
def countCalls (before : Str → Nat) (rt rt' : Runtime) (id : Str) : Nat :=
  (if .registration id ∈ rt'.audit.drop rt.audit.length then 0 else before id) +
    (rt'.actuated.drop rt.actuated.length).countP fun ref => decide ((rt'.heap ref).id = id)

/-- A record tells one story. -/
structure Story (rt : Runtime) (calls : Nat) (id : Str) (record : IntentRecord) : Prop where
  known : (rt.heap record.intent).id = id
  consistent : record.Consistent
  path : Path id rt.audit record.state
  calls : calls = if record.releaseDecision = some .release then 1 else 0

def Observed.Sound (o : Observed) : Prop :=
  ∀ id record, o.runtime.records.get id = some record → Story o.runtime (o.calls id) id record

section

variable {rt rt' : Runtime} {calls : Str → Nat} {id : Str}

theorem countCalls_quiet {more : List AuditEntry} (audit : rt'.audit = rt.audit ++ more)
    (unregistered : .registration id ∉ more) (actuated : rt'.actuated = rt.actuated) :
    countCalls calls rt rt' id = calls id := by
  simp [countCalls, audit, actuated, unregistered]

theorem countCalls_zero (actuated : rt'.actuated = rt.actuated) (none : calls id = 0) :
    countCalls calls rt rt' id = 0 := by
  simp [countCalls, actuated, none]

theorem countCalls_call {more : List AuditEntry} (audit : rt'.audit = rt.audit ++ more)
    (unregistered : .registration id ∉ more) {ref : Ref} (actuated : rt'.actuated = rt.actuated ++ [ref]) :
    countCalls calls rt rt' id = calls id + if (rt'.heap ref).id = id then 1 else 0 := by
  simp [countCalls, audit, actuated, unregistered, List.countP_cons]

theorem Observed.Sound.tracks (sound : Observed.Sound ⟨rt, calls⟩) : Tracks rt := fun id record stored =>
  have story := sound id record stored
  ⟨story.known, story.consistent, story.path⟩

/-- Where records and audit trail agree, the calls remain. -/
theorem Tracks.sound (tracks : Tracks rt') {calls : Str → Nat} (counted : ∀ id record, rt'.records.get id = some record →
    calls id = if record.releaseDecision = some .release then 1 else 0) : Observed.Sound ⟨rt', calls⟩ := fun id record stored =>
  have tracked := tracks id record stored
  ⟨tracked.known, tracked.consistent, tracked.path, counted id record stored⟩

/-- The calls for another id stay as they were. -/
theorem countCalls_frame {other : Str} (alone : Local id rt rt') (ne : other ≠ id)
    (actuated : rt'.actuated = rt.actuated ∨ ∃ ref, rt'.actuated = rt.actuated ++ [ref] ∧ (rt'.heap ref).id = id) :
    countCalls calls rt rt' other = calls other := by
  obtain ⟨more, audit, own⟩ := alone.audit
  have unregistered : .registration other ∉ more := fun member => ne (own _ member)
  rcases actuated with same | ⟨ref, called, its⟩
  · exact countCalls_quiet audit unregistered same
  · rw [countCalls_call audit unregistered called, if_neg (fun h => ne (h.symm.trans its)), Nat.add_zero]

theorem Noted.sound (noted : Noted rt rt') (sound : Observed.Sound ⟨rt, calls⟩) :
    Observed.Sound ⟨rt', countCalls calls rt rt'⟩ := by
  refine (noted.tracks sound.tracks).sound fun other record stored => ?_
  rw [noted.records] at stored
  have counted := (sound other record stored).calls
  rcases noted.audit with same | ⟨id, record', reason, stored', audit⟩
  · exact (countCalls_quiet (by rw [same, List.append_nil]) List.not_mem_nil noted.actuated).trans counted
  · refine (countCalls_quiet audit ?_ noted.actuated).trans counted
    intro member
    have empty := congrArg AuditEntry.reason (List.mem_singleton.mp member)
    cases empty

theorem Settled.sound {record a : IntentRecord} {state : IntentState} (settled : Settled id rt record state a rt')
    (sound : Observed.Sound ⟨rt, calls⟩) (called : state = .released → rt'.actuated = rt.actuated ++ [record.intent]) :
    Observed.Sound ⟨rt', countCalls calls rt rt'⟩ := by
  refine (settled.tracks sound.tracks).sound fun other r stored => ?_
  obtain ⟨known, consistent, _, counted⟩ := sound id record settled.found
  have known' : (rt'.heap record.intent).id = id := (settled.alone.ids _).trans known
  by_cases own : other = id
  · subst own
    obtain rfl := Option.some.inj (settled.stored.symm.trans stored)
    obtain ⟨outcome, reason, audit⟩ := settled.logged
    have unregistered : .registration other ∉ [(⟨other, state, outcome, reason⟩ : AuditEntry)] := by
      intro member
      have created := congrArg AuditEntry.state (List.mem_singleton.mp member)
      exact (IntentState.ne_self_of_allowed settled.allowed).2 created.symm
    change calls other = _ at counted
    rw [(settled.consistent consistent).decision, settled.reached]
    rw [consistent.decision] at counted
    by_cases released : state = .released
    · subst released
      rw [IntentState.undecided_of_releasable settled.allowed] at counted
      rw [countCalls_call audit unregistered (called rfl), if_pos known', counted]
      rfl
    · rw [countCalls_quiet audit unregistered (settled.quiet released), counted]
      simp only [IntentState.decision_of_allowed settled.allowed released]
  · rw [settled.alone.others other own] at stored
    refine (countCalls_frame settled.alone own ?_).trans (sound other r stored).calls
    by_cases released : state = .released
    · exact Or.inr ⟨record.intent, called released, known'⟩
    · exact Or.inl (settled.quiet released)

theorem Admission.sound {ref : Ref} (admission : Admission ref rt rt') (sound : Observed.Sound ⟨rt, calls⟩) :
    Observed.Sound ⟨rt', countCalls calls rt rt'⟩ := by
  refine (admission.tracks sound.tracks).sound fun other r stored => ?_
  rcases admission.audit with ⟨same, kept⟩ | ⟨audit, fresh⟩
  · have counted := (sound other r (kept other r stored)).calls
    exact (countCalls_quiet (by rw [same, List.append_nil]) List.not_mem_nil admission.actuated).trans counted
  · by_cases own : other = (rt.heap ref).id
    · subst own
      obtain rfl := Option.some.inj (fresh.symm.trans stored)
      simp [countCalls, audit, admission.actuated, IntentRecord.fresh]
    · rcases admission.records other r stored with before | ⟨same, _⟩
      · refine (countCalls_quiet audit ?_ admission.actuated).trans (sound other r before).calls
        intro member
        exact own (congrArg AuditEntry.intentId (List.mem_singleton.mp member))
      · exact absurd same own

/-- A pass leaves its record undecided, as it was. -/
theorem Resumed.sound {ref : Ref} (resumed : Resumed rt ref rt') (alone : Local (rt.heap ref).id rt rt')
    (sound : Observed.Sound ⟨rt, calls⟩) : Observed.Sound ⟨rt', countCalls calls rt rt'⟩ := by
  refine (resumed.passed.tracks alone sound.tracks).sound fun other r stored' => ?_
  obtain ⟨opened, ⟨state, undecided, _, ⟨record, stored, rfl, _, consistent⟩, _, _, actuated⟩, registered⟩ := resumed
  by_cases own : other = (rt.heap ref).id
  · subst own
    obtain rfl := Option.some.inj (stored.symm.trans stored')
    rw [consistent.decision, undecided.1]
    change countCalls calls rt rt' _ = 0
    cases found : rt.records.get (rt.heap ref).id with
    | some before =>
      obtain ⟨_, decided, _, counted⟩ := sound _ before found
      have none : before.releaseDecision = none := by
        rw [decided.decision]
        have validatable := opened before found
        cases state : before.state <;> first | rfl | (rw [state] at validatable; cases validatable)
      rw [none] at counted
      exact countCalls_zero actuated counted
    | none =>
      obtain ⟨more, audit⟩ := registered found
      have member : .registration (rt.heap ref).id ∈ rt'.audit.drop rt.audit.length := by
        rw [← audit, List.append_assoc, List.drop_left]
        exact List.mem_cons_self
      simp [countCalls, actuated, member]
  · rw [alone.others other own] at stored'
    exact (countCalls_frame alone own (Or.inl actuated)).trans (sound other r stored').calls

end

/-- A write to the policy, the queue, the installed context or an intent's preconditions. -/
theorem Observed.Sound.aside {rt rt' : Runtime} {calls : Str → Nat} (sound : Observed.Sound ⟨rt, calls⟩)
    (records : rt'.records = rt.records) (ids : ∀ ref, (rt'.heap ref).id = (rt.heap ref).id) (audit : rt'.audit = rt.audit)
    (actuated : rt'.actuated = rt.actuated) : Observed.Sound ⟨rt', countCalls calls rt rt'⟩ := by
  refine (sound.tracks.aside records ids audit).sound fun id record stored => ?_
  rw [records] at stored
  exact (countCalls_quiet (by rw [audit, List.append_nil]) List.not_mem_nil actuated).trans (sound id record stored).calls

/-! ### Runs -/

section

variable [PyText]

def Observed.exec (cfg : Config) (o : Observed) (op : Operation) : Observed :=
  ⟨op.exec cfg o.runtime, countCalls o.calls o.runtime (op.exec cfg o.runtime)⟩

theorem Observed.Sound.pass {rt : Runtime} {calls : Str → Nat} (sound : Observed.Sound ⟨rt, calls⟩) (cfg : Config)
    (call : ProcessCall) (ref : Ref) :
    Observed.Sound ⟨finalState (processIntent cfg call ref) rt,
      countCalls calls rt (finalState (processIntent cfg call ref) rt)⟩ := by
  have resumed := resumed_processIntent cfg call rt ref fun record stored =>
    ⟨(sound _ record stored).known, (sound _ record stored).consistent, (sound _ record stored).path⟩
  refine Ends.finalState (P := fun rt' => Observed.Sound ⟨rt', countCalls calls rt rt'⟩)
    ((resumed.and (ends_processIntent cfg call rt ref)).imp ?_ ?_)
  · intro a rt' ended
    obtain ⟨rfl | resumed, alone, _⟩ := ended
    · exact Noted.sound (.refl _) sound
    · exact resumed.sound alone sound
  · intro _ rt' ended
    exact ended.1.sound ended.2.1 sound

/-- One operation. -/
theorem Observed.Sound.exec {cfg : Config} (callback : cfg.callback = true) {o : Observed} (sound : o.Sound)
    (op : Operation) : (o.exec cfg op).Sound := by
  obtain ⟨rt, calls⟩ := o
  cases op with
  | admitIntent ref mono enqueue =>
    refine Ends.finalState (P := fun rt' => Observed.Sound ⟨rt', countCalls calls rt rt'⟩)
      ((ends_admitIntent cfg ref mono enqueue rt).imp ?_ fun _ _ h => h.elim)
    intro a rt' ended
    exact ended.1.sound sound
  | processIntent call ref => exact sound.pass cfg call ref
  | processNext call =>
    cases queue : rt.queue with
    | nil =>
      simp only [Observed.exec, exec_next_nil cfg call queue]
      exact Noted.sound (.refl rt) sound
    | cons q rest =>
      have dequeued : Observed.Sound ⟨{ rt with queue := rest }, calls⟩ := fun id record stored =>
        have story := sound id record stored
        ⟨story.known, story.consistent, story.path, story.calls⟩
      simp only [Observed.exec, exec_next_cons cfg call queue]
      exact dequeued.pass cfg call.next q.intent
  | recordCommit id committed reason seq =>
    refine Ends.finalState (P := fun rt' => Observed.Sound ⟨rt', countCalls calls rt rt'⟩)
      ((ends_recordCommit rt id committed reason seq).imp ?_ fun _ _ noted => noted.sound sound)
    rintro a rt' (⟨rfl, _⟩ | ⟨record, _, settled, _⟩)
    · exact Noted.sound (.refl _) sound
    · exact settled.sound sound fun released => by cases committed <;> cases released
  | reportRelease id released reason cv rv =>
    refine Ends.finalState (P := fun rt' => Observed.Sound ⟨rt', countCalls calls rt rt'⟩)
      ((ends_reportRelease cfg rt id released reason cv rv).imp ?_ fun _ _ noted => noted.sound sound)
    rintro a rt' (⟨rfl, _⟩ | ⟨record, state, _, _, _, settled, called, _⟩)
    · exact Noted.sound (.refl _) sound
    · refine settled.sound sound fun released => ?_
      rw [called released, if_pos callback]
  | reportEffect id status detail =>
    refine Ends.finalState (P := fun rt' => Observed.Sound ⟨rt', countCalls calls rt rt'⟩)
      ((ends_reportEffect rt id status detail).imp ?_ fun _ _ noted => noted.sound sound)
    rintro a rt' (⟨rfl, _⟩ | ⟨record, settled, _⟩)
    · exact Noted.sound (.refl _) sound
    · exact settled.sound sound fun released => by cases status <;> cases released
  | supervisoryRevoke id reason =>
    refine Ends.finalState (P := fun rt' => Observed.Sound ⟨rt', countCalls calls rt rt'⟩)
      ((ends_supervisoryRevoke rt id reason).imp ?_ ?_)
    · intro a rt' ended
      obtain ⟨record, settled, _⟩ := ended
      exact settled.sound sound fun released => by cases released
    · rintro _ rt' ⟨rfl, _⟩
      exact Noted.sound (.refl _) sound
  | setPolicy policy => exact sound.aside rfl (fun _ => rfl) rfl rfl
  | installContext snapshot version =>
    simp only [Observed.exec, Operation.exec, installContextSnapshot]
    split <;> exact sound.aside rfl (fun _ => rfl) rfl rfl
  | setPreconditions ref preconditions =>
    refine sound.aside rfl (fun r => ?_) rfl rfl
    exact ((Local.refl (rt.heap ref).id rt).putIntent (by exact rfl) (by exact rfl) (by exact rfl)).ids r

theorem Observed.Sound.run {cfg : Config} (callback : cfg.callback = true) {o : Observed} (sound : o.Sound)
    (ops : List Operation) : (ops.foldl (Observed.exec cfg) o).Sound := by
  induction ops generalizing o with
  | nil => exact sound
  | cons op ops ih => exact ih (sound.exec callback op)

/-- No record yet, and no call. -/
def Observed.init (heap : Ref → ActionIntent) (context : Members) (policy : Policy) : Observed :=
  ⟨.init heap context policy, fun _ => 0⟩

/-- After any operations, accepted or refused, every record's release decision, effect status, audit
entries and calls of the callback agree with its state. -/
theorem records_agree (cfg : Config) (callback : cfg.callback = true) (heap : Ref → ActionIntent) (context : Members)
    (policy : Policy) (ops : List Operation) (id : Str) (record : IntentRecord) :
    let o := ops.foldl (Observed.exec cfg) (.init heap context policy)
    o.runtime.records.get id = some record →
      (record.releaseDecision = some .release ↔
        record.state = .released ∨ record.state = .effectConfirmed ∨ record.state = .failed ∨ record.state = .unknownEffect) ∧
      (record.releaseDecision = some .withhold ↔ record.state = .withheld) ∧
      (∀ status, record.effectStatus = some status ↔ record.state = status.state) ∧
      o.calls id = (if record.releaseDecision = some .release then 1 else 0) ∧
      Path id o.runtime.audit record.state := by
  intro o stored
  have start : (Observed.init heap context policy).Sound := by
    intro id record absent
    cases absent
  obtain ⟨_, ⟨decision, effect⟩, path, calls⟩ := start.run callback ops id record stored
  refine ⟨?_, ?_, ?_, calls, path⟩
  · rw [decision]
    cases record.state <;> decide
  · rw [decision]
    cases record.state <;> decide
  · intro status
    rw [effect]
    cases record.state <;> cases status <;> decide

end

/-- A run in which an intent is released and takes effect, and a late release report is refused. -/
def releasedOnce : Observed :=
  [.admitIntent 0 0 false, .processIntent plainCall 0, .reportRelease "a".toList true [] none none,
    .reportEffect "a".toList .confirmed [], .reportRelease "a".toList false [] none none].foldl
    (@Observed.exec PyText.ascii { plainConfig with callback := true }) (.init threeIntents .nil .empty)

theorem records_agree_releasedOnce : releasedOnce.calls "a".toList = 1 ∧
    Path "a".toList releasedOnce.runtime.audit .effectConfirmed := by
  obtain ⟨record, stored⟩ : ∃ record, releasedOnce.runtime.records.get "a".toList = some record :=
    Option.isSome_iff_exists.mp (by decide +kernel)
  obtain ⟨_, _, effect, calls, path⟩ := @records_agree PyText.ascii _ (by rfl) _ _ _ _ _ record stored
  have decided : (releasedOnce.runtime.records.get "a".toList).map (fun r => (r.releaseDecision, r.state)) =
    some (some .release, .effectConfirmed) := by decide +kernel
  rw [stored, Option.map_some, Option.some.injEq, Prod.mk.injEq] at decided
  rw [decided.1, if_pos rfl] at calls
  rw [decided.2] at path
  exact ⟨calls, path⟩

end Xair
