import Xair.Gateway.Deployment
import Xair.Server.Submission

/-!
# Reports of a gateway run

A call that has been started may have had an effect. The atomic branch and the one for
stops report it as released whatever the call raises; the optimistic branch reports it as
withheld if the call raises.
-/

namespace Xair

open Library

/-! ### One run on an intent -/

/-- The steps that a run on `x` takes and no one else. -/
def SiteCommand.Touches (x : Str) (s : Site) : SiteCommand → Prop
  | .admitIntent ref => (s.runtime.heap ref).id = x
  | .process _ ref _ => (s.runtime.heap ref).id = x
  | .transition id _ _ _ => id = x
  | .recordCommit id _ _ _ => id = x
  | .reportRelease id _ _ _ _ => id = x
  | .reportWithheld id _ _ => id = x
  | .sendReport report => report.id = x
  | .startCall _ id _ => id = x
  | _ => False

instance (x : Str) (s : Site) (c : SiteCommand) : Decidable (c.Touches x s) := by
  rcases c <;> dsimp only [SiteCommand.Touches] <;> infer_instance

/-- A gateway run on `x`. -/
def DeploymentJob.On (x : Str) : DeploymentJob → Prop
  | .gateway _ body _ _ => body.id = x
  | .request _ => False

instance (x : Str) (job : DeploymentJob) : Decidable (job.On x) := by
  rcases job <;> dsimp only [DeploymentJob.On] <;> infer_instance

/-- Only the gateway run with this ticket submits `x`, commits it, starts a call for it and reports on it. -/
def OneRun (x : Str) (run t : Nat) (job : DeploymentJob) (c : SiteCommand) (s : Site) : Prop :=
  c.Touches x s → t = run ∧ job.On x

instance (x : Str) (run t : Nat) (job : DeploymentJob) (c : SiteCommand) (s : Site) : Decidable (OneRun x run t job c s) :=
  inferInstanceAs (Decidable (_ → _))

namespace Site

/-- A call for the intent has been started. -/
def Started (x : Str) (s : Site) : Prop := ∃ t, (t, x) ∈ s.starts

/-- What a started call makes of the reports and the record. -/
def Truthful (x : Str) (s : Site) : Prop := s.Started x →
  (∀ report ∈ s.reports, report.id = x → report.released = true ∧ report.effect.isSome = true) ∧
    s.state x ≠ some .withheld

/-- The invariant of a site with one run on `x`. -/
structure Told (x : Str) (s : Site) : Prop where
  named : ∀ r, s.runtime.records.get x = some r → s.Names r.intent x
  truthful : s.Truthful x

/-- What the others do, as one run on `x` sees it. -/
structure Aside (x : Str) (s s' : Site) : Prop where
  allocated : s.allocated ≤ s'.allocated
  ids : ∀ ref, ref < s.allocated → (s'.runtime.heap ref).id = (s.runtime.heap ref).id
  record : ∀ r', s'.runtime.records.get x = some r' → ∃ r, s.runtime.records.get x = some r ∧ r'.intent = r.intent ∧
    r'.actionClass = r.actionClass ∧ r'.contextVersion = r.contextVersion ∧ r'.readSetVersion = r.readSetVersion ∧
    (r'.state = .withheld → r.state = .withheld)
  started : s'.Started x → s.Started x
  reports : ∀ report ∈ s'.reports, report.id = x → report ∈ s.reports

variable {x : Str} {s s' s'' : Site}

theorem Aside.refl (x : Str) (s : Site) : s.Aside x s :=
  ⟨Nat.le_refl _, fun _ _ => rfl, fun r stored => ⟨r, stored, rfl, rfl, rfl, rfl, fun h => h⟩, fun h => h, fun _ h _ => h⟩

theorem Aside.trans (first : s.Aside x s') (second : s'.Aside x s'') : s.Aside x s'' := by
  refine ⟨Nat.le_trans first.allocated second.allocated, fun ref used => ?_, fun r'' stored => ?_,
    fun started => first.started (second.started started), fun report member own => ?_⟩
  · exact (second.ids ref (Nat.lt_of_lt_of_le used first.allocated)).trans (first.ids ref used)
  · obtain ⟨r', now, intent', cls', context', readSet', withheld'⟩ := second.record r'' stored
    obtain ⟨r, was, intent, cls, context, readSet, withheld⟩ := first.record r' now
    exact ⟨r, was, intent'.trans intent, cls'.trans cls, context'.trans context, readSet'.trans readSet,
      fun h => withheld (withheld' h)⟩
  · exact first.reports report (second.reports report member own) own

theorem Names.aside {ref : Ref} {id : Str} (h : s.Names ref id) (moved : s.Aside x s') : s'.Names ref id :=
  ⟨Nat.lt_of_lt_of_le h.1 moved.allocated, (moved.ids ref h.1).trans h.2⟩

theorem Aside.withheld (moved : s.Aside x s') (h : s'.state x = some .withheld) : s.state x = some .withheld := by
  obtain ⟨r', stored, state⟩ := Option.map_eq_some_iff.mp h
  obtain ⟨r, was, _, _, _, _, withheld⟩ := moved.record r' stored
  rw [Site.state, was, Option.map_some, withheld state]

theorem Told.aside (h : s.Told x) (moved : s.Aside x s') : s'.Told x := by
  refine ⟨fun r' stored => ?_, fun started => ?_⟩
  · obtain ⟨r, was, intent, _⟩ := moved.record r' stored
    rw [intent]
    exact (h.named r was).aside moved
  · obtain ⟨told, kept⟩ := h.truthful (moved.started started)
    exact ⟨fun report member own => told report (moved.reports report member own) own, fun now => kept (moved.withheld now)⟩

/-- A step that leaves the intents and the record alone. -/
theorem Aside.of_same (allocated : s.allocated ≤ s'.allocated)
    (ids : ∀ ref, ref < s.allocated → (s'.runtime.heap ref).id = (s.runtime.heap ref).id)
    (record : s'.runtime.records.get x = s.runtime.records.get x) (started : s'.Started x → s.Started x)
    (reports : ∀ report ∈ s'.reports, report.id = x → report ∈ s.reports) : s.Aside x s' :=
  ⟨allocated, ids, fun r stored => ⟨r, record.symm.trans stored, rfl, rfl, rfl, rfl, fun h => h⟩, started, reports⟩

theorem Aside.of_ends {α : Type} {m : RuntimeM α} (outside : s.SameOutside (s.runs m).2)
    (ends : Ends m s.runtime
      (fun _ rt' => rt'.heap = s.runtime.heap ∧ rt'.records.get x = s.runtime.records.get x)
      fun _ rt' => rt'.heap = s.runtime.heap ∧ rt'.records.get x = s.runtime.records.get x) : s.Aside x (s.runs m).2 := by
  have started : (s.runs m).2.Started x → s.Started x := fun ⟨t, member⟩ => ⟨t, outside.starts ▸ member⟩
  have reports : ∀ report ∈ (s.runs m).2.reports, report.id = x → report ∈ s.reports := fun report member _ =>
    outside.reports ▸ member
  revert started reports
  rw [runs]
  cases run : m s.runtime with
  | ok a rt =>
    obtain ⟨heap, record⟩ := ends.of_run_ok run
    exact .of_same (Nat.le_refl _) (fun ref _ => congrArg (fun heap => (heap ref).id) heap) record
  | error e rt =>
    obtain ⟨heap, record⟩ := ends.of_run_error run
    exact .of_same (Nat.le_refl _) (fun ref _ => congrArg (fun heap => (heap ref).id) heap) record

/-- A step of the runtime that withholds nothing. -/
theorem Reported.asideOf {reach : Str → IntentState → Prop} (moved : s.Reported reach s') (outside : s.SameOutside s')
    (never : ¬reach x .withheld) : s.Aside x s' := by
  refine ⟨moved.allocated, moved.ids, fun r' stored => ?_, Exists.imp fun t started => outside.starts ▸ started,
    fun report member _ => outside.reports ▸ member⟩
  have kept : r'.state = .withheld → s.runtime.records.get x = some r' := fun withheld =>
    (moved.reaches x r' stored).resolve_right (withheld ▸ never)
  rcases moved.records x with same | ⟨r, a, was, now, further⟩
  · exact ⟨r', same.symm.trans stored, rfl, rfl, rfl, rfl, fun h => h⟩
  · obtain rfl := Option.some.inj (now.symm.trans stored)
    refine ⟨r, was, further.intent, further.cls, further.contextVersion, further.readSetVersion, fun withheld => ?_⟩
    rw [Option.some.inj (was.symm.trans (kept withheld)), withheld]

end Site

section

variable {x : Str} {s s' s'' : Site}

/-! ### The submission of the run -/

/-- What the submission of the run does to `x`: it starts and reports nothing, and withholds nothing. -/
structure Site.Submitted (x : Str) (s s' : Site) : Prop where
  allocated : s.allocated ≤ s'.allocated
  ids : ∀ ref, ref < s.allocated → (s'.runtime.heap ref).id = (s.runtime.heap ref).id
  started : s'.Started x → s.Started x
  reports : ∀ report ∈ s'.reports, report.id = x → report ∈ s.reports
  withheld : s'.state x = some .withheld → s.state x = some .withheld

theorem Site.Aside.submitted (moved : s.Aside x s') : s.Submitted x s' :=
  ⟨moved.allocated, moved.ids, moved.started, moved.reports, moved.withheld⟩

theorem Site.Submitted.trans (first : s.Submitted x s') (second : s'.Submitted x s'') : s.Submitted x s'' :=
  ⟨Nat.le_trans first.allocated second.allocated,
    fun ref used => (second.ids ref (Nat.lt_of_lt_of_le used first.allocated)).trans (first.ids ref used),
    fun h => first.started (second.started h), fun report member own => first.reports report (second.reports report member own) own,
    fun h => first.withheld (second.withheld h)⟩

theorem Site.Names.submitted {ref : Ref} {id : Str} (h : s.Names ref id) (moved : s.Submitted x s') :
    s'.Names ref id :=
  ⟨Nat.lt_of_lt_of_le h.1 moved.allocated, (moved.ids ref h.1).trans h.2⟩

/-- The record reads as this one, as far as a gateway compares it. -/
structure IntentRecord.ReadAs (a r : IntentRecord) : Prop where
  cls : r.actionClass = a.actionClass
  contextVersion : r.contextVersion = a.contextVersion
  readSetVersion : r.readSetVersion = a.readSetVersion

/-- What the run holds of the record of `x`. -/
def Site.Holds (x : Str) (a : IntentRecord) (s : Site) : Prop :=
  s.Names a.intent x ∧ ∀ r, s.runtime.records.get x = some r → a.ReadAs r

theorem Site.Holds.aside {a : IntentRecord} (h : s.Holds x a) (moved : s.Aside x s') : s'.Holds x a := by
  refine ⟨h.1.aside moved, fun r' stored => ?_⟩
  obtain ⟨r, was, _, cls, contextVersion, readSetVersion, _⟩ := moved.record r' stored
  obtain ⟨same₁, same₂, same₃⟩ := h.2 r was
  exact ⟨cls.trans same₁, contextVersion.trans same₂, readSetVersion.trans same₃⟩

theorem Site.Holds.current {a : IntentRecord} (h : s.Holds x a) : s.Holds x (s.current x a) := by
  refine ⟨Site.current_intent x a s ▸ h.1, fun r stored => ?_⟩
  rcases Site.current_cases x a s with same | now
  · rw [same]
    exact h.2 r stored
  · rw [← Option.some.inj (stored.symm.trans now)]
    exact ⟨rfl, rfl, rfl⟩

/-- The record, if there is one, reads as the answer does. -/
def Site.Reads (x : Str) (result : SubmitAnswer) (s : Site) : Prop := ∀ r, s.runtime.records.get x = some r →
  r.actionClass = result.actionClass ∧ r.contextVersion = result.contextVersion ∧ r.readSetVersion = result.readSetVersion

theorem Site.Reads.running {result : SubmitAnswer} (h : s.Reads x result) (noStop : result.actionClass ≠ .stop) :
    ¬((s.runtime.records.get x).any (fun r => decide (r.actionClass = .stop)) = true) := by
  intro stop
  cases found : s.runtime.records.get x with
  | none => rw [found] at stop; cases stop
  | some r =>
    rw [found, Option.any_some, decide_eq_true_eq] at stop
    exact noStop ((h r found).1.symm.trans stop)

theorem Site.Reads.aside {result : SubmitAnswer} (h : s.Reads x result) (moved : s.Aside x s') : s'.Reads x result := by
  intro r' stored
  obtain ⟨r, was, _, cls, contextVersion, readSetVersion, _⟩ := moved.record r' stored
  obtain ⟨same₁, same₂, same₃⟩ := h r was
  exact ⟨cls.trans same₁, contextVersion.trans same₂, readSetVersion.trans same₃⟩

/-- The run has started no call and reported nothing. -/
structure Site.Before (x : Str) (result : SubmitAnswer) (s : Site) : Prop where
  notStarted : ¬s.Started x
  unreported : ∀ report ∈ s.reports, report.id ≠ x
  reads : s.Reads x result

theorem Site.Before.aside {result : SubmitAnswer} (h : s.Before x result) (moved : s.Aside x s') :
    s'.Before x result :=
  ⟨fun started => h.notStarted (moved.started started),
    fun report member own => h.unreported report (moved.reports report member own) own, h.reads.aside moved⟩

theorem recordCommit_committed {reason : Str} {seq : Option Nat} {a : IntentRecord}
    (answered : (s.runs (recordCommit x true reason seq)).1 = .ok a) :
    (s.runs (recordCommit x true reason seq)).2.state x = some .committed := by
  have ends := ends_recordCommit s.runtime x true reason seq
  revert answered
  rw [Site.runs]
  cases ended : recordCommit x true reason seq s.runtime with
  | error e rt => exact fun h => by cases h
  | ok record rt =>
    intro _
    rcases ends.of_run_ok ended with ⟨rfl, stored, state⟩ | ⟨_, _, settled, _⟩
    · rw [Site.state, stored, Option.map_some, state]
      rfl
    · rw [Site.state, settled.stored, Option.map_some, settled.reached]
      rfl

/-- What a call sends to a controller or to the middleware. -/
def SiteCommand.Calls : SiteCommand → Prop
  | .publish => True
  | .actuateCell _ _ => True
  | .cellAnswer _ => True
  | .plcCommand _ _ => True
  | _ => False

theorem SiteCommand.Calls.untouched {c : SiteCommand} (calls : c.Calls) : ¬c.Touches x s := by
  cases c <;> first | exact fun touches => touches | exact calls.elim

/-- The versions of a report are those of the answer. -/
structure SubmitAnswer.Matches (result : SubmitAnswer) (contextVersion readSetVersion : Option Int) : Prop where
  readSet : ∀ v, readSetVersion = some v → v = result.readSetVersion
  context : readSetVersion = none → ∀ v, contextVersion = some v → v = result.contextVersion

theorem SubmitAnswer.matches_none (result : SubmitAnswer) : result.Matches none none :=
  ⟨(fun _ reported => nomatch reported), fun _ _ reported => nomatch reported⟩

theorem SubmitAnswer.Matches.check {contextVersion readSetVersion : Option Int} {result : SubmitAnswer}
    (h : result.Matches contextVersion readSetVersion)
    {r : IntentRecord} (context : r.contextVersion = result.contextVersion) (readSet : r.readSetVersion = result.readSetVersion)
    (reason : Str) : (gateVersionCheck r true reason contextVersion readSetVersion).1 = true := by
  unfold gateVersionCheck
  split
  · cases readSetVersion with
    | some v => simp [readSet, h.readSet v rfl]
    | none =>
      cases contextVersion with
      | some v => simp [context, h.context rfl v rfl]
      | none => rfl
  · rfl

end

/-! ### A call that does not raise -/

/-- The record of the intent is one of a stop. -/
def Site.Stop (id : Str) (s : Site) : Prop :=
  (s.runtime.records.get id).any (fun r => decide (r.actionClass = .stop)) = true

instance (id : Str) (s : Site) : Decidable (s.Stop id) := inferInstanceAs (Decidable (_ = true))

section

variable [PyText]

/-- The witness has the form that the actuator's command takes. -/
def Actuator.Accepts (witness : Option Json) : Actuator → Prop
  | .middleware => True
  | .plc method => method = .conditional → (witnessVersion witness).isOk = true
  | .openplc _ => (witness.filter fun v => decide (v ≠ .null)).all (fun v => (toInt v).isOk) = true

instance (witness : Option Json) (actuator : Actuator) : Decidable (actuator.Accepts witness) := by
  rcases actuator <;> dsimp only [Actuator.Accepts] <;> infer_instance

/-- What a call asks for is done and answered. -/
def Unraised (actuator : Actuator) (s : Site) (fate : Fate) : SiteCommand → Prop
  | .startCall _ _ witness => fate = .done ∧ actuator.Accepts witness
  | .publish => fate = .done
  | .actuateCell _ _ => fate = .done
  | .cellAnswer ticket => fate = .done ∧ (s.answers.find? fun answer => decide (answer.1 = ticket)).isSome = true
  | .plcCommand _ _ => fate = .done
  | _ => True

instance (actuator : Actuator) (s : Site) (fate : Fate) (c : SiteCommand) : Decidable (Unraised actuator s fate c) := by
  rcases c <;> dsimp only [Unraised] <;> infer_instance

/-- In the optimistic branch no call raises. -/
def Unharmed (job : DeploymentJob) (c : SiteCommand) (s : Site) (fate : Fate) : Prop :=
  match job with
  | .gateway q body _ _ => q.atomic = false → ¬s.Stop body.id → Unraised q.actuator s fate c
  | .request _ => True

instance (job : DeploymentJob) (c : SiteCommand) (s : Site) (fate : Fate) : Decidable (Unharmed job c s fate) := by
  rcases job <;> dsimp only [Unharmed] <;> infer_instance

end

/-! ### Steps -/

section

variable [PyText] {cfg : SiteConfig} {x : Str} {s : Site}

theorem aside_exec {c : SiteCommand} (untouched : ¬c.Touches x s) : s.Aside x (Site.exec cfg c s).2 := by
  have routine : c.Routine → ¬c.Reaches x .withheld → s.Aside x (Site.exec cfg c s).2 := fun routine never =>
    (Site.reported_exec routine s).asideOf (Site.sameOutside_exec routine.served s) never
  cases c with
  | admitIntent ref =>
    have ends := ends_admitIntent cfg.config ref s.mono false s.runtime
    have outside : s.SameOutside (Site.exec cfg (.admitIntent ref) s).2 := Site.sameOutside_exec (c := .admitIntent ref) trivial s
    simp only [Site.exec, Site.runs] at outside ⊢
    cases run : Xair.admitIntent cfg.config ref s.mono false s.runtime with
    | error e rt => exact (ends.of_run_error run).elim
    | ok a rt =>
      rw [run] at outside
      obtain ⟨admission, _⟩ := ends.of_run_ok run
      refine ⟨Nat.le_refl _, fun r _ => congrArg (fun heap => (heap r).id) admission.heap, fun r' stored => ?_,
        Exists.imp fun t started => outside.starts ▸ started, fun report member _ => outside.reports ▸ member⟩
      rcases admission.records x r' stored with old | ⟨own, _⟩
      · exact ⟨r', old, rfl, rfl, rfl, rfl, fun h => h⟩
      · exact absurd own.symm untouched
  | process ticket ref call =>
    have processed := Site.processed_process cfg ticket ref call s
    have outside : s.SameOutside (Site.exec cfg (.process ticket ref call) s).2 := Site.sameOutside_exec (c := .process ticket ref call) trivial s
    exact .of_same (Nat.le_of_eq processed.allocated.symm) (fun r _ => processed.attempt.alone.ids r)
      (processed.attempt.alone.others x fun own => untouched own.symm)
      (Exists.imp fun t started => outside.starts ▸ started) fun report member _ => outside.reports ▸ member
  | transition id state outcome reason =>
    have outside := Site.sameOutside_runs (Xair.transition id state outcome reason) s
    have ends : Ends (Xair.transition id state outcome reason) s.runtime
        (fun _ rt' => rt'.heap = s.runtime.heap ∧ rt'.records.get x = s.runtime.records.get x)
        fun _ rt' => rt'.heap = s.runtime.heap ∧ rt'.records.get x = s.runtime.records.get x := by
      cases found : s.runtime.records.get id with
      | none =>
        rw [Xair.transition, ends_bind, ends_get]
        simp only [found]
        exact ends_throw.mpr ⟨rfl, rfl⟩
      | some record =>
        by_cases allowed : state ∈ record.state.allowed
        · exact (ends_transition found allowed).mpr ⟨rfl, Dict.get_insert_ne _ _ fun own => untouched own.symm⟩
        · exact (ends_transition_refused found allowed).mpr ⟨rfl, rfl⟩
    exact .of_ends (m := Xair.transition id state outcome reason) outside ends
  | recordCommit id committed reason seq => exact routine trivial fun reached => untouched reached.1
  | reportRelease id released reason cv rv => exact routine trivial fun reached => untouched reached.1
  | reportWithheld id reason append => exact routine trivial fun reached => untouched reached.1
  | reportEffect id status detail => exact routine trivial fun reached => by cases status <;> cases reached.2
  | supervisoryRevoke id reason => exact routine trivial fun reached => by cases reached.2
  | sendReport report =>
    refine .of_same (Nat.le_refl _) (fun _ _ => rfl) rfl (fun h => h) fun other member own => ?_
    rcases List.mem_append.mp member with old | new
    · exact old
    · exact absurd (List.mem_singleton.mp new ▸ own) untouched
  | startCall ticket id witness =>
    refine .of_same (Nat.le_refl _) (fun _ _ => rfl) rfl ?_ fun _ h _ => h
    rintro ⟨t, member⟩
    rcases List.mem_append.mp member with old | new
    · exact ⟨t, old⟩
    · exact absurd (Prod.mk.inj (List.mem_singleton.mp new)).2.symm untouched
  | actuateCell ticket command => exact .of_same (Nat.le_refl _) (fun _ _ => rfl) rfl (fun h => h) fun _ h _ => h
  | appendActuation tombstone => exact .of_same (Nat.le_refl _) (fun _ _ => rfl) rfl (fun h => h) fun _ h _ => h
  | _ => exact routine trivial fun reached => reached

/-- The run's own admission. -/
theorem Site.Told.admitIntent (h : s.Told x) {ref : Ref} (names : s.Names ref x) :
    (Site.exec cfg (.admitIntent ref) s).2.Told x ∧ s.Submitted x (Site.exec cfg (.admitIntent ref) s).2 ∧
      ∀ a, (s.runs (Xair.admitIntent cfg.config ref s.mono false)).1 = .ok a →
        (Site.exec cfg (.admitIntent ref) s).2.Names a.1.intent x := by
  have ends := ends_admitIntent cfg.config ref s.mono false s.runtime
  have outside : s.SameOutside (Site.exec cfg (.admitIntent ref) s).2 := Site.sameOutside_exec (c := .admitIntent ref) trivial s
  simp only [Site.exec, Site.runs] at outside ⊢
  cases run : Xair.admitIntent cfg.config ref s.mono false s.runtime with
  | error e rt => exact (ends.of_run_error run).elim
  | ok a rt =>
    rw [run] at outside
    obtain ⟨admission, stored, _⟩ := ends.of_run_ok run
    have ids : ∀ r, (rt.heap r).id = (s.runtime.heap r).id := fun r => congrArg (fun heap => (heap r).id) admission.heap
    have withheld : (rt.records.get x).map IntentRecord.state = some .withheld → s.state x = some .withheld := by
      intro now
      obtain ⟨r', stored', state⟩ := Option.map_eq_some_iff.mp now
      rcases admission.records x r' stored' with old | ⟨_, rfl⟩
      · rw [Site.state, old, Option.map_some, state]
      · cases state
    have named : ∀ r', rt.records.get x = some r' → r'.intent < s.allocated ∧ (rt.heap r'.intent).id = x := by
      intro r' stored'
      rw [ids]
      rcases admission.records x r' stored' with old | ⟨_, rfl⟩
      · exact h.named r' old
      · exact names
    have started : ({ s with runtime := rt } : Site).Started x → s.Started x := fun h => h
    refine ⟨⟨named, fun started => ?_⟩, ⟨Nat.le_refl _, fun r _ => ids r, fun h => h, fun _ h _ => h, withheld⟩, fun a' same => ?_⟩
    · obtain ⟨told, kept⟩ := h.truthful started
      exact ⟨told, fun now => kept (withheld now)⟩
    · obtain rfl := Except.ok.inj same
      exact named a.1 (names.2 ▸ stored)

/-- The run's own validation pass. -/
theorem Site.Told.process (h : s.Told x) {ref : Ref} (names : s.Names ref x) (ticket : Nat) (call : ProcessCall) :
    (s.process cfg ticket ref call).2.Told x ∧ s.Submitted x (s.process cfg ticket ref call).2 ∧
      ∀ a, (s.process cfg ticket ref call).1 = .ok a → (s.process cfg ticket ref call).2.Holds x a := by
  have processed := Site.processed_process cfg ticket ref call s
  have outside : s.SameOutside (Site.exec cfg (.process ticket ref call) s).2 := Site.sameOutside_exec (c := .process ticket ref call) trivial s
  change s.SameOutside (s.process cfg ticket ref call).2 at outside
  generalize (s.process cfg ticket ref call).1 = reply at *
  generalize (s.process cfg ticket ref call).2 = s' at *
  obtain ⟨⟨alone, _, present, intent, reached⟩, answered, allocated, _⟩ := processed
  have withheld : s'.state x = some .withheld → s.state x = some .withheld := by
    intro now
    rcases reached with same | reached
    · rw [Site.state, same] at now
      exact now
    · obtain ⟨r', stored, state⟩ := Option.map_eq_some_iff.mp now
      have never := reached r' (names.2 ▸ stored)
      rw [state] at never
      exact absurd never (by decide)
  have named : ∀ r', s'.runtime.records.get x = some r' → s'.Names r'.intent x := by
    intro r' stored
    refine ⟨?_, (alone.ids _).trans ?_⟩ <;> rcases intent r' (names.2 ▸ stored) with same | ⟨r, was, same⟩ <;> rw [same]
    · rw [allocated]
      exact names.1
    · rw [allocated]
      exact (h.named r (names.2 ▸ was)).1
    · exact names.2
    · exact (h.named r (names.2 ▸ was)).2
  have reports : ∀ report ∈ s'.reports, report.id = x → report ∈ s.reports := fun report member _ => outside.reports ▸ member
  have started : s'.Started x → s.Started x := fun ⟨t, member⟩ => ⟨t, outside.starts ▸ member⟩
  refine ⟨⟨named, fun now => ?_⟩, ⟨Nat.le_of_eq allocated.symm, fun r _ => alone.ids r, started, reports, withheld⟩,
    fun a same => ?_⟩
  · obtain ⟨told, kept⟩ := h.truthful (started now)
    exact ⟨fun report member own => told report (reports report member own) own, fun h => kept (withheld h)⟩
  · have stored : s'.runtime.records.get x = some a := names.2 ▸ answered a same
    refine ⟨named a stored, fun r stored' => ?_⟩
    rw [Option.some.inj (stored'.symm.trans stored)]
    exact ⟨rfl, rfl, rfl⟩

/-- The run with this ticket may do anything to `x` that keeps the invariant; the others leave it alone. -/
def reporting (cfg : SiteConfig) (x : Str) (run : Nat) : Discipline (site cfg) DeploymentJob where
  Inv := Site.Told x
  Step t _ s s' := t ≠ run → s.Aside x s'
  Rely t s s' := t = run → s.Aside x s'
  step_refl _ _ s _ := .refl x s
  rely_refl _ s _ := .refl x s
  rely_trans _ _ _ _ first second here := (first here).trans (second here)
  rely_of_step _ _ _ _ _ ne step here := step (here ▸ ne)

variable {run : Nat} {role : DeploymentJob} {may : SiteCommand → Site → Fate → Prop}

theorem plain_aside {c : SiteCommand} (plain : c.Plain) (s : Site) : s.Aside x (Site.exec cfg c s).2 :=
  (Site.reported_exec plain.routine s).asideOf (Site.sameOutside_exec plain.routine.served s) plain.reaches

/-- What the run knows of its own submission. -/
def reportCourse (cfg : SiteConfig) (x : Str) (run : Nat) (role : DeploymentJob) (may : SiteCommand → Site → Fate → Prop)
    (ticket : Nat) : Course (reporting cfg x run) run role may ticket x where
  Moves := Site.Submitted x
  Keeps := Site.Aside x
  Ready ref := Site.Names ref x
  Source _ _ := True
  Good _ := Site.Holds x
  moves_trans _ _ _ first second := first.trans second
  keeps_refl := Site.Aside.refl x
  keeps_trans _ _ _ first second := first.trans second
  moves_of_keeps _ _ moved := moved.submitted
  keeps_of_rely _ _ rely := rely rfl
  ready_moves _ _ _ names moved := names.submitted moved
  source_moves _ _ _ _ _ := trivial
  good_keeps _ _ _ _ held moved := held.aside moved
  ready_of_good _ _ _ _ held := held.1
  plain c s _ plain inv _ := ⟨inv.aside (plain_aside plain s), fun _ => plain_aside plain s, plain_aside plain s⟩
  withdrawn outcome reason s _ inv _ := by
    have routine := routine_withdraw x outcome reason
    have moved : s.Aside x (Site.exec cfg (.transition x .revoked outcome reason) s).2 :=
      (Site.reported_exec routine s).asideOf (Site.sameOutside_exec routine.served s) fun reached => nomatch reached.2
    exact ⟨inv.aside moved, fun _ => moved, moved.submitted⟩
  created i s own _ _ :=
    ⟨Nat.lt_succ_self _, (congrArg ActionIntent.id ((Runtime.heap_putIntent _ _ _ _).trans (if_pos rfl))).trans own⟩
  admission ref s _ inv names _ := ⟨(inv.admitIntent names).1, fun ne => absurd rfl ne, (inv.admitIntent names).2.1⟩
  admitted ref s a inv names _ same := (inv.admitIntent names).2.2 a same
  registered _ _ _ _ _ _ _ := trivial
  process ref call s _ inv names _ _ :=
    ⟨(inv.process names ticket call).1, fun ne => absurd rfl ne, (inv.process names ticket call).2.1⟩
  processed ref call s a inv names _ _ same := (inv.process names ticket call).2.2 a same
  read _ _ _ _ held _ := held.current

/-! ### The run after its submission -/

/-- The others leave the run where it is. -/
theorem not_started_aside {s s' : Site} (idle : ¬s.Started x) (rely : (reporting cfg x run).Rely run s s') : ¬s'.Started x :=
  fun started => idle ((rely rfl).started started)

variable (cfg) in
/-- A routine step of the run while no call has been started. -/
theorem told_routine {c : SiteCommand} (routine : c.Routine) (inv : s.Told x) (idle : ¬s.Started x) :
    (Site.exec cfg c s).2.Told x ∧ ¬(Site.exec cfg c s).2.Started x := by
  have moved : s.Reported _ (Site.exec cfg c s).2 := Site.reported_exec routine s
  have outside : s.SameOutside (Site.exec cfg c s).2 := Site.sameOutside_exec routine.served s
  have still : ¬(Site.exec cfg c s).2.Started x := fun ⟨t, member⟩ => idle ⟨t, outside.starts ▸ member⟩
  refine ⟨⟨fun r' stored => ?_, fun started => absurd started still⟩, still⟩
  rcases moved.records x with same | ⟨r, a, was, now, further⟩
  · obtain ⟨used, own⟩ := inv.named r' (same.symm.trans stored)
    exact ⟨Nat.lt_of_lt_of_le used moved.allocated, (moved.ids _ used).trans own⟩
  · obtain rfl := Option.some.inj (now.symm.trans stored)
    obtain ⟨used, own⟩ := inv.named r was
    rw [further.intent]
    exact ⟨Nat.lt_of_lt_of_le used moved.allocated, (moved.ids _ used).trans own⟩

variable (cfg) in
theorem before_routine {result : SubmitAnswer} {c : SiteCommand} (routine : c.Routine) (inv : s.Told x) (before : s.Before x result) :
    (Site.exec cfg c s).2.Told x ∧ (Site.exec cfg c s).2.Before x result := by
  obtain ⟨told, idle⟩ := told_routine cfg routine inv before.notStarted
  refine ⟨told, idle, fun report member => ?_, fun r' stored => ?_⟩
  · exact before.unreported report ((show s.SameOutside (Site.exec cfg c s).2 from Site.sameOutside_exec routine.served s).reports ▸ member)
  · rcases (show s.Reported _ (Site.exec cfg c s).2 from Site.reported_exec routine s).records x with same | ⟨r, a, was, now, further⟩
    · exact before.reads r' (same.symm.trans stored)
    · obtain rfl := Option.some.inj (now.symm.trans stored)
      obtain ⟨same₁, same₂, same₃⟩ := before.reads r was
      exact ⟨further.cls.trans same₁, further.contextVersion.trans same₂, further.readSetVersion.trans same₃⟩

/-- The judgement for the run itself. -/
abbrev OnRun (cfg : SiteConfig) (x : Str) (run : Nat) (role : DeploymentJob) (may : SiteCommand → Site → Fate → Prop)
    (K : Site → Prop) {α : Type} (m : Handler cfg α) (s : Site) (ok : α → Site → Prop) : Prop :=
  Method.Steady (reporting cfg x run) run role may K m () s fun a _ => ok a

section

variable {α β : Type} {result : SubmitAnswer} {m : Handler cfg α}

theorem onRun_idle (sends : Method.Sends SiteCommand.Routine m) (idle : ¬s.Started x) :
    OnRun cfg x run role may (fun s => ¬s.Started x) m s fun _ _ => True := by
  refine Method.steady_of_sends (fun _ _ => not_started_aside) (fun c s fate routine inv kept _ => ?_) sends idle
  obtain ⟨told, still⟩ := told_routine cfg routine inv kept
  exact ⟨told, fun ne => absurd rfl ne, still⟩

theorem onRun_before (sends : Method.Sends SiteCommand.Routine m) (before : s.Before x result) :
    OnRun cfg x run role may (Site.Before x result) m s fun _ _ => True := by
  refine Method.steady_of_sends (fun _ _ kept rely => kept.aside (rely rfl)) (fun c s fate routine inv kept _ => ?_) sends before
  obtain ⟨told, still⟩ := before_routine cfg routine inv kept
  exact ⟨told, fun ne => absurd rfl ne, still⟩

/-- A request, where what it ends with lasts. -/
theorem onRun_http {K : Site → Prop} {ok : α → Site → Prop} (others : ∀ s s', K s → s.Aside x s' → K s')
    (lasts : ∀ a s s', s.Told x → K s → ok a s → s.Aside x s' → ok a s') (inv : s.Told x) (start : K s)
    (h : ∀ s : Site, s.Told x → K s → OnRun cfg x run role may K m s ok) : OnRun cfg x run role may K (http m) s ok := by
  have rely : ∀ s s' : Site, K s → (reporting cfg x run).Rely run s s' → K s' := fun s s' kept moved => others s s' kept (moved rfl)
  have sent : ∀ {s : Site}, K s → OnRun cfg x run role may K (step .send : Handler cfg Unit) s fun _ s' => s.Aside x s' :=
    fun {s} kept => Method.steady_command rely kept (fun s' _ inv' kept' _ => ⟨inv', fun ne => absurd rfl ne, kept'⟩)
      fun s' moved _ _ _ s'' moved' _ => (moved rfl).trans (moved' rfl)
  refine Method.steady_bind inv (sent start) fun _ _ s₁ inv₁ kept₁ _ => ?_
  refine Method.steady_bind inv₁ (h s₁ inv₁ kept₁) fun a _ s₂ inv₂ kept₂ held => ?_
  refine Method.steady_bind inv₂ (sent kept₂) fun _ _ s₃ inv₃ kept₃ moved => ?_
  exact Method.steady_pure rely kept₃ fun s₄ moved' _ => lasts a s₂ s₄ inv₂ kept₂ held (moved.trans (moved' rfl))

/-- A report while no call has been started. -/
theorem onRun_report {answer : Type} (report : LifecycleReport) {handler : Handler cfg answer}
    (sends : Method.Sends SiteCommand.Routine handler) (inv : s.Told x) (idle : ¬s.Started x) :
    OnRun cfg x run role may (fun s => ¬s.Started x) (tryCatch (do
      step (.sendReport report)
      let _ ← http handler
      return ()) fun _ => (pure () : Handler cfg Unit)) s fun _ _ => True := by
  refine Method.steady_tryCatch inv ?_ fun _ _ s' _ kept => Method.steady_pure (fun _ _ => not_started_aside) kept fun _ _ _ => trivial
  refine Method.steady_bind inv (P := fun _ _ _ => True) (Method.steady_command (fun _ _ => not_started_aside) idle
    (fun s' _ inv' kept _ => ⟨⟨inv'.named, fun started => absurd started kept⟩, fun ne => absurd rfl ne, kept⟩)
    fun _ _ _ _ _ _ _ _ => trivial) fun _ _ s₁ inv₁ kept₁ _ => ?_
  refine Method.steady_bind inv₁ (P := fun _ _ _ => True) ?_ fun _ _ s₂ _ kept₂ _ =>
    Method.steady_pure (fun _ _ => not_started_aside) kept₂ fun _ _ _ => trivial
  exact onRun_http (fun s s' kept moved started => kept (moved.started started)) (fun _ _ _ _ _ _ _ => trivial) inv₁ kept₁
    fun s _ kept => onRun_idle sends kept

theorem onRun_sendWithheld (ticket : Nat) (reason : Str) (append : Fate) (inv : s.Told x) (idle : ¬s.Started x) :
    OnRun cfg x run role may (fun s => ¬s.Started x) (sendWithheld ticket x reason append : Handler cfg Unit) s fun _ _ => True :=
  onRun_report ⟨ticket, x, false, none⟩ (sends_withheldReport x reason append) inv idle

/-- A report of a release that was not made. -/
theorem onRun_sendWithdrawn (ticket : Nat) (reason : Str) (contextVersion readSetVersion : Option Int) (inv : s.Told x)
    (idle : ¬s.Started x) :
    OnRun cfg x run role may (fun s => ¬s.Started x)
      (sendRelease ticket x false reason contextVersion readSetVersion none : Handler cfg Unit) s fun _ _ => True :=
  onRun_report ⟨ticket, x, false, none⟩ (sends_releaseReport x false reason contextVersion readSetVersion none) inv idle

/-- A step of the run that it takes like anyone else. -/
theorem onRun_aside {K : Site → Prop} (others : ∀ s s', K s → s.Aside x s' → K s') {c : SiteCommand} {ok : c.Reply → Site → Prop}
    (start : K s) (effect : ∀ s', s'.Told x → K s' → s'.Aside x (Site.exec cfg c s').2)
    (replied : ∀ s', s'.Told x → K s' → ∀ s'', (Site.exec cfg c s').2.Aside x s'' → ok (Site.exec cfg c s').1 s'') :
    OnRun cfg x run role may K (step c) s ok := by
  refine Method.steady_command (fun s s' kept (rely : (reporting cfg x run).Rely run s s') => others s s' kept (rely rfl)) start
    (fun s' _ inv kept _ => ?_) fun s' _ inv kept _ s'' rely _ => replied s' inv kept s'' (rely rfl)
  exact ⟨inv.aside (effect s' inv kept), fun ne => absurd rfl ne, others _ _ kept (effect s' inv kept)⟩

/-! ### The commit -/

/-- A commit that is answered as committed has made the record `COMMITTED`. -/
theorem onRun_commitAuthorized (inv : s.Told x) (before : s.Before x result) (record : IntentRecord) (scope : Scope) (marginMs : ℚ) :
    OnRun cfg x run role may (Site.Before x result) (commitAuthorized x record scope marginMs) s
      fun act s' => act.committed = true → s'.state x ≠ some .withheld := by
  have others : ∀ s s' : Site, s.Before x result → (reporting cfg x run).Rely run s s' → s'.Before x result :=
    fun s s' kept rely => kept.aside (rely rfl)
  refine Method.steady_bind inv (onRun_before (sends_step (c := .time) trivial) before) fun now _ s₁ inv₁ before₁ _ => ?_
  refine Method.steady_bind inv₁ (onRun_before (sends_step (c := .intent record.intent) trivial) before₁)
    fun i _ s₂ inv₂ before₂ _ => ?_
  refine Method.steady_ite (fun _ => ?_) fun _ => ?_
  · refine Method.steady_bind inv₂ (onRun_before (sends_step (c := .recordCommit x false _ none) trivial) before₂)
      fun reply _ s₃ inv₃ before₃ _ => ?_
    refine Method.steady_bind inv₃ (onRun_before (sends_answered reply) before₃) fun final _ s₄ _ before₄ _ => ?_
    exact Method.steady_pure others before₄ fun _ _ _ committed => nomatch committed
  · refine Method.steady_bind inv₂ (onRun_before (sends_storedCommit _) before₂) fun result' _ s₃ inv₃ before₃ _ => ?_
    generalize decide (result'.status = .committed ∨ result'.status = .duplicate) = committed
    refine Method.steady_bind inv₃ (P := fun reply _ s' => ∀ a, reply = .ok a → committed = true → s'.state x ≠ some .withheld)
      (Method.steady_command others before₃ (fun s' _ inv' kept _ => ?_) fun s' _ inv' kept _ s'' rely _ a same yes withheld => ?_)
      fun reply _ s₄ inv₄ before₄ told => ?_
    · obtain ⟨told, still⟩ := before_routine cfg (c := .recordCommit x committed (result'.status.reason scope).toList
        (if committed then result'.seq else none)) trivial inv' kept
      exact ⟨told, fun ne => absurd rfl ne, still⟩
    · subst yes
      have now := (rely rfl).withheld withheld
      rw [show (Site.exec cfg (.recordCommit x true _ _) s').2.state x = _ from recordCommit_committed same] at now
      cases now
    · cases reply with
      | error e => exact Method.steady_throw others before₄
      | ok final =>
        refine Method.steady_bind inv₄ (P := fun _ _ s' => committed = true → s'.state x ≠ some .withheld)
          (Method.steady_pure others before₄ fun s' rely _ yes withheld => told final rfl yes ((rely rfl).withheld withheld))
          fun final _ s₅ _ before₅ told₅ => ?_
        exact Method.steady_pure others before₅ fun s' rely _ yes withheld => told₅ yes ((rely rfl).withheld withheld)

theorem onRun_commitIntent (inv : s.Told x) (before : s.Before x result) (scope : Scope) (marginMs : ℚ) :
    OnRun cfg x run role may (Site.Before x result) (commitIntent x scope marginMs) s
      fun act s' => act.committed = true → s'.state x ≠ some .withheld := by
  have others : ∀ s s' : Site, s.Before x result → (reporting cfg x run).Rely run s s' → s'.Before x result :=
    fun s s' kept rely => kept.aside (rely rfl)
  refine Method.steady_ite (fun _ => Method.steady_throw others before) fun _ => ?_
  refine Method.steady_bind inv (onRun_before (sends_step (c := .recordOf x) trivial) before) fun found _ s₁ inv₁ before₁ _ => ?_
  cases found with
  | none => exact Method.steady_throw others before₁
  | some record =>
    exact Method.steady_ite (fun _ => onRun_commitAuthorized inv₁ before₁ record scope marginMs) fun _ =>
      Method.steady_throw others before₁

/-! ### The call and its report -/

variable {ticket : Nat}

/-- What the call of a run sends: a conditional command has the version of this witness. -/
def SiteCommand.CallsFor (id : Str) (witness : Option Json) : SiteCommand → Prop
  | .actuateCell _ command => command.intentId = id ∧ ∀ version, command.expected = some version → witnessVersion witness = .ok version
  | c => c.Calls

theorem cellCommand_for {id : Str} {method : CellMethod} {witness : Option Json} {deadlineMs : ℚ} {command : CellCommand}
    (made : cellCommand ticket id method witness deadlineMs = .ok command) :
    (SiteCommand.actuateCell ticket command).CallsFor id witness := by
  cases method with
  | plain =>
    cases made
    exact ⟨rfl, fun _ none => nomatch none⟩
  | predicate =>
    cases made
    exact ⟨rfl, fun _ none => nomatch none⟩
  | conditional =>
    simp only [cellCommand] at made
    cases read : witnessVersion witness with
    | error e =>
      rw [read] at made
      cases made
    | ok expected =>
      rw [read] at made
      cases made
      exact ⟨rfl, fun version same => by rw [read, Option.some.inj same]⟩

theorem sends_callsFor (id : Str) (actuator : Actuator) (witness : Option Json) (deadlineMs : ℚ) :
    Method.Sends (SiteCommand.CallsFor id witness)
      (callActuator ticket id actuator witness deadlineMs : Handler cfg (Option Str × Bool)) := by
  cases actuator with
  | middleware => exact Method.sends_bind (sends_step (c := .publish) trivial) fun _ => Method.sends_pure _
  | plc method =>
    refine Method.sends_bind ?_ fun _ => Method.sends_pure _
    rw [actuateCell]
    split
    · exact Method.sends_throw _
    · rename_i command made
      refine Method.sends_bind (sends_step (c := .actuateCell ticket command) (cellCommand_for made)) fun _ => ?_
      refine Method.sends_bind (sends_step (c := .cellAnswer ticket) trivial) fun reply => ?_
      cases reply with
      | none => exact Method.sends_throw _
      | some result => exact Method.sends_pure _
  | openplc method =>
    refine Method.sends_bind ?_ fun _ => Method.sends_pure _
    rw [actuatePlc]
    split
    · exact sends_step (c := .plcCommand none method) trivial
    · split
      · exact Method.sends_throw _
      · exact sends_step (c := .plcCommand (some _) method) trivial

theorem sends_callActuator (id : Str) (actuator : Actuator) (witness : Option Json) (deadlineMs : ℚ) :
    Method.Sends SiteCommand.Calls (callActuator ticket id actuator witness deadlineMs : Handler cfg (Option Str × Bool)) := by
  refine (sends_callsFor id actuator witness deadlineMs).imp fun c calls => ?_
  cases c with
  | actuateCell _ _ => trivial
  | _ => exact calls

variable (cfg ticket role may) in
/-- The call, whatever it raises. -/
theorem onRun_callActuator (reads : s.Reads x result) (actuator : Actuator) (witness : Option Json) (deadlineMs : ℚ) :
    OnRun cfg x run role may (Site.Reads x result) (callActuator ticket x actuator witness deadlineMs) s fun _ _ => True := by
  refine Method.steady_of_sends (fun s s' kept (rely : (reporting cfg x run).Rely run s s') => kept.aside (rely rfl))
    (fun c s fate calls inv kept _ => ?_) (sends_callActuator x actuator witness deadlineMs) reads
  have moved : s.Aside x (Site.exec cfg c s).2 := aside_exec (calls.untouched (x := x) (s := s))
  exact ⟨inv.aside moved, fun ne => absurd rfl ne, kept.aside moved⟩

/-- A released report with the versions of the answer. -/
theorem onRun_sendReleased (inv : s.Told x) (reads : s.Reads x result) {contextVersion readSetVersion : Option Int}
    (matching : result.Matches contextVersion readSetVersion) (reason : Str) (effect : EffectStatus × Str) :
    OnRun cfg x run role may (Site.Reads x result)
      (sendRelease ticket x true reason contextVersion readSetVersion (some effect)) s fun _ _ => True := by
  have others : ∀ s s' : Site, s.Reads x result → (reporting cfg x run).Rely run s s' → s'.Reads x result :=
    fun s s' kept rely => kept.aside (rely rfl)
  refine Method.steady_tryCatch inv ?_ fun _ _ s' _ kept => Method.steady_pure others kept fun _ _ _ => trivial
  refine Method.steady_bind inv (P := fun _ _ _ => True) (Method.steady_command others reads (fun s' _ inv' kept _ => ?_)
    fun _ _ _ _ _ _ _ _ => trivial) fun _ _ s₁ inv₁ kept₁ _ => ?_
  · refine ⟨⟨inv'.named, fun started => ⟨fun report member own => ?_, (inv'.truthful started).2⟩⟩, fun ne => absurd rfl ne, kept⟩
    rcases List.mem_append.mp member with old | new
    · exact (inv'.truthful started).1 report old own
    · rw [List.mem_singleton.mp new]
      exact ⟨rfl, rfl⟩
  refine Method.steady_bind inv₁ (P := fun _ _ _ => True) ?_ fun _ _ s₂ _ kept₂ _ =>
    Method.steady_pure others kept₂ fun _ _ _ => trivial
  refine onRun_http (fun s s' kept moved => kept.aside moved) (fun _ _ _ _ _ _ _ => trivial) inv₁ kept₁ fun s inv kept => ?_
  refine Method.steady_bind inv (P := fun _ _ _ => True) (onRun_aside (fun _ _ kept moved => kept.aside moved) kept
    (fun s' _ kept' => ?_) fun _ _ _ _ _ => trivial) fun reply _ s₃ inv₃ kept₃ _ => ?_
  · have reported := reported_reportRelease_matching (fun y state => y = x ∧ state = .released) cfg.config s'.runtime
      ⟨rfl, rfl⟩ (fun r stored => matching.check (kept' r stored).2.1 (kept' r stored).2.2 reason)
    exact (Site.Reported.of_ends reported).asideOf (Site.sameOutside_runs _ s') fun reached => nomatch reached.2
  cases reply with
  | error e => exact Method.steady_throw others kept₃
  | ok record =>
    refine Method.steady_bind inv₃ (P := fun _ _ _ => True) (Method.steady_pure others kept₃ fun _ _ _ => trivial)
      fun record _ s₄ inv₄ kept₄ _ => ?_
    refine Method.steady_ite (fun _ => ?_) fun _ => Method.steady_pure others kept₄ fun _ _ _ => trivial
    refine Method.steady_bind inv₄ (P := fun _ _ _ => True) (onRun_aside (fun _ _ kept moved => kept.aside moved) kept₄
      (fun s' _ _ => aside_exec (c := .reportEffect x effect.1 effect.2) fun touches => touches) fun _ _ _ _ _ => trivial)
      fun reply _ s₅ inv₅ kept₅ _ => ?_
    cases reply with
    | error e => exact Method.steady_throw others kept₅
    | ok record => exact Method.steady_pure others kept₅ fun _ _ _ => trivial

/-! ### The three branches -/

variable (cfg) in
theorem told_startCall {s' : Site} (inv : s'.Told x) (before : s.Before x result) (kept : s.state x ≠ some .withheld)
    (moved : s.Aside x s') (witness : Option Json) : (Site.exec cfg (.startCall ticket x witness) s').2.Told x := by
  have before' := before.aside moved
  exact ⟨inv.named, fun _ => ⟨fun report member own => absurd own (before'.unreported report member),
    fun withheld => kept (moved.withheld withheld)⟩⟩

/-- The call begins: with nothing reported and a record that is not `WITHHELD` the invariant holds on. -/
theorem onRun_startCall (before : s.Before x result) (kept : s.state x ≠ some .withheld) (witness : Option Json) :
    OnRun cfg x run role may (Site.Reads x result) (step (.startCall ticket x witness)) s fun _ _ => True := by
  -- the two facts last until the step, which then turns them into the invariant
  refine Method.runs_sent (fun s' fate rely inv' _ => ⟨told_startCall cfg inv' before kept (rely rfl) witness, fun ne => absurd rfl ne⟩)
    (fun s' rely _ _ s'' rely' _ => ?_) fun s' fate rely _ _ _ s'' rely' _ _ => ?_
  · have reads : Site.Reads x result (Site.exec cfg (.startCall ticket x witness) s').2 :=
      show s'.Reads x result from before.reads.aside (rely rfl)
    exact ⟨reads.aside (rely' rfl), trivial⟩
  · have reads : s'.Reads x result := before.reads.aside (rely rfl)
    exact (Service.perform_of (S := site cfg) (c := .startCall ticket x witness) (P := Site.Reads x result) reads reads fate).aside
      (rely' rfl)

theorem onRun_releaseStop (inv : s.Told x) (before : s.Before x result) (kept : s.state x ≠ some .withheld) :
    OnRun cfg x run role may (Site.Reads x result) (releaseStop ticket x) s fun _ _ => True := by
  have others : ∀ s s' : Site, s.Reads x result → (reporting cfg x run).Rely run s s' → s'.Reads x result :=
    fun s s' kept rely => kept.aside (rely rfl)
  refine Method.steady_bind inv (onRun_startCall before kept none) fun _ _ s₁ inv₁ reads₁ _ => ?_
  refine Method.steady_bind inv₁ (Method.steady_tryCatch inv₁ (onRun_callActuator cfg role may ticket reads₁ .middleware none 0)
    fun _ _ s' _ kept => Method.steady_pure others kept fun _ _ _ => trivial) fun called _ s₂ inv₂ reads₂ _ => ?_
  obtain ⟨cellResult, rosOk⟩ := called
  refine Method.steady_bind inv₂ (onRun_sendReleased inv₂ reads₂ result.matches_none _ _)
    fun _ _ s₃ _ reads₃ _ => Method.steady_pure others reads₃ fun _ _ _ => trivial

/-- What a release has come to: a call that was made is left with a record to compare. -/
def Release.Left (x : Str) (result : SubmitAnswer) (s : Site) : Release → Prop
  | .blocked _ => True
  | .called _ _ _ => s.Reads x result

theorem onRun_commitAndCall (inv : s.Told x) (before : s.Before x result) (own : result.id = x) (q : GatewayQuery) (i : ActionIntent) :
    Method.Runs (reporting cfg x run) run role may (commitAndCall ticket q i result) () s
      (fun release _ s' => release.Left x result s') fun _ _ _ => True := by
  subst own
  have others : ∀ s s' : Site, s.Before result.id result → (reporting cfg result.id run).Rely run s s' → s'.Before result.id result :=
    fun s s' kept rely => kept.aside (rely rfl)
  have committed : OnRun cfg result.id run role may (Site.Before result.id result)
      (http (commitIntent result.id (if q.scope = .truth then .truth else .readset) q.commitMarginMs)) s
      fun act s' => act.committed = true → s'.state result.id ≠ some .withheld :=
    onRun_http (fun s s' kept moved => kept.aside moved)
      (fun _ _ _ _ _ told moved committed withheld => told committed (moved.withheld withheld)) inv before
      fun s inv before => onRun_commitIntent inv before _ _
  refine Method.runs_bind inv (Method.Runs.imp committed (fun act _ s₁ _ ends inv₁ => ?_) fun _ _ _ _ _ => trivial)
  obtain ⟨before₁, told₁⟩ := ends
  refine Method.runs_ite (fun yes => ?_) fun _ => Method.runs_pure fun _ _ _ => trivial
  have timed : OnRun cfg result.id run role may (Site.Before result.id result) (step .time : Handler cfg ℚ) s₁
      fun _ s' => s'.state result.id ≠ some .withheld :=
    Method.steady_command others before₁ (fun s' _ inv' kept _ => ⟨inv', fun ne => absurd rfl ne, kept⟩)
      fun s' rely _ _ _ s'' rely' _ withheld => told₁ yes ((rely rfl).withheld ((rely' rfl).withheld withheld))
  refine Method.runs_bind inv₁ (Method.Runs.imp timed (fun now _ s₂ _ ends inv₂ => ?_) fun _ _ _ _ _ => trivial)
  obtain ⟨before₂, kept₂⟩ := ends
  simp only
  refine Method.runs_ite (fun _ => ?_) fun _ => ?_
  · refine Method.runs_bind inv₂ (Method.Runs.imp (onRun_startCall before₂ kept₂ _) (fun _ _ s₃ _ ends inv₃ => ?_)
      fun _ _ _ _ _ => trivial)
    have called := Method.steady_tryCatch inv₃ (onRun_callActuator cfg role may ticket
      ends.1 q.actuator (result.readValues.lookup "line.version".toList) (cfg.config.cellDeadlineMs i))
      fun _ _ s' _ kept => Method.steady_pure (a := ((some "error".toList, false) : Option Str × Bool))
        (fun s s' kept (rely : (reporting cfg result.id run).Rely run s s') => kept.aside (rely rfl)) kept fun _ _ _ => trivial
    refine Method.runs_bind inv₃ (Method.Runs.imp called (fun out _ s₄ _ ends _ => ?_) fun _ _ _ _ _ => trivial)
    exact Method.runs_pure fun s₅ rely _ => ends.1.aside (rely rfl)
  · refine Method.runs_bind inv₂ (Method.Runs.imp (onRun_sendWithheld ticket _ q.append inv₂ before₂.notStarted) (fun _ _ _ _ _ _ => ?_)
      fun _ _ _ _ _ => trivial)
    exact Method.runs_pure fun _ _ _ => trivial

theorem onRun_releaseAtomic (inv : s.Told x) (before : s.Before x result) (own : result.id = x) (q : GatewayQuery) (i : ActionIntent) :
    Method.Runs (reporting cfg x run) run role may (releaseAtomic ticket q i result) () s (fun _ _ _ => True) fun _ _ _ => True := by
  refine Method.runs_bind inv (Method.runs_tryCatch inv (Method.Runs.imp (onRun_commitAndCall inv before own q i)
    (fun release _ s₁ _ left inv₁ => ?_) fun _ _ _ _ _ _ => Method.runs_pure fun _ _ _ _ => Method.runs_pure fun _ _ _ => trivial))
  cases release with
  | blocked reason => exact Method.runs_pure fun _ _ _ => trivial
  | called reason cellResult rosOk =>
    subst own
    refine Method.runs_bind inv₁ (Method.Runs.imp (onRun_sendReleased inv₁ left
      result.matches_none reason (effectOf cellResult rosOk))
      (fun _ _ _ _ _ _ => Method.runs_pure fun _ _ _ => trivial) fun _ _ _ _ _ => trivial)

/-! ### The optimistic branch -/

theorem gateCheck_ok {i : ActionIntent} {scope : VersionScope} {doc : SnapshotDoc} {state : Option IntentState} {now : ℚ}
    {timedOut : Nat → Nat → Bool} {reason : Str} (passed : gateCheck cfg result i scope doc state now timedOut = .ok (true, reason)) :
    state = some .authorized ∧ (scope ≠ .predicate → gateVersion result scope doc = result.version scope) := by
  unfold gateCheck at passed
  split at passed
  · cases passed
  split at passed
  · cases passed
  rename_i _ authorized
  split at passed
  · cases passed
  rename_i same
  refine ⟨not_not.mp authorized, fun compared => ?_⟩
  by_contra differs
  exact same ⟨compared, Or.inr (Or.inr differs)⟩

theorem onRun_pullSnapshot (inv : s.Told x) (before : s.Before x result) (exprs : Option (List Str)) :
    OnRun cfg x run role may (Site.Before x result) (pullSnapshot exprs x) s
      fun read s' => read.2 = some .authorized → s'.state x ≠ some .withheld := by
  have others : ∀ s s' : Site, s.Before x result → (reporting cfg x run).Rely run s s' → s'.Before x result :=
    fun s s' kept rely => kept.aside (rely rfl)
  refine Method.steady_tryCatch inv ?_ fun _ _ s' _ kept => Method.steady_pure others kept fun _ _ _ none => nomatch none
  refine onRun_http (fun s s' kept moved => kept.aside moved)
    (fun _ _ _ _ _ told moved read withheld => told read (moved.withheld withheld)) inv before fun s inv before => ?_
  refine Method.steady_bind inv (onRun_before ((sends_snapshotDocument exprs).imp fun _ plain => plain.routine) before)
    fun doc _ s₁ inv₁ before₁ _ => ?_
  refine Method.steady_bind inv₁ (P := fun found _ s' => Option.map IntentRecord.state found = some .authorized →
    s'.state x ≠ some .withheld) (onRun_aside (fun s s' kept moved => kept.aside moved) before₁ (fun s' _ _ => .refl x s')
    fun s' _ _ s'' moved read withheld => ?_) fun found _ s₂ _ before₂ told => ?_
  · have now := moved.withheld withheld
    have state : s'.state x = some .authorized := read
    rw [show (Site.exec cfg (.recordOf x) s').2.state x = s'.state x from rfl, state] at now
    cases now
  · exact Method.steady_pure others before₂ fun s' rely _ read withheld => told read ((rely rfl).withheld withheld)

section

variable {q : GatewayQuery}

variable {actuator : Actuator} (noStop : result.actionClass ≠ .stop)
  (faultless : ∀ c s fate, may c s fate → ¬s.Stop x → Unraised actuator s fate c)

include noStop faultless

/-- One command of a call: it is done. -/
theorem runs_called {c : SiteCommand} (calls : c.Calls) (done : ∀ s fate, Unraised actuator s fate c → fate = .done)
    (reads : s.Reads x result) {P : c.Reply → Prop} (replied : ∀ s', Unraised actuator s' .done c → P (Site.exec cfg c s').1) :
    Method.Runs (reporting cfg x run) run role may (step c) () s (fun reply _ s' => s'.Reads x result ∧ P reply)
      fun _ _ _ => False := by
  have running : ∀ s' : Site, s.Aside x s' → ¬s'.Stop x := fun s' moved => (reads.aside moved).running noStop
  have moved : ∀ s' : Site, s'.Aside x (Site.exec cfg c s').2 := fun s' => aside_exec (calls.untouched (x := x) (s := s'))
  refine Method.runs_sent (fun s' fate rely inv' _ => ⟨inv'.aside (moved s'), fun ne => absurd rfl ne⟩)
    (fun s' rely _ allowed s'' rely' _ => ⟨?_, ?_⟩) fun s' fate rely _ allowed failed s'' _ _ _ => ?_
  · exact ((reads.aside (rely rfl)).aside (moved s')).aside (rely' rfl)
  · exact replied s' (faultless c s' .done allowed (running s' (rely rfl)))
  · exact failed (done s' fate (faultless c s' fate allowed (running s' (rely rfl))))

/-- A call that does what it is asked to does not raise. -/
theorem runs_callActuator (inv : s.Told x) (reads : s.Reads x result) {witness : Option Json} (accepts : actuator.Accepts witness)
    (deadlineMs : ℚ) :
    Method.Runs (reporting cfg x run) run role may (callActuator ticket x actuator witness deadlineMs) () s
      (fun _ _ s' => s'.Reads x result) fun _ _ _ => False := by
  have others : ∀ s s' : Site, s.Reads x result → (reporting cfg x run).Rely run s s' → s'.Reads x result :=
    fun s s' kept rely => kept.aside (rely rfl)
  have finished : ∀ {s : Site} (out : Option Str × Bool), s.Reads x result → Method.Runs (reporting cfg x run) run role may
      (pure out : Handler cfg (Option Str × Bool)) () s (fun _ _ s' => s'.Reads x result) fun _ _ _ => False :=
    fun out reads => Method.runs_pure fun s' rely _ => others _ _ reads rely
  cases actuator with
  | middleware =>
    exact Method.runs_bind inv ((runs_called noStop faultless (c := .publish) trivial (fun _ _ done => done) reads
      (P := fun _ => True) fun _ _ => trivial).imp (fun ros _ s₁ _ ends _ => finished _ ends.1) fun _ _ _ _ h => h)
  | plc method =>
    have texts := fun (actuated : Method.Runs (reporting cfg x run) run role may
        (actuateCell ticket x method witness deadlineMs : Handler cfg Str) () s (fun _ _ s' => s'.Reads x result) fun _ _ _ => False) =>
      Method.runs_bind (f := fun text => (pure (some text, false) : Handler cfg (Option Str × Bool))) inv
        (actuated.imp (fun text _ s₁ _ reads₁ _ => finished (some text, false) reads₁) fun _ _ _ _ h => h)
    refine texts ?_
    unfold actuateCell
    cases made : cellCommand ticket x method witness deadlineMs with
    | error e =>
      cases method with
      | plain => cases made
      | predicate => cases made
      | conditional =>
        have converts : (witnessVersion witness).isOk = true := accepts rfl
        simp only [cellCommand] at made
        cases version : witnessVersion witness with
        | ok v => rw [version] at made; cases made
        | error e => rw [version] at converts; cases converts
    | ok command =>
      simp only
      refine Method.runs_bind inv ((runs_called noStop faultless (c := .actuateCell ticket command) trivial (fun _ _ done => done)
        reads (P := fun _ => True) fun _ _ => trivial).imp (fun _ _ s₁ _ ends inv₁ => ?_) fun _ _ _ _ h => h)
      refine Method.runs_bind inv₁ ((runs_called noStop faultless (c := .cellAnswer ticket) trivial (fun _ _ done => done.1)
        ends.1 (P := fun reply => Option.isSome reply = true) fun s' done => ?_).imp (fun reply _ s₂ _ ends₂ _ => ?_)
        fun _ _ _ _ h => h)
      · exact (Option.isSome_map).trans done.2
      · cases reply with
        | none => cases ends₂.2
        | some answer => exact Method.runs_pure fun s' rely _ => others _ _ ends₂.1 rely
  | openplc method =>
    have texts := fun (actuated : Method.Runs (reporting cfg x run) run role may
        (actuatePlc method witness : Handler cfg Str) () s (fun _ _ s' => s'.Reads x result) fun _ _ _ => False) =>
      Method.runs_bind (f := fun text => (pure (some text, false) : Handler cfg (Option Str × Bool))) inv
        (actuated.imp (fun text _ s₁ _ reads₁ _ => finished (some text, false) reads₁) fun _ _ _ _ h => h)
    refine texts ?_
    have called : ∀ expected : Option Int, Method.Runs (reporting cfg x run) run role may
        (step (.plcCommand expected method) : Handler cfg Str) () s (fun _ _ s' => s'.Reads x result) fun _ _ _ => False :=
      fun expected => (runs_called noStop faultless (c := .plcCommand expected method) trivial (fun _ _ done => done) reads
        (P := fun _ => True) fun _ _ => trivial).imp (fun _ _ _ _ ends => ends.1) fun _ _ _ _ h => h
    unfold actuatePlc
    cases given : witness.filter fun v => decide (v ≠ .null) with
    | none => exact called none
    | some v =>
      have converts : (toInt v).isOk = true := by
        have all : (witness.filter fun v => decide (v ≠ .null)).all (fun v => (toInt v).isOk) = true := accepts
        rwa [given] at all
      simp only
      cases version : toInt v with
      | ok expected => exact called (some expected)
      | error e => rw [version] at converts; cases converts

/-- The call begins, with a witness that it takes. -/
theorem runs_startCall (before : s.Before x result) (kept : s.state x ≠ some .withheld) (witness : Option Json) :
    Method.Runs (reporting cfg x run) run role may (step (.startCall ticket x witness)) () s
      (fun _ _ s' => s'.Reads x result ∧ actuator.Accepts witness) fun _ _ _ => False := by
  have started : ∀ s' fate, s.Aside x s' → may (.startCall ticket x witness) s' fate → fate = .done ∧ actuator.Accepts witness :=
    fun s' fate moved allowed => faultless _ s' fate allowed ((before.reads.aside moved).running noStop)
  refine Method.runs_sent (fun s' fate rely inv' _ => ⟨told_startCall cfg inv' before kept (rely rfl) witness, fun ne => absurd rfl ne⟩)
    (fun s' rely _ allowed s'' rely' _ => ⟨?_, (started s' .done (rely rfl) allowed).2⟩)
    fun s' fate rely _ allowed failed s'' _ _ _ => failed (started s' fate (rely rfl) allowed).1
  have reads : Site.Reads x result (Site.exec cfg (.startCall ticket x witness) s').2 :=
    show s'.Reads x result from before.reads.aside (rely rfl)
  exact reads.aside (rely' rfl)

end

omit [PyText] in
/-- The versions that the optimistic branch reports. -/
theorem matches_gate {scope : VersionScope} {doc : SnapshotDoc}
    (same : scope ≠ .predicate → gateVersion result scope doc = result.version scope) :
    result.Matches (if scope = .global then some (gateVersion result scope doc) else none)
      (if scope = .readset then some (gateVersion result scope doc) else none) := by
  cases scope with
  | readset => exact ⟨fun v reported => (Option.some.inj reported).symm.trans (same (by decide)), fun none => nomatch none⟩
  | truth => exact result.matches_none
  | predicate => exact result.matches_none
  | «global» =>
    exact ⟨(fun _ reported => nomatch reported), fun _ v reported => (Option.some.inj reported).symm.trans (same (by decide))⟩

/-- What the optimistic branch has come to before it reports. -/
def Release.Gated (x : Str) (result : SubmitAnswer) (scope : VersionScope) (doc : SnapshotDoc) (s : Site) : Release → Prop
  | .blocked _ => s.Before x result
  | .called _ _ _ => s.Reads x result ∧ (scope ≠ .predicate → gateVersion result scope doc = result.version scope)

section

variable {q : GatewayQuery} (noStop : result.actionClass ≠ .stop)
  (faultless : ∀ c s fate, may c s fate → ¬s.Stop x → Unraised q.actuator s fate c)

include noStop faultless

theorem runs_checkAndCall (inv : s.Told x) (before : s.Before x result) (own : result.id = x) (i : ActionIntent) (doc : SnapshotDoc)
    (state : Option IntentState) (told : state = some .authorized → s.state x ≠ some .withheld) (timedOut : Nat → Nat → Bool) :
    Method.Runs (reporting cfg x run) run role may (checkAndCall ticket q i result doc state timedOut) () s
      (fun release _ s' => release.Gated x result q.scope doc s') fun _ _ s' => s'.Before x result := by
  subst own
  have others : ∀ s s' : Site, s.Before result.id result → (reporting cfg result.id run).Rely run s s' → s'.Before result.id result :=
    fun s s' kept rely => kept.aside (rely rfl)
  have timed : OnRun cfg result.id run role may (Site.Before result.id result) (step .time : Handler cfg ℚ) s
      fun _ s' => state = some .authorized → s'.state result.id ≠ some .withheld :=
    Method.steady_command others before (fun s' _ inv' kept _ => ⟨inv', fun ne => absurd rfl ne, kept⟩)
      fun s' rely _ _ _ s'' rely' _ yes withheld => told yes ((rely rfl).withheld ((rely' rfl).withheld withheld))
  refine Method.runs_bind inv (Method.Runs.imp timed (fun now _ s₁ _ ends inv₁ => ?_) fun _ _ _ _ kept => kept)
  obtain ⟨before₁, told₁⟩ := ends
  cases checked : gateCheck cfg result i q.scope doc state now timedOut with
  | error e => exact Method.runs_throw fun s' rely _ => others _ _ before₁ rely
  | ok out =>
    obtain ⟨passed, reason⟩ := out
    cases passed with
    | false => exact Method.runs_pure fun s' rely _ => others _ _ before₁ rely
    | true =>
      obtain ⟨authorized, same⟩ := gateCheck_ok checked
      refine Method.runs_bind inv₁ (Method.Runs.imp (runs_startCall noStop faultless before₁ (told₁ authorized) _)
        (fun _ _ s₂ _ ends inv₂ => ?_) fun _ _ _ _ never => never.elim)
      refine Method.runs_bind inv₂ (Method.Runs.imp (runs_callActuator noStop faultless inv₂ ends.1 ends.2 _)
        (fun out _ s₃ _ reads₃ _ => ?_) fun _ _ _ _ never => never.elim)
      exact Method.runs_pure fun s' rely _ => ⟨reads₃.aside (rely rfl), same⟩

theorem runs_releaseOptimistic (inv : s.Told x) (before : s.Before x result) (own : result.id = x) (i : ActionIntent)
    (timedOut : Nat → Nat → Bool) :
    Method.Runs (reporting cfg x run) run role may (releaseOptimistic ticket q i result timedOut) () s (fun _ _ _ => True)
      fun _ _ _ => True := by
  subst own
  refine Method.runs_bind inv (Method.Runs.imp (onRun_pullSnapshot inv before _) (fun read _ s₁ _ ends inv₁ => ?_)
    fun _ _ _ _ _ => trivial)
  obtain ⟨doc, state⟩ := read
  obtain ⟨before₁, told₁⟩ := ends
  have gated : Method.Runs (reporting cfg result.id run) run role may (tryCatch (checkAndCall ticket q i result doc state timedOut)
      fun _ => (pure (.blocked "publication_gate_error".toList) : Handler cfg Release)) () s₁
      (fun release _ s' => release.Gated result.id result q.scope doc s') fun _ _ _ => True :=
    Method.runs_tryCatch inv₁ (Method.Runs.imp (runs_checkAndCall noStop faultless inv₁ before₁ rfl i doc state told₁ timedOut)
      (fun _ _ _ _ ends => ends) fun _ _ s₂ _ before₂ _ => Method.runs_pure fun s' rely _ => before₂.aside (rely rfl))
  refine Method.runs_bind inv₁ (Method.Runs.imp gated (fun release _ s₂ _ ends inv₂ => ?_) fun _ _ _ _ _ => trivial)
  cases release with
  | blocked reason =>
    exact Method.runs_bind inv₂ (Method.Runs.imp (onRun_sendWithdrawn ticket reason _ _ inv₂ ends.notStarted)
      (fun _ _ _ _ _ _ => Method.runs_pure fun _ _ _ => trivial) fun _ _ _ _ _ => trivial)
  | called reason cellResult rosOk =>
    exact Method.runs_bind inv₂ (Method.Runs.imp (onRun_sendReleased inv₂ ends.1 (matches_gate ends.2) reason
      (effectOf cellResult rosOk)) (fun _ _ _ _ _ _ => Method.runs_pure fun _ _ _ => trivial) fun _ _ _ _ _ => trivial)

end

/-! ### The whole run -/

/-- The submission of a run, as it is answered. -/
theorem Course.leads_http {Role : Type} {D : Discipline (site cfg) Role} {t : Nat} {role : Role} {ticket : Nat} {id : Str}
    (C : Course D t role may ticket id) (inv : D.Inv s) {i : ActionIntent} (own : i.id = id) (timedOut : Nat → Nat → Bool) :
    C.Leads (http (submitIntent ticket (some i) timedOut)) s C.Answers := by
  refine C.leads_plain inv (sends_step (c := .send) trivial) fun _ s₁ inv₁ _ => ?_
  refine C.leads_bind inv₁ (C.leads_submitIntent inv₁ own timedOut) fun result s₂ inv₂ _ answers => ?_
  exact C.leads_plain inv₂ (sends_step (c := .send) trivial) fun _ s₃ _ kept =>
    C.leads_pure fun s' kept' => (answers.keeps _ kept).keeps _ kept'

/-- Nothing is known of `x` yet. -/
structure Site.Unseen (x : Str) (s : Site) : Prop where
  notStarted : ¬s.Started x
  unreported : ∀ report ∈ s.reports, report.id ≠ x
  notWithheld : s.state x ≠ some .withheld

omit [PyText] in
theorem Site.Unseen.submitted {s' : Site} (h : s.Unseen x) (moved : s.Submitted x s') : s'.Unseen x :=
  ⟨fun started => h.notStarted (moved.started started),
    fun report member own => h.unreported report (moved.reports report member own) own,
    fun withheld => h.notWithheld (moved.withheld withheld)⟩

variable (ticket) in
theorem runs_xairPolicy (inv : s.Told x) (unseen : s.Unseen x) (q : GatewayQuery) (body : ActionIntent) (own : body.id = x)
    (faultless : ∀ c s fate, may c s fate → q.atomic = false → ¬s.Stop x → Unraised q.actuator s fate c)
    (timedOut gateTimedOut : Nat → Nat → Bool) :
    Method.Runs (reporting cfg x run) run role may (xairPolicy ticket q body timedOut gateTimedOut) () s (fun _ _ _ => True)
      fun _ _ _ => True := by
  have submission := (reportCourse cfg x run role may ticket).leads_http inv own timedOut
  have submitted : Method.Runs (reporting cfg x run) run role may (tryCatch (do
      let result ← http (submitIntent ticket (some body) timedOut)
      return some result) fun _ => (pure none : Handler cfg (Option SubmitAnswer))) () s
      (fun found _ s' => ∀ result, found = some result → s.Submitted x s' ∧ (reportCourse cfg x run role may ticket).Answers result s')
      fun _ _ _ => True := by
    refine Method.runs_tryCatch inv (Method.runs_bind inv (Method.Runs.imp submission (fun result _ s₁ _ ends inv₁ => ?_)
      fun _ _ _ _ _ _ => Method.runs_pure fun _ _ _ result none => nomatch none))
    refine Method.runs_pure fun s' rely _ result' same => ?_
    obtain rfl := Option.some.inj same
    exact ⟨ends.1.trans (rely rfl).submitted, ends.2.keeps _ (rely rfl)⟩
  refine Method.runs_bind inv (Method.Runs.imp submitted (fun found _ s₁ _ ends inv₁ => ?_) fun _ _ _ _ _ => trivial)
  cases found with
  | none => exact Method.runs_pure fun _ _ _ => trivial
  | some result =>
    obtain ⟨moved, answers⟩ := ends result rfl
    refine Method.runs_ite (fun _ => Method.runs_pure fun _ _ _ => trivial) fun first => ?_
    refine Method.runs_ite (fun _ => Method.runs_pure fun _ _ _ => trivial) fun executes => ?_
    obtain ⟨context, record, payload, holds, rfl⟩ := (answers.resolve_left first).resolve_left executes
    obtain ⟨notStarted, unreported, notWithheld⟩ := unseen.submitted moved
    have before : s₁.Before x (submitAnswer x record false context payload) := by
      refine ⟨notStarted, unreported, fun r stored => ?_⟩
      obtain ⟨cls, contextVersion, readSetVersion⟩ := (holds : s₁.Holds x record).2 r stored
      exact ⟨cls, contextVersion, readSetVersion⟩
    refine Method.runs_ite (fun _ => ?_) fun noStop => Method.runs_ite (fun _ => ?_) fun optimistic => ?_
    · exact Method.Runs.imp (onRun_releaseStop inv₁ before notWithheld) (fun _ _ _ _ _ => trivial) fun _ _ _ _ _ => trivial
    · exact onRun_releaseAtomic inv₁ before rfl q _
    · exact runs_releaseOptimistic noStop (fun c s fate allowed => faultless c s fate allowed (by simpa using optimistic)) inv₁
        before rfl _ _

/-! ### Any number of jobs beside the run -/

/-- Only the run touches `x`, and in the optimistic branch its call does not raise. -/
def MayReport (x : Str) (run t : Nat) (job : DeploymentJob) (c : SiteCommand) (s : Site) (fate : Fate) : Prop :=
  OneRun x run t job c s ∧ (t = run → job.On x → Unharmed job c s fate)

instance (x : Str) (run t : Nat) (job : DeploymentJob) (c : SiteCommand) (s : Site) (fate : Fate) :
    Decidable (MayReport x run t job c s fate) :=
  inferInstanceAs (Decidable (_ ∧ (_ → _ → _)))

omit [PyText] in
theorem aside_apply (change : DeploymentChange) (s : Site) : s.Aside x (change.apply s) := by
  cases change with
  | announce =>
    simp only [DeploymentChange.apply, Site.announce]
    split <;> exact .of_same (Nat.le_refl _) (fun _ _ => rfl) rfl (fun h => h) fun _ h _ => h
  | _ => exact .of_same (Nat.le_refl _) (fun _ _ => rfl) rfl (fun h => h) fun _ h _ => h

def reportContract (cfg : SiteConfig) (x : Str) (run : Nat) : Contract (site cfg) (deployment cfg) (reporting cfg x run) where
  Starts _ := True
  May := MayReport x run
  LocalOk _ _ := True
  Fresh t s := t = run → s.Unseen x
  Since _ _ _ := True
  Post _ _ _ _ := True
  local_rely _ _ _ _ _ _ _ _ := trivial
  fresh_rely _ _ _ fresh rely own := (fresh own).submitted (rely own).submitted
  since_fresh _ _ _ _ := trivial
  since_step _ _ _ _ _ _ := trivial
  since_rely _ _ _ _ _ _ := trivial
  env_inv change s inv := inv.aside (aside_apply change s)
  env_rely change _ s _ _ := aside_apply change s

/-- Every job: the run is judged step by step, the others touch nothing of `x`. -/
theorem safe_job (inv : s.Told x) (t : Nat) (job : DeploymentJob) (fresh : t = run → s.Unseen x) :
    Safe (reporting cfg x run) t job (MayReport x run t job) ((job.handle cfg t).program ()) s fun _ _ => True := by
  by_cases its : t = run ∧ job.On x
  · obtain ⟨rfl, on⟩ := its
    cases job with
    | request request => exact on.elim
    | gateway q body timedOut gateTimedOut =>
      have faultless : ∀ c s fate, MayReport x t t (.gateway q body timedOut gateTimedOut) c s fate → q.atomic = false →
          ¬s.Stop x → Unraised q.actuator s fate c := by
        intro c s fate allowed optimistic running
        have own : body.id = x := on
        exact allowed.2 rfl on optimistic (own ▸ running)
      have judged : Method.Runs (reporting cfg x t) t (.gateway q body timedOut gateTimedOut) (MayReport x t t _)
          ((DeploymentJob.gateway q body timedOut gateTimedOut).handle cfg t) () s (fun _ _ _ => True) fun _ _ _ => True :=
        Method.runs_bind inv (Method.Runs.imp (runs_xairPolicy t inv (fresh rfl) q body on faultless
          timedOut gateTimedOut) (fun _ _ _ _ _ _ => Method.runs_pure fun _ _ _ => trivial) fun _ _ _ _ _ => trivial)
      exact Safe.imp judged fun _ _ _ _ => trivial
  · refine Safe.of_sends (fun c s fate _ inv allowed => ?_) (Prog.sends_of_forall (fun _ => trivial) _)
    have moved : s.Aside x (Site.exec cfg c s).2 := aside_exec fun touches => its (allowed.1 touches)
    exact ⟨inv.aside moved, fun _ => moved⟩

/-- One gateway run on an intent among any number of other jobs, whatever is lost or fails: as long as its calls in the
optimistic branch do not raise, a started call is reported as released with an effect, and never ends `WITHHELD`. -/
theorem reports_truthful (cfg : SiteConfig) (x : Str) (run : Nat) (heap : Ref → ActionIntent) (context : Members) (policy : Policy)
    (cell : Cell) {events : List (PoolEvent (site cfg) (deployment cfg))}
    (along : Pool.Along (Pool.Allows fun t job c s fate => MayReport x run t job c s fate)
      (Pool.init (Site.init heap context policy cell) fun _ => ()) events) :
    (Pool.run (Pool.init (Site.init heap context policy cell) fun _ => ()) events).shared.Truthful x := by
  have unseen : (Site.init heap context policy cell).Unseen x :=
    ⟨(fun ⟨_, started⟩ => nomatch started), (fun _ member => nomatch member), fun withheld => nomatch withheld⟩
  have inv : (Site.init heap context policy cell).Told x :=
    ⟨(fun _ stored => nomatch stored), fun started => absurd started unseen.notStarted⟩
  have start : Pool.Sound (reportContract cfg x run) (Pool.init (Site.init heap context policy cell) fun _ => ()) :=
    Pool.sound_init inv (fun _ => trivial) fun _ _ => unseen
  refine (start.run (fun t job l s _ inv _ fresh => ?_) (along.imp fun e _ P allows => ?_)).inv.truthful
  · exact Safe.imp (safe_job inv t job fresh) fun _ _ _ _ => ⟨trivial, trivial⟩
  · cases e with
    | start pid job => trivial
    | step pid fate => exact fun t job c next busy => allows.command busy
    | env change => trivial

end

end

/-! ### A lost answer -/

def reportConfig : SiteConfig := ⟨plainConfig, .document, 3600, false, 1, fun _ => 0, true⟩

abbrev ReportEvent := PoolEvent (@site PyText.ascii reportConfig) (@deployment PyText.ascii reportConfig)

def reportStart : @Pool (@site PyText.ascii reportConfig) (@deployment PyText.ascii reportConfig) :=
  Pool.init (Site.init (fun _ => plainIntent "" "") .nil .empty (.boot none 0)) fun _ => ()

/-- An optimistic run that resumes the line unconditionally. -/
def optimisticRun : DeploymentJob :=
  .gateway ⟨false, .readset, .plc .plain, false, 0, .done⟩ (plainIntent "a" "cell") (fun _ _ => false) fun _ _ => false

/-- The run to the command, a scan, what becomes of the answer, and the rest of the run. -/
def scannedRun (answer : Fate) : List ReportEvent :=
  .start 0 optimisticRun :: List.replicate 22 (.step 0 .done) ++ [.env .scan, .step 0 answer] ++ List.replicate 7 (.step 0 .done)

theorem reports_truthful_scannedRun : (reportStart.run (scannedRun .done)).shared.Truthful "a".toList :=
  @reports_truthful PyText.ascii reportConfig "a".toList 0 (fun _ => plainIntent "" "") .nil .empty (.boot none 0)
    (scannedRun .done) (by decide +kernel)

/-- The controller has executed the command, its answer is lost, and the run reports that nothing was released. -/
theorem answerLost_untruthful : ¬∀ events : List ReportEvent,
    Pool.Along (Pool.Allows fun t job c s _ => OneRun "a".toList 0 t job c s) reportStart events →
      (reportStart.run events).shared.Truthful "a".toList := by
  intro claim
  have truthful := claim (scannedRun .refused) (by decide +kernel) ⟨0, by decide +kernel⟩
  exact truthful.2 (by decide +kernel)

end Xair
