import Xair.Runtime.Runs

/-!
# Target locks

The lock set is a bare set of target names. It protects an authorized intent only
as long as nothing frees a target on behalf of an intent that does not hold it.
-/

namespace Xair

open Library

/-- The intent is authorized, is not a stop, and acts on this target. -/
def Holds (rt : Runtime) (id target : Str) : Prop :=
  ∃ record, rt.records.get id = some record ∧ record.state = .authorized ∧ record.actionClass ≠ .stop ∧
    (rt.heap record.intent).target = target

theorem holds_iff {rt : Runtime} {id target : Str} : Holds rt id target ↔
    (rt.records.get id).any (fun record => decide (record.state = .authorized ∧ record.actionClass ≠ .stop ∧
      (rt.heap record.intent).target = target)) = true := by
  rw [Option.any_eq_true]
  simp only [decide_eq_true_eq]
  rfl

instance (rt : Runtime) (id target : Str) : Decidable (Holds rt id target) := decidable_of_iff _ holds_iff.symm

/-- Every holder's target is locked, and a target has one holder at most. -/
structure TargetLock (rt : Runtime) : Prop where
  locked : ∀ id target, Holds rt id target → target ∈ rt.activeTargets
  single : ∀ id id' target, Holds rt id target → Holds rt id' target → id = id'

/-- The report frees the target of an intent that does not hold it. -/
def FreesUnheld (id : Str) (record : IntentRecord) : Operation → Prop
  | .recordCommit id' _ _ _ => id' = id ∧ record.state = .authorized ∧ record.actionClass = .stop
  | .reportRelease id' _ _ _ _ => id' = id ∧ record.releaseDecision = none ∧
      (record.state = .authorized ∧ record.actionClass = .stop ∨ record.state = .committed)
  | .supervisoryRevoke id' _ => id' = id ∧ IntentState.revoked ∈ record.state.allowed ∧
      ¬(record.state = .authorized ∧ record.actionClass ≠ .stop)
  | _ => False

/-- No other intent holds the target such a report frees. -/
def KeepsLocks (op : Operation) (rt : Runtime) : Prop :=
  ∀ id record, rt.records.get id = some record → FreesUnheld id record op →
    ∀ other, ¬Holds rt other (rt.heap record.intent).target

namespace TargetLock

variable {rt rt' : Runtime}

/-- Holders may go while the locks stay. -/
theorem of_fewer (h : TargetLock rt) (holders : ∀ id target, Holds rt' id target → Holds rt id target)
    (locks : rt'.activeTargets = rt.activeTargets) : TargetLock rt' :=
  ⟨fun id target held => by rw [locks]; exact h.locked id target (holders id target held),
    fun id id' target held held' => h.single id id' target (holders id target held) (holders id' target held')⟩

/-- A target without holders may be freed. -/
theorem of_release (h : TargetLock rt) {freed : Str} (holders : ∀ id target, Holds rt' id target → Holds rt id target)
    (none : ∀ id, ¬Holds rt' id freed) (locks : rt'.activeTargets = (rt.release freed).activeTargets) : TargetLock rt' := by
  refine ⟨fun id target held => ?_,
    fun id id' target held held' => h.single id id' target (holders id target held) (holders id' target held')⟩
  rw [locks, Runtime.mem_release]
  refine ⟨?_, h.locked id target (holders id target held)⟩
  rintro rfl
  exact none id held

/-- A free target may get one holder. -/
theorem of_acquire (h : TargetLock rt) (id : Str) {acquired : Str} (free : acquired ∉ rt.activeTargets)
    (holders : ∀ other target, Holds rt' other target → Holds rt other target ∨ other = id ∧ target = acquired)
    (locks : rt'.activeTargets = (rt.acquire acquired).activeTargets) : TargetLock rt' := by
  have unheld : ∀ other, ¬Holds rt other acquired := fun other held => free (h.locked other acquired held)
  refine ⟨fun other target held => ?_, fun other other' target held held' => ?_⟩
  · rw [locks, Runtime.mem_acquire]
    rcases holders other target held with before | ⟨_, rfl⟩
    · exact Or.inr (h.locked other target before)
    · exact Or.inl rfl
  · rcases holders other target held with before | ⟨rfl, rfl⟩
    · rcases holders other' target held' with before' | ⟨rfl, rfl⟩
      · exact h.single other other' target before before'
      · exact absurd before (unheld other)
    · rcases holders other' target held' with before' | ⟨rfl, _⟩
      · exact absurd before' (unheld other')
      · rfl

end TargetLock

theorem targetLock_init (heap : Ref → ActionIntent) (context : Members) (policy : Policy) :
    TargetLock (Runtime.init heap context policy) := by
  refine ⟨?_, ?_⟩
  · rintro id target ⟨record, stored, _⟩
    cases stored
  · rintro id id' target ⟨record, stored, _⟩
    cases stored

/-! ### What happens to holders -/

theorem Local.holds_other {rt rt' : Runtime} {id other target : Str} (alone : Local id rt rt') (ne : other ≠ id)
    (held : Holds rt' other target) : Holds rt other target := by
  obtain ⟨record, stored, state, cls, same⟩ := held
  exact ⟨record, by rw [← alone.others other ne]; exact stored, state, cls, by rw [← same, alone.targets]⟩

/-- A record that is not authorized holds nothing. -/
theorem Local.holds_of_not_authorized {rt rt' : Runtime} {id : Str} {record : IntentRecord} (alone : Local id rt rt')
    (stored : rt'.records.get id = some record) (state : record.state ≠ .authorized ∨ record.actionClass = .stop)
    {other target : Str} (held : Holds rt' other target) : other ≠ id ∧ Holds rt other target := by
  have ne : other ≠ id := by
    rintro rfl
    obtain ⟨record', present, authorized, cls, _⟩ := held
    obtain rfl := Option.some.inj (stored.symm.trans present)
    rcases state with state | stop
    · exact state authorized
    · exact cls stop
  exact ⟨ne, alone.holds_other ne held⟩

theorem Noted.holds {rt rt' : Runtime} (h : Noted rt rt') {id target : Str} (held : Holds rt' id target) :
    Holds rt id target := by
  obtain ⟨record, stored, rest⟩ := held
  exact ⟨record, by rw [← h.records]; exact stored, by rw [← h.heap]; exact rest⟩

theorem Noted.targetLock {rt rt' : Runtime} (noted : Noted rt rt') (h : TargetLock rt) : TargetLock rt' :=
  h.of_fewer (fun _ _ => noted.holds) noted.locks

/-- A report of a holder frees its own lock only. -/
theorem Settled.targetLock {rt rt' : Runtime} {id : Str} {record a : IntentRecord} {state : IntentState}
    (settled : Settled id rt record state a rt') (h : TargetLock rt) (left : state ≠ .authorized)
    (own : (record.state = .authorized ∧ record.actionClass ≠ .stop) ∨
      ∀ other, ¬Holds rt other (rt.heap record.intent).target)
    (locks : rt'.activeTargets = (rt.release (rt.heap record.intent).target).activeTargets) : TargetLock rt' := by
  have gone : ∀ {other target}, Holds rt' other target → other ≠ id ∧ Holds rt other target := fun held =>
    settled.alone.holds_of_not_authorized settled.stored (Or.inl (settled.reached ▸ left)) held
  refine h.of_release (fun other target held => (gone held).2) (fun other held => ?_) locks
  obtain ⟨ne, before⟩ := gone held
  rcases own with ⟨authorized, notStop⟩ | none
  · exact ne (h.single other id _ before ⟨record, settled.found, authorized, notStop, rfl⟩)
  · exact none other before

/-! ### Every operation that keeps locks keeps the invariant -/

section

variable [PyText]

theorem targetLock_verdict {call : ProcessCall} {rt rt' : Runtime} {ref : Ref} {a : IntentRecord} (h : TargetLock rt)
    (alone : Local (rt.heap ref).id rt rt') (verdict : Verdict call rt ref a rt') : TargetLock rt' := by
  cases verdict with
  | kept _ _ same => rw [same]; exact h
  | stopped _ stored _ cls _ locks =>
    exact h.of_fewer (fun _ _ held => (alone.holds_of_not_authorized stored (Or.inr cls) held).2) locks
  | refused _ stored state _ locks =>
    refine h.of_fewer (fun _ _ held => (alone.holds_of_not_authorized stored (Or.inl ?_) held).2) locks
    rcases state with state | state | state | state <;> rw [state] <;> decide
  | authorized _ stored granted locks =>
    refine h.of_acquire (rt.heap ref).id granted.free (fun other target held => ?_) locks
    by_cases same : other = (rt.heap ref).id
    · obtain ⟨record, present, _, _, rfl⟩ := held
      subst same
      obtain rfl := Option.some.inj (stored.symm.trans present)
      exact Or.inr ⟨rfl, by rw [granted.intent, alone.targets]⟩
    · exact Or.inl (alone.holds_other same held)

theorem targetLock_processIntent (cfg : Config) (call : ProcessCall) {rt : Runtime} (ref : Ref) (h : TargetLock rt) :
    Ends (processIntent cfg call ref) rt (fun _ => TargetLock) fun _ => TargetLock := by
  refine (ends_processIntent cfg call rt ref).imp ?_ ?_
  · rintro a rt' ⟨alone, verdict⟩
    exact targetLock_verdict h alone verdict
  · rintro _ rt' ⟨alone, _, ⟨record, stored, state⟩, locks⟩
    refine h.of_fewer (fun _ _ held => (alone.holds_of_not_authorized stored (Or.inl ?_) held).2) locks
    rw [state]; decide

/-- One operation. -/
theorem targetLock_exec (cfg : Config) (op : Operation) (rt : Runtime) (h : TargetLock rt) (keeps : KeepsLocks op rt) :
    TargetLock (op.exec cfg rt) := by
  cases op with
  | admitIntent ref mono enqueue =>
    refine Ends.finalState ((ends_admitIntent cfg ref mono enqueue rt).imp ?_ fun _ _ h => h.elim)
    rintro a rt' ⟨admission, _⟩
    refine h.of_fewer (fun id target held => ?_) admission.locks
    obtain ⟨record, stored, state, cls, same⟩ := held
    rcases admission.records id record stored with before | ⟨_, rfl⟩
    · exact ⟨record, before, state, cls, by rw [← same, admission.heap]⟩
    · cases state
  | processIntent call ref => exact (targetLock_processIntent cfg call ref h).finalState
  | processNext call =>
    refine Ends.finalState ?_
    rw [processNext, ends_bind, ends_get]
    cases rt.queue with
    | nil => exact ends_pure.mpr h
    | cons q rest =>
      simp only
      rw [ends_bind, ends_set, ends_bind]
      exact targetLock_processIntent cfg _ q.intent (h.of_fewer (fun _ _ held => held) rfl)
  | recordCommit id committed reason seq =>
    refine Ends.finalState ((ends_recordCommit rt id committed reason seq).imp ?_ fun _ _ noted => noted.targetLock h)
    rintro a rt' (⟨rfl, _⟩ | ⟨record, authorized, settled, locks⟩)
    · exact h
    · refine settled.targetLock h (by cases committed <;> decide) ?_ locks
      by_cases stop : record.actionClass = .stop
      · exact Or.inr (keeps id record settled.found ⟨rfl, authorized, stop⟩)
      · exact Or.inl ⟨authorized, stop⟩
  | reportRelease id released reason cv rv =>
    refine Ends.finalState ((ends_reportRelease cfg rt id released reason cv rv).imp ?_ fun _ _ noted => noted.targetLock h)
    rintro a rt' (⟨rfl, _⟩ | ⟨record, state, open_, undecided, target, settled, _, locks⟩)
    · exact h
    · refine settled.targetLock h (by rcases target with ⟨_, rfl⟩ | ⟨_, _, rfl⟩ <;> decide) ?_ locks
      rcases open_ with authorized | committed
      · by_cases stop : record.actionClass = .stop
        · exact Or.inr (keeps id record settled.found ⟨rfl, undecided, Or.inl ⟨authorized, stop⟩⟩)
        · exact Or.inl ⟨authorized, stop⟩
      · exact Or.inr (keeps id record settled.found ⟨rfl, undecided, Or.inr committed⟩)
  | reportEffect id status detail =>
    refine Ends.finalState ((ends_reportEffect rt id status detail).imp ?_ fun _ _ noted => noted.targetLock h)
    rintro a rt' (⟨rfl, _⟩ | ⟨record, settled, locks⟩)
    · exact h
    · refine h.of_fewer (fun _ _ held =>
        (settled.alone.holds_of_not_authorized settled.stored (Or.inl ?_) held).2) locks
      rw [settled.reached]
      cases status <;> decide
  | supervisoryRevoke id reason =>
    refine Ends.finalState ((ends_supervisoryRevoke rt id reason).imp ?_ ?_)
    · rintro a rt' ⟨record, settled, locks⟩
      refine settled.targetLock h (by decide) ?_ locks
      by_cases holder : record.state = .authorized ∧ record.actionClass ≠ .stop
      · exact Or.inl holder
      · exact Or.inr (keeps id record settled.found ⟨rfl, settled.allowed, holder⟩)
    · rintro _ rt' ⟨rfl, _⟩
      exact h
  | setPolicy policy => exact h.of_fewer (fun _ _ held => held) rfl
  | installContext snapshot version =>
    rw [Operation.exec, installContextSnapshot]
    split
    · exact h
    · exact h.of_fewer (fun _ _ held => held) rfl
  | setPreconditions ref preconditions =>
    have alone : Local (rt.heap ref).id rt (rt.putIntent ref { rt.heap ref with preconditions := preconditions }) :=
      (Local.refl _ _).putIntent rfl rfl rfl
    refine h.of_fewer (fun id target held => ?_) rfl
    obtain ⟨record, stored, state, cls, same⟩ := held
    exact ⟨record, stored, state, cls, by rw [← same]; exact (alone.targets record.intent).symm⟩

/-- In a run that frees no target held by another intent, every target has at most one holder, whose
target stays locked. -/
theorem targetLock_runAll (cfg : Config) (heap : Ref → ActionIntent) (context : Members) (policy : Policy)
    (ops : List Operation) (keeps : Along cfg KeepsLocks ops (.init heap context policy)) :
    TargetLock (runAll cfg ops (.init heap context policy)) :=
  runAll_preserves (targetLock_exec cfg) (targetLock_init heap context policy) keeps

end

/-! ### Runs -/

/-- An intent without predicates, decided at time 0. -/
def plainIntent (id target : String) : ActionIntent where
  id := id.toList
  source := "xr".toList
  timestampDecision := 0
  freshnessWindowMs := 1000
  payload := ⟨"MOVE".toList, target.toList, .nil, .none⟩
  deadlineMs := none
  preconditions := []
  safetyConstraints := []
  priority := 0
  policyAdded := none

/-- A validation pass at time 0 on the installed context. -/
def plainCall : ProcessCall := ⟨0, fun _ => false, none, none, none, none, false⟩

def plainConfig : Config := ⟨1000, 0, 3600, false⟩

def threeIntents : Ref → ActionIntent
  | 0 => plainIntent "a" "cell"
  | 1 => plainIntent "b" "cell"
  | _ => plainIntent "c" "cell"

def plainRuntime (heap : Ref → ActionIntent) : Runtime := .init heap .nil .empty

/-- `a` commits and lets go of its target before `b` is validated. -/
def committedFirst : List Operation :=
  [.admitIntent 0 0 false, .processIntent plainCall 0, .recordCommit "a".toList true [] (some 1), .admitIntent 1 0 false,
    .processIntent plainCall 1]

theorem targetLock_committedFirst :
    TargetLock (@runAll PyText.ascii plainConfig committedFirst (plainRuntime threeIntents)) := by
  refine @targetLock_runAll PyText.ascii plainConfig threeIntents .nil .empty committedFirst ⟨?_, ?_, ?_, ?_, ?_, trivial⟩
  case refine_3 =>
    rintro id record stored ⟨rfl, _, stop⟩
    have cls : ((@runAll PyText.ascii plainConfig (committedFirst.take 2) (plainRuntime threeIntents)).records.get
        "a".toList).map IntentRecord.actionClass = some .other := by decide +kernel
    rw [show (@runAll PyText.ascii plainConfig (committedFirst.take 2) (plainRuntime threeIntents)).records.get
      "a".toList = some record from stored, Option.map_some, stop] at cls
    cases cls
  all_goals exact fun _ _ _ frees => frees.elim

/-- `b` is delayed by `a` and revoked; `c` then finds the target free. -/
def revokedWaiter : List Operation :=
  [.admitIntent 0 0 false, .processIntent plainCall 0, .admitIntent 1 0 false, .processIntent plainCall 1,
    .supervisoryRevoke "b".toList [], .admitIntent 2 0 false, .processIntent plainCall 2]

theorem revokedWaiter_two_holders :
    ¬∀ (ops : List Operation) (id id' target : Str),
      Holds (@runAll PyText.ascii plainConfig ops (plainRuntime threeIntents)) id target →
        Holds (@runAll PyText.ascii plainConfig ops (plainRuntime threeIntents)) id' target → id = id' := by
  intro single
  have same := single revokedWaiter "a".toList "c".toList "cell".toList (by decide +kernel) (by decide +kernel)
  revert same
  decide

end Xair
