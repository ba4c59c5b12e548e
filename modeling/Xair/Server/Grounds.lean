import Xair.Library.Moves
import Xair.Server.Fence
import Xair.Server.Naming
import Xair.Server.Tombstones
import Xair.Store.Registry

/-!
# What an authorization stands on

Every entry of the actuation log that authorizes goes back to a validation pass, and what
the pass evaluated has been true at every version of the context from the pass to the commit.
-/

namespace Xair

open Library

/-! ### Versions -/

/-- An update moves the version of a read-set to the present, or leaves it. -/
theorem Snapshot.Bounded.readSetVersion_cases {s : Snapshot} (bounded : s.Bounded) (patch : Members) (paths : List Str) :
    readSetVersion (s.merge patch).pathVersions paths = readSetVersion s.pathVersions paths ∨
      readSetVersion (s.merge patch).pathVersions paths = s.version + 1 := by
  by_cases touched : ∃ q ∈ changedPaths s.context patch, ∃ r ∈ paths, related q r = true
  · right
    obtain ⟨q, changed, r, member, rel⟩ := touched
    have stored : (s.merge patch).pathVersions.get q = some (s.version + 1) := by
      rw [Snapshot.get_merge_pathVersions, if_pos changed]
    exact Nat.le_antisymm ((bounded.merge patch).readSetVersion_le paths) (le_readSetVersion stored member rel)
  · left
    refine Nat.le_antisymm (readSetVersion_le_iff.mpr fun p v stored ⟨r, member, rel⟩ => ?_) (bounded.readSetVersion_mono patch paths)
    rw [Snapshot.get_merge_pathVersions] at stored
    split at stored
    · rename_i changed
      exact absurd ⟨p, changed, r, member, rel⟩ touched
    · exact le_readSetVersion stored member rel

/-- A read-set that has not moved since a version has the same version there. -/
theorem readSetVersion_eq_of_le {patches : List Members} {paths : List Str} {n c : Nat} (before : n ≤ c) (bound : c ≤ patches.length)
    (unmoved : readSetVersion (atVersion patches c).pathVersions paths ≤ n) :
    readSetVersion (atVersion patches n).pathVersions paths = readSetVersion (atVersion patches c).pathVersions paths := by
  induction c, before using Nat.le_induction with
  | base => rfl
  | succ c after ih =>
    have step := atVersion_succ (show c < patches.length by omega)
    have version := atVersion_version (show c ≤ patches.length by omega)
    rw [step] at unmoved ⊢
    have cases := Snapshot.Bounded.readSetVersion_cases (s := atVersion patches c) (history_bounded _) patches[c] paths
    rw [version] at cases
    have same : readSetVersion ((atVersion patches c).merge patches[c]).pathVersions paths =
        readSetVersion (atVersion patches c).pathVersions paths := by
      rcases cases with same | now
      · exact same
      · omega
    rw [same] at unmoved ⊢
    exact ih (by omega) unmoved

section

variable [PyText]

/-! ### What is true of a part of a snapshot -/

theorem Snapshot.RestrictsTo.truth {whole part : Snapshot} {reads : Str → Prop} (h : whole.RestrictsTo reads part) {expr : Str}
    (holds : truth expr part.context = .ok true) : Xair.truth expr whole.context = .ok true := by
  by_cases unread : Unread reads whole.context expr
  · rw [Xair.truth, h.partOf.check_unread unread] at holds
    cases holds
  · rw [Xair.truth, h.partOf.check_eq unread] at holds
    exact holds

/-- What is true of this context was true at a version of the store that is not before `version`. -/
def Members.Shown (context : Members) (patches : List Members) (version : Nat) : Prop :=
  ∃ w, version ≤ w ∧ w ≤ patches.length ∧ ∀ expr, truth expr context = .ok true → truth expr (atVersion patches w).context = .ok true

theorem Members.Shown.grows {context : Members} {patches later : List Members} {version : Nat} (h : context.Shown patches version)
    (grown : patches <+: later) : context.Shown later version := by
  obtain ⟨w, after, bound, holds⟩ := h
  obtain ⟨more, rfl⟩ := grown
  refine ⟨w, after, by rw [List.length_append]; omega, fun expr truths => ?_⟩
  rw [atVersion_append bound]
  exact holds expr truths

/-- A snapshot that the store has returned: the part of one version under some roots. -/
def Snapshot.Of (part : Snapshot) (patches : List Members) : Prop :=
  part.version ≤ patches.length ∧ ∃ reads, (atVersion patches part.version).RestrictsTo reads part

section

variable {part : Snapshot} {patches later : List Members}

omit [PyText] in
theorem Snapshot.Of.grows (h : part.Of patches) (grown : patches <+: later) : part.Of later := by
  obtain ⟨bound, reads, restricts⟩ := h
  obtain ⟨more, rfl⟩ := grown
  exact ⟨by rw [List.length_append]; omega, reads, by rw [atVersion_append bound]; exact restricts⟩

omit [PyText] in
theorem Snapshot.Of.bounded (h : part.Of patches) : part.Bounded := by
  obtain ⟨bound, reads, restricts⟩ := h
  intro p v stored
  by_cases read : reads (rootOf p)
  · rw [restricts.version]
    rw [restricts.pathVersions p read] at stored
    exact history_bounded _ p v stored
  · rw [restricts.pathsOutside p read] at stored
    cases stored

theorem Snapshot.Of.shown (h : part.Of patches) : part.context.Shown patches part.version := by
  obtain ⟨bound, reads, restricts⟩ := h
  exact ⟨part.version, Nat.le_refl _, bound, fun expr => restricts.truth⟩

end

/-- A document of the store: its snapshot, and predicate versions of the past. -/
structure SnapshotDoc.Of (doc : SnapshotDoc) (patches : List Members) : Prop where
  snapshot : doc.snapshot.Of patches
  preds : ∀ expr entry, doc.preds.get expr = some entry → entry.version ≤ doc.snapshot.version

omit [PyText] in
theorem SnapshotDoc.Of.grows {doc : SnapshotDoc} {patches later : List Members} (h : doc.Of patches) (grown : patches <+: later) :
    doc.Of later :=
  ⟨h.snapshot.grows grown, h.preds⟩

/-- What a validation pass is given: all from one snapshot, or nothing at all. -/
structure ProcessCall.Rests (call : ProcessCall) (patches : List Members) : Prop where
  bare : call.context = none → call.contextVersion = none ∧ call.pathVersions = none ∧ call.predicateVersions = none
  context : ∀ context, call.context = some context → ∃ v, call.contextVersion = some v ∧ context.Shown patches v
  paths : ∀ pathVersions, call.pathVersions = some pathVersions → ∃ v, call.contextVersion = some v ∧
    ∀ paths, readSetVersion pathVersions paths ≤ v
  preds : ∀ preds, call.predicateVersions = some preds → ∃ v, call.contextVersion = some v ∧
    ∀ expr entry, preds.get expr = some entry → entry.version ≤ v

theorem rests_installedCall (timedOut : Nat → Bool) (patches : List Members) : (installedCall timedOut).Rests patches :=
  ⟨fun _ => ⟨rfl, rfl, rfl⟩, fun _ none => (nomatch none), fun _ none => (nomatch none), fun _ none => (nomatch none)⟩

theorem SnapshotDoc.Of.rests {doc : SnapshotDoc} {patches : List Members} (h : doc.Of patches) (timedOut : Nat → Bool) :
    (snapshotCall doc timedOut).Rests patches := by
  refine ⟨(fun none => nomatch none), fun context same => ?_, fun pathVersions same => ?_, fun preds same => ?_⟩
  · obtain rfl := Option.some.inj same
    exact ⟨_, rfl, h.snapshot.shown⟩
  · obtain rfl := Option.some.inj same
    exact ⟨_, rfl, h.snapshot.bounded.readSetVersion_le⟩
  · obtain rfl := Option.some.inj same
    exact ⟨_, rfl, h.preds⟩

theorem Snapshot.Of.rests {snapshot : Snapshot} {patches : List Members} (h : snapshot.Of patches) (timedOut : Nat → Bool) :
    (contextCall snapshot timedOut).Rests patches := by
  refine ⟨(fun none => nomatch none), fun context same => ?_, (fun _ none => nomatch none), fun _ none => nomatch none⟩
  obtain rfl := Option.some.inj same
  exact ⟨_, rfl, h.shown⟩

/-! ### A pass that authorizes -/

/-- The record is one that this pass has authorized. -/
inductive Authorization.Backs (a : Authorization) (r : IntentRecord) : Prop
  | stop (stop : a.stop = true) (readSet : r.readSet = []) (predicates : r.predicates = [])
  | evaluated (moving : a.stop = false) (cls : r.actionClass ≠ .stop) (holds : ∀ expr ∈ a.intent.predicates, truth expr a.context = .ok true)
      (readSet : r.readSet = readSet a.intent.predicates) (predicates : r.predicates = registered a.intent.predicates)
      (mandated : r.policyPredicates = a.intent.policyAdded.getD []) (contextVersion : r.contextVersion = a.version)
      (readSetVersion : r.readSetVersion ≤ a.version) (predicateVersion : r.predicateVersion ≤ a.version)

/-- What a validation pass has left in a record stays there, and only a pass decides for `EXECUTE`. -/
structure IntentRecord.KeepsBasis (r r' : IntentRecord) : Prop where
  outcome : r'.outcome = some .execute → r.outcome = some .execute
  cls : r'.actionClass = r.actionClass
  contextVersion : r'.contextVersion = r.contextVersion
  readSet : r'.readSet = r.readSet
  readSetVersion : r'.readSetVersion = r.readSetVersion
  policyPredicates : r'.policyPredicates = r.policyPredicates
  predicates : r'.predicates = r.predicates
  predicateVersion : r'.predicateVersion = r.predicateVersion

omit [PyText] in
theorem IntentRecord.KeepsBasis.refl (r : IntentRecord) : r.KeepsBasis r := ⟨fun h => h, rfl, rfl, rfl, rfl, rfl, rfl, rfl⟩

omit [PyText] in
theorem IntentRecord.KeepsBasis.trans {r r' r'' : IntentRecord} (first : r.KeepsBasis r') (second : r'.KeepsBasis r'') : r.KeepsBasis r'' :=
  ⟨fun h => first.outcome (second.outcome h), second.cls.trans first.cls, second.contextVersion.trans first.contextVersion,
    second.readSet.trans first.readSet, second.readSetVersion.trans first.readSetVersion,
    second.policyPredicates.trans first.policyPredicates, second.predicates.trans first.predicates,
    second.predicateVersion.trans first.predicateVersion⟩

theorem Authorization.Backs.kept {a : Authorization} {r r' : IntentRecord} (h : a.Backs r) (kept : r.KeepsBasis r') : a.Backs r' := by
  cases h with
  | stop stop readSet predicates => exact .stop stop (kept.readSet.trans readSet) (kept.predicates.trans predicates)
  | evaluated moving cls holds readSet predicates mandated contextVersion readSetVersion predicateVersion =>
    refine .evaluated moving (by rw [kept.cls]; exact cls) holds (kept.readSet.trans readSet) (kept.predicates.trans predicates)
      (kept.policyPredicates.trans mandated) (kept.contextVersion.trans contextVersion) ?_ ?_
    · rw [kept.readSetVersion]
      exact readSetVersion
    · rw [kept.predicateVersion]
      exact predicateVersion

/-- What the history keeps of a pass that ends in `rt'`. -/
def ProcessCall.pass (call : ProcessCall) (ticket life : Nat) (ref : Ref) (rt rt' : Runtime) : Authorization :=
  ⟨ticket, life, (rt.heap ref).id, (rt.policy.actionClass (rt.heap ref)).riskReducing, rt'.heap ref, call.context.getD rt.context,
    call.contextVersion.getD rt.contextVersion⟩

section

variable {cfg : Config} {call : ProcessCall} {rt : Runtime} {ref : Ref} {patches : List Members}

theorem ProcessCall.Rests.version_eq (rests : call.Rests patches) : call.version rt = call.contextVersion.getD rt.contextVersion := by
  rw [ProcessCall.version]
  cases given : call.context with
  | none => rw [(rests.bare given).1]; rfl
  | some context => rfl

theorem ProcessCall.Rests.shown (rests : call.Rests patches) (installed : rt.context.Shown patches rt.contextVersion) :
    (call.context.getD rt.context).Shown patches (call.contextVersion.getD rt.contextVersion) := by
  cases given : call.context with
  | none =>
    rw [(rests.bare given).1]
    exact installed
  | some context =>
    obtain ⟨v, version, shown⟩ := rests.context context given
    rw [version]
    exact shown

/-- The versions a pass records are not later than that of its snapshot. -/
theorem ProcessCall.Rests.bounds (rests : call.Rests patches) (rt : Runtime) (i : ActionIntent) (before : IntentRecord) :
    (validatedRecord call i (call.version rt) before).readSetVersion ≤ call.contextVersion.getD rt.contextVersion ∧
      (validatedRecord call i (call.version rt) before).predicateVersion ≤ (call.contextVersion.getD rt.contextVersion : Nat) := by
  have version : call.version rt = call.contextVersion.getD rt.contextVersion := rests.version_eq
  rw [← version]
  constructor
  · simp only [validatedRecord]
    cases given : call.pathVersions with
    | none => exact Nat.le_refl _
    | some pathVersions =>
      obtain ⟨v, supplied, bound⟩ := rests.paths pathVersions given
      rw [version, supplied]
      exact bound _
  · simp only [validatedRecord]
    cases given : call.predicateVersions with
    | none => simp only; omega
    | some preds =>
      obtain ⟨v, supplied, bound⟩ := rests.preds preds given
      rw [version, supplied]
      exact predicateVersion_le fun expr _ entry stored => bound expr entry stored

/-- Nothing is decided to be executed that was not before. -/
def Runtime.NoneExecuted (rt rt' : Runtime) : Prop :=
  ∀ id r', rt'.records.get id = some r' → r'.outcome = some .execute → ∃ r, rt.records.get id = some r ∧ r.outcome = some .execute

instance : IsPreorder Runtime Runtime.NoneExecuted where
  refl _ _ r stored executes := ⟨r, stored, executes⟩
  trans _ _ _ first second id r'' stored executes := by
    obtain ⟨r', stored', executes'⟩ := second id r'' stored executes
    exact first id r' stored' executes'

section

omit [PyText]

theorem Runtime.NoneExecuted.aside {rt rt' : Runtime} (records : rt'.records = rt.records) : rt.NoneExecuted rt' :=
  fun _ r stored executes => ⟨r, by rw [← records]; exact stored, executes⟩

theorem Runtime.NoneExecuted.putRecord {rt : Runtime} {id : Str} {record r : IntentRecord} (found : rt.records.get id = some record)
    (kept : r.outcome = some .execute → record.outcome = some .execute) : rt.NoneExecuted (rt.putRecord id r) := by
  intro other r' stored executes
  rw [Runtime.putRecord, Dict.get_insert] at stored
  split at stored
  · rename_i same
    obtain rfl := Option.some.inj stored
    exact ⟨record, same ▸ found, kept executes⟩
  · exact ⟨r', stored, executes⟩

/-- If the computation raises, it has decided nothing to be executed. -/
def RaisesUndecided {α : Type} (m : RuntimeM α) : Prop := ∀ rt, Ends m rt (fun _ _ => True) fun _ rt' => rt.NoneExecuted rt'

theorem raises_bind {α β : Type} {m : RuntimeM α} {f : α → RuntimeM β} (first : Moves Runtime.NoneExecuted m)
    (next : ∀ a, RaisesUndecided (f a)) : RaisesUndecided (m >>= f) := fun rt =>
  ends_bind.mpr ((first rt).imp (fun a rt' moved => (next a rt').imp (fun _ _ _ => trivial) fun _ _ later => IsTrans.trans _ _ _ moved later)
    fun _ _ moved => moved)

theorem undecided_transition (id : Str) (state : IntentState) {outcome : Option DecisionOutcome} (other : outcome ≠ some .execute) (reason : Str) :
    Moves Runtime.NoneExecuted (transition id state outcome reason) := by
  intro rt
  rw [Xair.transition, ends_bind, ends_get]
  cases found : rt.records.get id with
  | none => exact ends_throw.mpr (Std.Refl.refl rt)
  | some record =>
    simp only
    rw [ends_ite]
    refine ⟨fun _ => moves_set (moves_pure _) (.putRecord found fun executes => ?_), fun _ => ends_throw.mpr (Std.Refl.refl rt)⟩
    change (outcome <|> record.outcome) = _ at executes
    cases outcome with
    | none => exact executes
    | some o => exact absurd executes other

theorem undecided_assign (id : Str) {f : IntentRecord → IntentRecord} (kept : ∀ r : IntentRecord, (f r).outcome = r.outcome) :
    Moves Runtime.NoneExecuted (assign id f) := by
  refine moves_modify fun rt => ?_
  cases found : rt.records.get id with
  | none => exact Std.Refl.refl rt
  | some record => exact .putRecord found fun executes => (kept record).symm.trans executes

/-- The last transition of a pass, after which nothing raises. -/
theorem raises_transition {α : Type} (id : Str) (state : IntentState) (outcome : Option DecisionOutcome) (reason : Str)
    {f : IntentRecord → RuntimeM α} (returns : ∀ a rt, Ends (f a) rt (fun _ _ => True) fun _ _ => False) :
    RaisesUndecided (transition id state outcome reason >>= f) := by
  intro rt
  rw [ends_bind, transition, ends_bind, ends_get]
  cases rt.records.get id with
  | none => exact ends_throw.mpr (Std.Refl.refl rt)
  | some record =>
    simp only
    rw [ends_ite]
    refine ⟨fun _ => ?_, fun _ => ends_throw.mpr (Std.Refl.refl rt)⟩
    rw [ends_bind, ends_set, ends_pure]
    exact (returns _ _).imp (fun _ _ _ => trivial) fun _ _ never => never.elim

end

theorem raises_conclude (ref : Ref) (id : Str) (requeue : Bool) (outcome : DecisionOutcome) (reason : Str) :
    RaisesUndecided (conclude ref id requeue outcome reason) := by
  cases outcome with
  | degrade =>
    intro rt
    simp only [conclude]
    rw [ends_bind, ends_get]
    cases applyDegradation (rt.heap ref) with
    | error e => exact ends_throw.mpr (Std.Refl.refl rt)
    | ok i =>
      refine raises_bind (moves_modify fun rt => .aside (by rfl)) (fun _ => raises_bind (undecided_assign id fun _ => by rfl) fun _ =>
        raises_transition _ _ _ _ fun a rt' => ?_) rt
      rw [ends_bind, ends_modify, ends_bind, ends_modify, ends_pure]
      trivial
  | execute =>
    refine raises_bind (moves_modify fun rt => .aside (by rfl)) fun _ => raises_bind (undecided_assign id fun _ => by rfl) fun _ =>
      raises_transition _ _ _ _ fun a rt' => ?_
    rw [ends_bind, ends_modify, ends_pure]
    trivial
  | delay =>
    refine raises_transition _ _ _ _ fun a rt' => ?_
    rw [ends_bind, ends_modify, ends_bind, ends_modify, ends_pure]
    trivial
  | revoke =>
    refine raises_transition _ _ _ _ fun a rt' => ?_
    rw [ends_bind, ends_modify, ends_pure]
    trivial

theorem raises_evaluate (cfg : Config) (call : ProcessCall) (ref : Ref) (id : Str) (snapshot : Members) (version : Nat) :
    RaisesUndecided (evaluate cfg call ref id snapshot version) := by
  intro rt
  rw [evaluate, ends_bind, ends_get]
  generalize rt.policy.applyTo (rt.heap ref) = applied
  obtain ⟨i, mandated⟩ := applied
  simp only
  rw [ends_bind, ends_set]
  refine Ends.imp (raises_bind (undecided_assign id fun _ => by rfl) (fun _ rt' => ?_) (rt.putIntent ref i)) (fun _ _ _ => trivial)
    fun _ rt' later => IsTrans.trans _ _ _ (Runtime.NoneExecuted.aside rfl) later
  rw [ends_bind, ends_get]
  cases decision cfg call rt' i snapshot with
  | error e => exact ends_throw.mpr (Std.Refl.refl rt')
  | ok verdict => exact raises_bind (undecided_assign id fun _ => by rfl) (fun _ => raises_conclude _ _ _ _ _) rt'

theorem raises_validationPass (cfg : Config) (call : ProcessCall) (ref : Ref) : RaisesUndecided (validationPass cfg call ref) := by
  intro rt
  rw [validationPass, ends_bind, ends_get]
  refine raises_bind (undecided_transition _ .pending (by simp) []) (fun _ => raises_bind (undecided_transition _ .validating (by simp) [])
    fun _ => raises_bind (undecided_assign _ fun _ => by rfl) fun _ => ?_) rt
  split
  · refine raises_bind (moves_modify fun rt => .aside (by rfl)) fun _ => raises_bind (undecided_assign _ fun _ => by rfl) fun _ =>
      raises_transition _ _ _ _ fun a rt' => ?_
    rw [ends_bind, ends_modify, ends_pure]
    trivial
  split
  · refine raises_bind (undecided_assign _ fun _ => by rfl) fun _ => raises_transition _ _ _ _ fun a rt' => ?_
    rw [ends_bind, ends_modify, ends_pure]
    trivial
  · exact raises_evaluate _ _ _ _ _ _

theorem raises_processIntent (cfg : Config) (call : ProcessCall) (ref : Ref) : RaisesUndecided (processIntent cfg call ref) := by
  intro rt
  rw [processIntent, ends_bind, ends_get]
  cases found : rt.records.get (rt.heap ref).id with
  | some record =>
    simp only
    rw [ends_ite]
    exact ⟨fun _ => raises_validationPass cfg call ref rt, fun _ => ends_pure.mpr trivial⟩
  | none =>
    simp only
    rw [ends_bind, ends_set]
    refine (raises_validationPass cfg call ref (rt.register ref)).imp (fun _ _ _ => trivial) fun _ rt' later => ?_
    intro id r' stored executes
    obtain ⟨r, registered, before⟩ := later id r' stored executes
    change (rt.records.insert _ _).get id = _ at registered
    rw [Dict.get_insert] at registered
    split at registered
    · obtain rfl := Option.some.inj registered
      cases before
    · exact ⟨r, registered, before⟩

theorem Policy.applyTo_mandated (policy : Policy) (i : ActionIntent) : (policy.applyTo i).2 = (policy.applyTo i).1.policyAdded.getD [] := by
  rw [Policy.applyTo]
  split
  · rename_i added given
    simp only [given, Option.getD_some]
  · rfl

variable (cfg call) in
/-- What an evaluation records of the policy is what the policy has added to the intent. -/
theorem ends_evaluate_mandated {id : Str} {record : IntentRecord} (found : rt.records.get id = some record)
    (state : record.state = .validating) (snapshot : Members) (version : Nat) : Ends (evaluate cfg call ref id snapshot version) rt
      (fun r rt' => r.outcome = some .execute → r.policyPredicates = (rt'.heap ref).policyAdded.getD []) fun _ _ => True := by
  rw [evaluate, ends_bind, ends_get]
  have added := Policy.applyTo_mandated rt.policy (rt.heap ref)
  generalize rt.policy.applyTo (rt.heap ref) = applied at added
  obtain ⟨i, mandated⟩ := applied
  simp only at added ⊢
  rw [ends_bind, ends_set, ends_bind]
  refine (ends_assign (by exact found)).mpr ?_
  rw [ends_bind, ends_get]
  have itself : ((rt.putIntent ref i).putRecord id { record with policyPredicates := mandated }).heap ref = i :=
    (rt.heap_putIntent ref ref i).trans (if_pos rfl)
  have stored : ((rt.putIntent ref i).putRecord id { record with policyPredicates := mandated }).records.get id =
      some { record with policyPredicates := mandated } := Dict.get_insert_self _ _ _
  generalize (rt.putIntent ref i).putRecord id { record with policyPredicates := mandated } = rt₁ at *
  cases decision cfg call rt₁ i snapshot with
  | error e => exact ends_throw.mpr trivial
  | ok verdict =>
    obtain ⟨outcome, reason⟩ := verdict
    simp only
    rw [ends_bind]
    refine (ends_assign stored).mpr ?_
    have stored' : (rt₁.putRecord id (validatedRecord call i version { record with policyPredicates := mandated })).records.get id =
        some (validatedRecord call i version { record with policyPredicates := mandated }) := Dict.get_insert_self _ _ _
    by_cases execute : outcome = .execute
    · subst execute
      simp only [conclude]
      rw [ends_bind, ends_modify]
      refine (ends_assign_transition (by exact stored') (by simp [validatedRecord, state, IntentState.allowed])).mpr ?_
      rw [ends_bind, ends_modify, ends_pure]
      intro _
      show mandated = (rt₁.heap ref).policyAdded.getD []
      rw [itself]
      exact added
    · refine (ends_conclude_other stored' state _ _ execute _).imp ?_ fun _ _ _ => trivial
      rintro a rt' ⟨_, _, _, other, _⟩ executes
      exact absurd (Option.some.inj (other.symm.trans executes)) execute

variable (cfg) in
/-- A record that a pass answers is one that was there before; or it says `EXECUTE` if it is authorized, and then this pass backs it. -/
theorem ends_processIntent_backs (rests : call.Rests patches) (ticket life : Nat) :
    Ends (processIntent cfg call ref) rt
      (fun r rt' => rt' = rt ∨ (r.state = .authorized → r.outcome = some .execute) ∧
        (r.outcome = some .execute → (call.pass ticket life ref rt rt').Backs r)) fun _ _ => True := by
  have passes : ∀ {rt₀ : Runtime} {record : IntentRecord}, rt₀.records.get (rt₀.heap ref).id = some record → record.state.validatable = true →
      rt₀.heap = rt.heap → rt₀.policy = rt.policy → rt₀.context = rt.context → rt₀.contextVersion = rt.contextVersion →
        Ends (validationPass cfg call ref) rt₀
          (fun r rt' => rt' = rt ∨ (r.state = .authorized → r.outcome = some .execute) ∧
            (r.outcome = some .execute → (call.pass ticket life ref rt rt').Backs r)) fun _ _ => True := by
    intro rt₀ record found opened heap policy context contextVersion
    have same : ∀ rt', call.pass ticket life ref rt₀ rt' = call.pass ticket life ref rt rt' := fun rt' => by
      rw [ProcessCall.pass, ProcessCall.pass, heap, policy, context, contextVersion]
    apply ends_validationPass_begun cfg call ref found opened
    · intro rt₁ r₁ h _ stop
      rw [authorizeStop, ends_bind, ends_modify]
      refine (ends_assign_transition (by exact h.stored) (by simp [h.state, IntentState.allowed])).mpr ?_
      rw [ends_bind, ends_modify, ends_pure]
      refine Or.inr ⟨fun _ => rfl, fun _ => same _ ▸ .stop ?_ rfl rfl⟩
      rw [ProcessCall.pass, stop]
      rfl
    · intro rt₁ r₁ h _ _ _
      refine (ends_revokeStale h.stored h.state _).imp ?_ fun _ _ _ => trivial
      rintro a rt' ⟨_, _, state, outcome, _⟩
      exact Or.inr ⟨fun authorized => (by cases state.symm.trans authorized), fun executes => (by cases outcome.symm.trans executes)⟩
    · intro rt₁ r₁ h _ notStop _
      have decided : Ends (evaluate cfg call ref (rt₀.heap ref).id (call.snapshot rt₀) (call.version rt₀)) rt₁
          (fun r rt' => (r.state = .authorized → r.outcome = some .execute) ∧ (r.outcome = some .execute →
            r.policyPredicates = (rt'.heap ref).policyAdded.getD [] → (call.pass ticket life ref rt rt').Backs r)) fun _ _ => True := by
        apply ends_evaluate_decided h
        · intros
          trivial
        · intro rt₂ r₂ outcome reason evaluated _
          by_cases execute : outcome = .execute
          · subst execute
            obtain ⟨_, msg, valid⟩ := evaluated.execute
            have cls := evaluated.cls
            obtain ⟨before, rfl⟩ := evaluated.fields
            simp only [conclude]
            rw [ends_bind, ends_modify]
            refine (ends_assign_transition (by exact evaluated.stored) (by simp [evaluated.state, IntentState.allowed])).mpr ?_
            rw [ends_bind, ends_modify, ends_pure]
            have itself : rt₂.heap ref = rt₀.prepared ref := by rw [evaluated.heap, Function.update_self]
            obtain ⟨readBound, predBound⟩ := rests.bounds rt₀ (rt₀.prepared ref) before
            refine ⟨fun _ => rfl, fun _ mandated => same _ ▸ .evaluated ?_ ?_ ?_ ?_ ?_ mandated rests.version_eq readBound predBound⟩
            · rw [ProcessCall.pass]
              exact decide_eq_false notStop
            · exact fun stop => notStop (cls.symm.trans stop)
            · show ∀ expr ∈ (rt₂.heap ref).predicates, _
              rw [itself]
              exact truth_of_evaluatePredicates valid
            · exact congrArg (fun i => readSet (ActionIntent.predicates i)) itself.symm
            · exact congrArg (fun i => registered (ActionIntent.predicates i)) itself.symm
          · refine (ends_conclude_other evaluated.stored evaluated.state _ _ execute _).imp ?_ fun _ _ _ => trivial
            rintro a rt' ⟨_, _, state, other, _⟩
            refine ⟨fun authorized => ?_, fun executes => absurd (Option.some.inj (other.symm.trans executes)) execute⟩
            rcases state with state | state | state | state <;> cases state.symm.trans authorized
      refine ((ends_evaluate_mandated cfg call h.stored h.state _ _).and decided).imp ?_ fun _ _ _ => trivial
      exact fun r rt' ends => Or.inr ⟨ends.2.1, fun executes => ends.2.2 executes (ends.1 executes)⟩
  rw [processIntent, ends_bind, ends_get]
  cases found : rt.records.get (rt.heap ref).id with
  | some record =>
    simp only
    rw [ends_ite]
    exact ⟨fun opened => passes found opened rfl rfl rfl rfl, fun _ => ends_pure.mpr (Or.inl rfl)⟩
  | none =>
    simp only
    rw [ends_bind, ends_set]
    exact passes (Dict.get_insert_self _ _ _) rfl rfl rfl rfl rfl

end

/-! ### What reports leave of a record -/

/-- Every record was there before, with the same basis. -/
def Runtime.KeepsBases (rt rt' : Runtime) : Prop :=
  ∀ id r', rt'.records.get id = some r' → ∃ r, rt.records.get id = some r ∧ r.KeepsBasis r'

instance : IsPreorder Runtime Runtime.KeepsBases where
  refl _ _ r stored := ⟨r, stored, .refl r⟩
  trans _ _ _ first second id r'' stored := by
    obtain ⟨r', stored', later⟩ := second id r'' stored
    obtain ⟨r, stored, earlier⟩ := first id r' stored'
    exact ⟨r, stored, earlier.trans later⟩

section

omit [PyText]

theorem Runtime.KeepsBases.aside {rt rt' : Runtime} (records : rt'.records = rt.records) : rt.KeepsBases rt' :=
  fun _ r stored => ⟨r, by rw [← records]; exact stored, .refl r⟩

theorem Runtime.KeepsBases.putRecord {rt : Runtime} {id : Str} {record r : IntentRecord} (found : rt.records.get id = some record)
    (kept : record.KeepsBasis r) : rt.KeepsBases (rt.putRecord id r) := by
  intro other r' stored
  rw [Runtime.putRecord, Dict.get_insert] at stored
  split at stored
  · rename_i same
    obtain rfl := Option.some.inj stored
    exact ⟨record, same ▸ found, kept⟩
  · exact ⟨r', stored, .refl r'⟩

theorem bases_transition (id : Str) (state : IntentState) {outcome : Option DecisionOutcome} (other : outcome ≠ some .execute) (reason : Str) :
    Moves Runtime.KeepsBases (transition id state outcome reason) := by
  intro rt
  rw [Xair.transition, ends_bind, ends_get]
  cases found : rt.records.get id with
  | none => exact ends_throw.mpr (Std.Refl.refl rt)
  | some record =>
    simp only
    rw [ends_ite]
    refine ⟨fun _ => moves_set (moves_pure _) ?_, fun _ => ends_throw.mpr (Std.Refl.refl rt)⟩
    refine Runtime.KeepsBases.putRecord found ⟨fun executes => ?_, rfl, rfl, rfl, rfl, rfl, rfl, rfl⟩
    change (outcome <|> record.outcome) = _ at executes
    cases outcome with
    | none => exact executes
    | some o => exact absurd executes other

theorem bases_assign (id : Str) {f : IntentRecord → IntentRecord} (kept : ∀ r : IntentRecord, r.KeepsBasis (f r)) :
    Moves Runtime.KeepsBases (assign id f) := by
  refine moves_modify fun rt => ?_
  cases found : rt.records.get id with
  | none => exact Std.Refl.refl rt
  | some record => exact .putRecord found (kept record)

theorem bases_reject {α : Type} (record : IntentRecord) (requested : IntentState) (reason : Str) :
    Moves Runtime.KeepsBases (reject record requested reason : RuntimeM α) := by
  refine moves_get_bind fun rt => moves_bind (moves_modify fun rt' => ?_) fun _ => moves_throw _
  cases rt'.records.get (rt.heap record.intent).id with
  | none => exact Std.Refl.refl rt'
  | some r => exact .aside rfl

theorem bases_count (f : Metrics → Metrics) : Moves Runtime.KeepsBases (modify fun rt => rt.count f : RuntimeM PUnit) :=
  moves_modify fun _ => .aside rfl

theorem bases_releaseTarget (record : IntentRecord) : Moves Runtime.KeepsBases (releaseTarget record) := moves_modify fun _ => .aside rfl

theorem bases_recordCommit (id : Str) (committed : Bool) (reason : Str) (seq : Option Nat) :
    Moves Runtime.KeepsBases (recordCommit id committed reason seq) := by
  refine moves_get_bind fun rt => ?_
  split
  · exact moves_throw _
  · rename_i record _
    refine moves_ite (fun _ => moves_pure record) fun _ => moves_ite (fun _ => bases_reject _ _ _) fun _ =>
      moves_bind (bases_releaseTarget record) fun _ => moves_ite (fun _ => ?_) fun _ => ?_
    · exact moves_bind (bases_assign id fun _ => ⟨fun h => h, rfl, rfl, rfl, rfl, rfl, rfl, rfl⟩) fun _ =>
        moves_bind (bases_transition id _ (by simp) _) fun a => moves_bind (bases_count _) fun _ => moves_pure a
    · exact moves_bind (bases_assign id fun _ => ⟨fun h => h, rfl, rfl, rfl, rfl, rfl, rfl, rfl⟩) fun _ =>
        moves_bind (bases_transition id _ (by simp) _) fun a => moves_bind (bases_count _) fun _ => moves_pure a

theorem bases_reportRelease (config : Config) (id : Str) (released : Bool) (reason : Str) (cv rv : Option Int) :
    Moves Runtime.KeepsBases (reportRelease config id released reason cv rv) := by
  refine moves_get_bind fun rt => ?_
  split
  · exact moves_throw _
  · rename_i record _
    refine moves_ite (fun _ => moves_pure record) fun _ => moves_ite (fun _ => moves_pure record) fun _ =>
      moves_ite (fun _ => bases_reject _ _ _) fun _ => moves_ite (fun _ => bases_reject _ _ _) fun _ => ?_
    refine moves_bind (bases_releaseTarget record) fun _ => moves_ite (fun _ => ?_) fun _ => ?_
    · refine moves_bind (bases_assign id fun _ => ⟨fun h => h, rfl, rfl, rfl, rfl, rfl, rfl, rfl⟩) fun _ =>
        moves_bind (bases_transition id _ (by simp) _) fun a => moves_bind (bases_count _) fun _ =>
          moves_bind (moves_modify fun rt => ?_) fun _ => moves_pure a
      split <;> exact .aside rfl
    · exact moves_bind (bases_assign id fun _ => ⟨fun h => h, rfl, rfl, rfl, rfl, rfl, rfl, rfl⟩) fun _ =>
        moves_bind (bases_transition id _ (by simp) _) fun a => moves_bind (bases_count _) fun _ => moves_pure a

theorem bases_reportEffect (id : Str) (status : EffectStatus) (detail : Str) :
    Moves Runtime.KeepsBases (reportEffect id status detail) := by
  refine moves_get_bind fun rt => ?_
  split
  · exact moves_throw _
  · rename_i record _
    refine moves_ite (fun _ => moves_pure record) fun _ => moves_ite (fun _ => bases_reject _ _ _) fun _ => ?_
    exact moves_bind (bases_assign id fun _ => ⟨fun h => h, rfl, rfl, rfl, rfl, rfl, rfl, rfl⟩) fun _ =>
      moves_bind (bases_transition id _ (by simp) _) fun a => moves_bind (bases_count _) fun _ => moves_pure a

theorem bases_supervisoryRevoke (id : Str) (reason : Str) : Moves Runtime.KeepsBases (supervisoryRevoke id reason) := by
  refine moves_get_bind fun rt => ?_
  split
  · exact moves_throw _
  · exact moves_bind (bases_transition id _ (by simp) _) fun a => moves_bind (bases_releaseTarget a) fun _ => moves_pure a

theorem Site.bases_runs {α : Type} {m : RuntimeM α} (moves : Moves Runtime.KeepsBases m) (s : Site) :
    s.runtime.KeepsBases (s.runs m).2.runtime := by
  have ends := moves s.runtime
  rw [Site.runs]
  cases run : m s.runtime with
  | ok a rt => exact ends.of_run_ok run
  | error e rt => exact ends.of_run_error run

end

/-! ### What a step does to the store and the installed context -/

/-- The call that a step may make to the store. -/
def SiteCommand.storeCall (s : Site) : SiteCommand → Option MemoryCall
  | .registerAndSnapshot exprs => some (.register (s.clock / 1000) exprs)
  | .commitAuthorization req => some (.commit (s.clock / 1000) req)
  | .appendActuation tombstone => some (.append tombstone)
  | .reportWithheld id reason _ => some (.append (withheldTombstone id reason))
  | .update patch => some (.update (s.clock / 1000) patch)
  | _ => none

variable {cfg : SiteConfig}

variable (cfg) in
/-- A step makes at most its one call to the store. -/
theorem Site.store_exec (c : SiteCommand) (s : Site) : (Site.exec cfg c s).2.store = s.store ∨
    ∃ call, c.storeCall s = some call ∧ (Site.exec cfg c s).2.store = s.store.next cfg.predicateRetentionS call := by
  cases c with
  | registerAndSnapshot exprs =>
    simp only [Site.exec]
    split
    · rename_i m run
      exact Or.inr ⟨_, rfl, congrArg Prod.fst run.symm⟩
    · rename_i m e run
      by_cases redis : cfg.redisRequired = true
      · exact Or.inl (by rw [if_pos redis]; rfl)
      · exact Or.inr ⟨_, rfl, by rw [if_neg redis]; exact congrArg Prod.fst run.symm⟩
  | commitAuthorization req => exact Or.inr ⟨_, rfl, rfl⟩
  | appendActuation tombstone => exact Or.inr ⟨_, rfl, rfl⟩
  | reportWithheld id reason append =>
    simp only [Site.exec, Site.reportWithheld]
    split
    · exact Or.inl rfl
    split
    · exact Or.inl rfl
    split
    · exact Or.inl rfl
    split
    · exact Or.inr ⟨_, rfl, Site.store_runs _ _⟩
    · exact Or.inr ⟨_, rfl, rfl⟩
    · exact Or.inl rfl
  | update patch =>
    simp only [Site.exec]
    cases updated : s.store.update cfg.predicateRetentionS (s.clock / 1000) patch with
    | error e => exact Or.inl rfl
    | ok m => exact Or.inr ⟨_, rfl, by simp only [MemoryStore.next, updated]; rfl⟩
  | claimIntent id =>
    left
    simp only [Site.exec, Site.claimIntent]
    split
    · split
      · split <;> rfl
      · rfl
    · rfl
  | admitIntent ref => exact Or.inl (Site.store_runs _ s)
  | process ticket ref call =>
    exact Or.inl (Site.store_runs (processIntent cfg.config { call with now := s.clock, requeue := false } ref) s)
  | transition id state outcome reason => exact Or.inl (Site.store_runs _ s)
  | recordCommit id committed reason seq => exact Or.inl (Site.store_runs _ s)
  | reportRelease id released reason cv rv => exact Or.inl (Site.store_runs _ s)
  | reportEffect id status detail => exact Or.inl (Site.store_runs _ s)
  | supervisoryRevoke id reason => exact Or.inl (Site.store_runs _ s)
  | releaseTarget record => exact Or.inl (Site.store_runs (releaseTarget record) s)
  | _ => exact Or.inl rfl

/-- The installed context is the same. -/
def Runtime.SameContext (rt rt' : Runtime) : Prop := rt'.context = rt.context ∧ rt'.contextVersion = rt.contextVersion

omit [PyText] in
theorem Runtime.SameContext.of_local {id : Str} {rt rt' : Runtime} (h : Local id rt rt') : rt.SameContext rt' :=
  ⟨h.context, h.contextVersion⟩

omit [PyText] in
theorem Runtime.SameContext.of_noted {rt rt' : Runtime} (h : Noted rt rt') : rt.SameContext rt' := ⟨h.context, h.contextVersion⟩

omit [PyText] in
theorem sameContext_expireItems (horizon : ℚ) (items : List (Str × ℚ)) (rt : Runtime) :
    rt.SameContext (expireItems horizon items rt) := by
  induction items generalizing rt with
  | nil => exact ⟨rfl, rfl⟩
  | cons item rest ih =>
    obtain ⟨id, admittedAt⟩ := item
    simp only [expireItems]
    split
    · exact ⟨rfl, rfl⟩
    · split
      · exact ih (({ rt with seen := rt.seen.erase id } : Runtime).forget id)
      · exact ih { rt with seen := rt.seen.erase id }

omit [PyText] in
theorem sameContext_admitIntent (config : Config) (ref : Ref) (mono : ℚ) (rt : Runtime) :
    Ends (admitIntent config ref mono false) rt (fun _ rt' => rt.SameContext rt') fun _ _ => False := by
  have expired : rt.SameContext (expireSeen config mono rt) := sameContext_expireItems _ _ rt
  rw [admitIntent, ends_bind, ends_modify, ends_bind, ends_get]
  simp only
  split
  · exact ends_pure.mpr expired
  · rw [ends_bind, ends_set, ends_pure]
    exact expired

omit [PyText] in
theorem sameContext_transition (id : Str) (state : IntentState) (outcome : Option DecisionOutcome) (reason : Str) (rt : Runtime) :
    Ends (transition id state outcome reason) rt (fun _ rt' => rt.SameContext rt') fun _ rt' => rt.SameContext rt' := by
  cases found : rt.records.get id with
  | none =>
    rw [transition, ends_bind, ends_get]
    simp only [found]
    exact ends_throw.mpr ⟨rfl, rfl⟩
  | some record =>
    by_cases allowed : state ∈ record.state.allowed
    · exact (ends_transition found allowed).mpr ⟨rfl, rfl⟩
    · exact (ends_transition_refused found allowed).mpr ⟨rfl, rfl⟩

omit [PyText] in
theorem sameContext_recordCommit (id : Str) (committed : Bool) (reason : Str) (seq : Option Nat) (rt : Runtime) :
    Ends (recordCommit id committed reason seq) rt (fun _ rt' => rt.SameContext rt') fun _ rt' => rt.SameContext rt' := by
  refine (ends_recordCommit rt id committed reason seq).imp ?_ fun _ _ noted => .of_noted noted
  rintro a rt' (⟨rfl, _⟩ | ⟨record, _, settled, _⟩)
  · exact ⟨rfl, rfl⟩
  · exact .of_local settled.alone

omit [PyText] in
theorem sameContext_reportRelease (config : Config) (id : Str) (released : Bool) (reason : Str) (cv rv : Option Int) (rt : Runtime) :
    Ends (reportRelease config id released reason cv rv) rt (fun _ rt' => rt.SameContext rt') fun _ rt' => rt.SameContext rt' := by
  refine (ends_reportRelease config rt id released reason cv rv).imp ?_ fun _ _ noted => .of_noted noted
  rintro a rt' (⟨rfl, _⟩ | ⟨record, state, _, _, _, settled, _⟩)
  · exact ⟨rfl, rfl⟩
  · exact .of_local settled.alone

omit [PyText] in
theorem sameContext_reportEffect (id : Str) (status : EffectStatus) (detail : Str) (rt : Runtime) :
    Ends (reportEffect id status detail) rt (fun _ rt' => rt.SameContext rt') fun _ rt' => rt.SameContext rt' := by
  refine (ends_reportEffect rt id status detail).imp ?_ fun _ _ noted => .of_noted noted
  rintro a rt' (⟨rfl, _⟩ | ⟨record, settled, _⟩)
  · exact ⟨rfl, rfl⟩
  · exact .of_local settled.alone

omit [PyText] in
theorem sameContext_supervisoryRevoke (id : Str) (reason : Str) (rt : Runtime) :
    Ends (supervisoryRevoke id reason) rt (fun _ rt' => rt.SameContext rt') fun _ rt' => rt.SameContext rt' := by
  refine (ends_supervisoryRevoke rt id reason).imp ?_ ?_
  · rintro a rt' ⟨record, settled, _⟩
    exact .of_local settled.alone
  · rintro _ rt' ⟨rfl, _⟩
    exact ⟨rfl, rfl⟩

omit [PyText] in
theorem Site.sameContext_runs {α : Type} {m : RuntimeM α} {s : Site}
    (h : Ends m s.runtime (fun _ rt' => s.runtime.SameContext rt') fun _ rt' => s.runtime.SameContext rt') :
    s.runtime.SameContext (s.runs m).2.runtime := by
  rw [Site.runs]
  cases run : m s.runtime with
  | ok a rt => exact h.of_run_ok run
  | error e rt => exact h.of_run_error run

variable (cfg) in
/-- Only an installation changes the installed context. -/
theorem Site.context_runtime_exec (c : SiteCommand) (s : Site) : s.runtime.SameContext (Site.exec cfg c s).2.runtime ∨
    ∃ snapshot, c = .install snapshot ∧
      (Site.exec cfg c s).2.runtime = installContextSnapshot snapshot.context snapshot.version s.runtime := by
  cases c with
  | install snapshot => exact Or.inr ⟨snapshot, rfl, rfl⟩
  | admitIntent ref =>
    exact Or.inl (Site.sameContext_runs ((sameContext_admitIntent cfg.config ref s.mono s.runtime).imp (fun _ _ h => h) fun _ _ h => h.elim))
  | process ticket ref call =>
    refine Or.inl (Site.sameContext_runs (m := processIntent cfg.config { call with now := s.clock, requeue := false } ref) ?_)
    exact (ends_processIntent _ _ _ _).imp (fun _ _ h => .of_local h.1) fun _ _ h => .of_local h.1
  | transition id state outcome reason => exact Or.inl (Site.sameContext_runs (sameContext_transition _ _ _ _ _))
  | recordCommit id committed reason seq => exact Or.inl (Site.sameContext_runs (sameContext_recordCommit _ _ _ _ _))
  | reportRelease id released reason cv rv => exact Or.inl (Site.sameContext_runs (sameContext_reportRelease _ _ _ _ _ _ _))
  | reportEffect id status detail => exact Or.inl (Site.sameContext_runs (sameContext_reportEffect _ _ _ _))
  | supervisoryRevoke id reason => exact Or.inl (Site.sameContext_runs (sameContext_supervisoryRevoke _ _ _))
  | releaseTarget record => exact Or.inl ⟨rfl, rfl⟩
  | reportWithheld id reason append =>
    left
    simp only [Site.exec, Site.reportWithheld]
    split
    · exact ⟨rfl, rfl⟩
    split
    · exact ⟨rfl, rfl⟩
    split
    · exact ⟨rfl, rfl⟩
    split
    · exact Site.sameContext_runs (s := s.withStore _) (sameContext_reportRelease _ _ _ _ _ _ _)
    · exact ⟨rfl, rfl⟩
    · exact ⟨rfl, rfl⟩
  | registerAndSnapshot exprs =>
    simp only [Site.exec]
    split <;> exact Or.inl ⟨rfl, rfl⟩
  | update patch =>
    simp only [Site.exec]
    split <;> exact Or.inl ⟨rfl, rfl⟩
  | claimIntent id =>
    left
    simp only [Site.exec, Site.claimIntent]
    split
    · split
      · split <;> exact ⟨rfl, rfl⟩
      · exact ⟨rfl, rfl⟩
    · exact ⟨rfl, rfl⟩
  | _ => exact Or.inl ⟨rfl, rfl⟩

omit [PyText] in
theorem Site.view_runs {α : Type} (m : RuntimeM α) (s : Site) : (s.runs m).2.view = s.view := by
  rw [Site.runs]
  split <;> rfl

variable (cfg) in
/-- Only a reading of the store changes what the process has last read. -/
theorem Site.view_exec (c : SiteCommand) (s : Site) : (Site.exec cfg c s).2.view = s.view ∨
    c = .snapshot ∧ (Site.exec cfg c s).2.view = s.store.snapshot := by
  cases c with
  | snapshot => exact Or.inr ⟨rfl, rfl⟩
  | admitIntent ref => exact Or.inl (Site.view_runs _ s)
  | process ticket ref call =>
    exact Or.inl (Site.view_runs (processIntent cfg.config { call with now := s.clock, requeue := false } ref) s)
  | transition id state outcome reason => exact Or.inl (Site.view_runs _ s)
  | recordCommit id committed reason seq => exact Or.inl (Site.view_runs _ s)
  | reportRelease id released reason cv rv => exact Or.inl (Site.view_runs _ s)
  | reportEffect id status detail => exact Or.inl (Site.view_runs _ s)
  | supervisoryRevoke id reason => exact Or.inl (Site.view_runs _ s)
  | releaseTarget record => exact Or.inl (Site.view_runs (releaseTarget record) s)
  | reportWithheld id reason append =>
    left
    simp only [Site.exec, Site.reportWithheld]
    split
    · rfl
    split
    · rfl
    split
    · rfl
    split
    · exact Site.view_runs _ _
    · rfl
    · rfl
  | registerAndSnapshot exprs =>
    simp only [Site.exec]
    split <;> exact Or.inl rfl
  | update patch =>
    simp only [Site.exec]
    split <;> exact Or.inl rfl
  | claimIntent id =>
    left
    simp only [Site.exec, Site.claimIntent]
    split
    · split
      · split <;> rfl
      · rfl
    · rfl
  | _ => exact Or.inl rfl

/-- The steps that decide nothing. -/
def SiteCommand.Undecided : SiteCommand → Prop
  | .transition _ state outcome _ => state = .revoked ∧ outcome ≠ some .execute
  | .process _ _ _ => False
  | c => c.Served

omit [PyText] in
theorem SiteCommand.Undecided.served {c : SiteCommand} (undecided : c.Undecided) : c.Served := by
  cases c <;> first | exact undecided | exact undecided.elim | exact undecided.1

/-- A record before a step other than a pass, or a new one. -/
def Site.KeepsBases (s s' : Site) : Prop :=
  ∀ id r', s'.runtime.records.get id = some r' → (∃ r, s.runtime.records.get id = some r ∧ r.KeepsBasis r') ∨ ∃ ref, r' = .fresh ref

omit [PyText] in
theorem Runtime.KeepsBases.site {s s' : Site} (h : s.runtime.KeepsBases s'.runtime) : s.KeepsBases s' :=
  fun id r' stored => Or.inl (h id r' stored)

variable (cfg) in
theorem Site.bases_exec {c : SiteCommand} (undecided : c.Undecided) (s : Site) : s.KeepsBases (Site.exec cfg c s).2 := by
  cases c with
  | process ticket ref call => exact undecided.elim
  | admitIntent ref =>
    have ends := ends_admitIntent cfg.config ref s.mono false s.runtime
    simp only [Site.exec, Site.runs]
    cases run : admitIntent cfg.config ref s.mono false s.runtime with
    | error e rt => exact (ends.of_run_error run).elim
    | ok a rt =>
      intro id r' stored
      rcases (ends.of_run_ok run).1.records id r' stored with before | ⟨_, rfl⟩
      · exact Or.inl ⟨r', before, .refl r'⟩
      · exact Or.inr ⟨ref, rfl⟩
  | transition id state outcome reason => exact (Site.bases_runs (bases_transition id state undecided.2 reason) s).site
  | recordCommit id committed reason seq => exact (Site.bases_runs (bases_recordCommit id committed reason seq) s).site
  | reportRelease id released reason cv rv => exact (Site.bases_runs (bases_reportRelease cfg.config id released reason cv rv) s).site
  | reportEffect id status detail => exact (Site.bases_runs (bases_reportEffect id status detail) s).site
  | supervisoryRevoke id reason => exact (Site.bases_runs (bases_supervisoryRevoke id reason) s).site
  | reportWithheld id reason append =>
    refine Runtime.KeepsBases.site ?_
    simp only [Site.exec, Site.reportWithheld]
    split
    · exact Std.Refl.refl _
    split
    · exact Std.Refl.refl _
    split
    · exact Std.Refl.refl _
    split
    · exact Site.bases_runs (bases_reportRelease cfg.config id false reason none none) (s.withStore _)
    · exact Std.Refl.refl _
    · exact Std.Refl.refl _
  | install snapshot =>
    refine Runtime.KeepsBases.site (.aside ?_)
    simp only [Site.exec, installContextSnapshot]
    split <;> rfl
  | registerAndSnapshot exprs =>
    refine Runtime.KeepsBases.site (.aside ?_)
    simp only [Site.exec]
    split <;> rfl
  | update patch =>
    refine Runtime.KeepsBases.site (.aside ?_)
    simp only [Site.exec]
    split <;> rfl
  | claimIntent id =>
    refine Runtime.KeepsBases.site (.aside ?_)
    simp only [Site.exec, Site.claimIntent]
    split
    · split
      · split <;> rfl
      · rfl
    · rfl
  | _ => exact Runtime.KeepsBases.site (.aside rfl)

variable (cfg) in
/-- A step other than a pass authorizes nothing. -/
theorem Site.undecided_exec {c : SiteCommand} (undecided : c.Undecided) (s : Site) :
    (Site.exec cfg c s).2.authorizations = s.authorizations ∧ ∀ id r, (Site.exec cfg c s).2.runtime.records.get id = some r →
      s.runtime.records.get id = some r ∨ 2 ≤ r.state.stage ∨ ∃ ref, r = .fresh ref := by
  have reported : c.Routine → (Site.exec cfg c s).2.authorizations = s.authorizations ∧
      ∀ id r, (Site.exec cfg c s).2.runtime.records.get id = some r →
        s.runtime.records.get id = some r ∨ 2 ≤ r.state.stage ∨ ∃ ref, r = .fresh ref := by
    intro routine
    have moved : s.Reported _ (Site.exec cfg c s).2 := Site.reported_exec routine s
    refine ⟨moved.authorizations, fun id r now => ?_⟩
    rcases moved.records id with same | ⟨q, r', _, after, further⟩
    · exact Or.inl (same.symm.trans now)
    · obtain rfl := Option.some.inj (after.symm.trans now)
      exact Or.inr (Or.inl further.late)
  cases c with
  | process ticket ref call => exact undecided.elim
  | admitIntent ref =>
    have ends := ends_admitIntent cfg.config ref s.mono false s.runtime
    simp only [Site.exec, Site.runs]
    cases run : admitIntent cfg.config ref s.mono false s.runtime with
    | error e rt => exact (ends.of_run_error run).elim
    | ok a rt => exact ⟨rfl, fun id r now => ((ends.of_run_ok run).1.records id r now).imp_right fun new => Or.inr ⟨ref, new.2⟩⟩
  | transition id state outcome reason => exact reported undecided.1
  | _ => exact reported undecided

/-! ### The invariant -/

/-- The paths or predicates that a commit of this scope compares. -/
def Scope.keys (scope : Scope) (exprs : List Str) : List Str :=
  match scope with
  | .readset => readSet exprs
  | .truth => registered exprs

/-- The request compares what this pass has recorded. -/
inductive Authorization.Asks (a : Authorization) (req : CommitRequest) : Prop
  | stop (stop : a.stop = true) (keys : req.keys = [])
  | evaluated (moving : a.stop = false) (holds : ∀ expr ∈ a.intent.predicates, truth expr a.context = .ok true)
      (keys : req.keys = req.scope.keys a.intent.predicates) (expected : req.expected ≤ a.version)

/-- Whoever is authorized has been decided to be executed, and nobody before. -/
structure IntentRecord.Decided (r : IntentRecord) : Prop where
  authorized : r.state = .authorized → r.outcome = some .execute
  past : r.outcome = some .execute → 1 ≤ r.state.stage

/-- What is known of the store, the process and their histories. -/
structure Site.Grounded (s : Site) : Prop where
  store : s.store.Inv
  view : s.view.Of s.store.patches
  installed : s.runtime.context.Shown s.store.patches s.runtime.contextVersion
  passes : ∀ a ∈ s.authorizations, a.context.Shown s.store.patches a.version
  decided : ∀ id r, s.runtime.records.get id = some r → r.Decided
  records : ∀ id r, s.runtime.records.get id = some r → r.outcome = some .execute → ∃ a ∈ s.authorizations, a.id = id ∧ a.Backs r
  log : ∀ entry ∈ s.store.actuations, ∀ g, entry.grant = some g → 0 ≤ g.request.expected ∧
    ∃ a ∈ s.authorizations, a.id = g.request.intentId ∧ a.Asks g.request ∧ a.context.Shown (s.store.patches.take g.version) a.version

/-- What no step takes back. -/
structure Site.RetainedBy (s s' : Site) : Prop where
  patches : s.store.patches <+: s'.store.patches
  authorizations : s.authorizations <+: s'.authorizations
  log : s.store.actuations <+: s'.store.actuations

section

variable {s s' s'' : Site}

omit [PyText] in
theorem Site.RetainedBy.refl (s : Site) : s.RetainedBy s := ⟨List.prefix_refl _, List.prefix_refl _, List.prefix_refl _⟩

omit [PyText] in
theorem Site.RetainedBy.trans (first : s.RetainedBy s') (second : s'.RetainedBy s'') : s.RetainedBy s'' :=
  ⟨first.patches.trans second.patches, first.authorizations.trans second.authorizations, first.log.trans second.log⟩

/-- What a step needs: snapshots that the store has returned, and a request for what a pass has recorded. -/
def SiteCommand.GroundedIn (s : Site) : SiteCommand → Prop
  | .install part => part.Of s.store.patches
  | .process _ _ call => call.Rests s.store.patches
  | .update patch => patch.WF
  | .commitAuthorization req => ∃ a ∈ s.authorizations, a.id = req.intentId ∧ a.Asks req
  | _ => True

theorem MemoryStore.Inv.of {m : MemoryStore} (inv : m.Inv) : m.snapshot.Of m.patches := by
  refine ⟨le_of_eq inv.version, fun _ => True, ?_⟩
  rw [inv.version, atVersion_length, ← inv.snapshot]
  exact Snapshot.restrictsTo_self _

variable (cfg) in
theorem Site.retained_store {c : SiteCommand} (h : s.Grounded) (grounded : c.GroundedIn s) :
    (Site.exec cfg c s).2.store.Inv ∧ s.store.patches <+: (Site.exec cfg c s).2.store.patches := by
  rcases Site.store_exec cfg c s with same | ⟨call, its, next⟩
  · rw [same]
    exact ⟨h.store, List.prefix_refl _⟩
  · rw [next]
    refine h.store.next cfg.predicateRetentionS fun patch asked => ?_
    cases c with
    | update written =>
      obtain rfl := Option.some.inj its
      obtain rfl := Option.some.inj asked
      exact grounded
    | registerAndSnapshot exprs => obtain rfl := Option.some.inj its; cases asked
    | commitAuthorization req => obtain rfl := Option.some.inj its; cases asked
    | appendActuation tombstone => obtain rfl := Option.some.inj its; cases asked
    | reportWithheld id reason append => obtain rfl := Option.some.inj its; cases asked
    | _ => cases its

omit [PyText] in
/-- Only a version is compared. -/
theorem CommitRequest.expected_of_refusal {req : CommitRequest} {committed : List Str} {age : ℚ} {observed : Int}
    (granted : req.refusal committed age observed = none) : 0 ≤ req.expected := by
  unfold CommitRequest.refusal at granted
  repeat' split at granted
  all_goals first
    | omega
    | cases granted

/-- The entries of the log that authorize, after a step. -/
theorem Site.grants_exec (c : SiteCommand) {entry : LogEntry} (member : entry ∈ (Site.exec cfg c s).2.store.actuations) {g : Grant}
    (its : entry.grant = some g) : entry ∈ s.store.actuations ∨
      ∃ req, c = .commitAuthorization req ∧ 0 ≤ req.expected ∧ g = ⟨req, s.store.snapshot.version, s.store.preds⟩ := by
  obtain ⟨more, grown, logs⟩ := Site.log_exec cfg s c
  rw [grown] at member
  refine (List.mem_append.mp member).imp_right fun new => ?_
  cases logs entry new with
  | granted req grants => exact ⟨req, rfl, CommitRequest.expected_of_refusal grants, (Option.some.inj its).symm⟩
  | appended tombstone => cases its
  | withheld id reason append => cases its

variable (cfg) in
theorem Site.Grounded.exec {c : SiteCommand} (h : s.Grounded) (undecided : c.Undecided) (grounded : c.GroundedIn s) :
    (Site.exec cfg c s).2.Grounded ∧ s.RetainedBy (Site.exec cfg c s).2 := by
  obtain ⟨store, patches⟩ := Site.retained_store cfg h grounded
  obtain ⟨authorizations, moved⟩ := Site.undecided_exec cfg undecided s
  obtain ⟨more, log, _⟩ := Site.log_exec cfg s c
  refine ⟨⟨store, ?_, ?_, ?_, ?_, ?_, ?_⟩, patches, by rw [authorizations], by rw [log]; exact List.prefix_append _ _⟩
  · rcases Site.view_exec cfg c s with same | ⟨rfl, read⟩
    · rw [same]
      exact h.view.grows patches
    · rw [read]
      exact h.store.of.grows patches
  · rcases Site.context_runtime_exec cfg c s with same | ⟨part, rfl, installed⟩
    · rw [same.1, same.2]
      exact h.installed.grows patches
    · rw [installed, installContextSnapshot]
      split
      · exact h.installed.grows patches
      · exact (Snapshot.Of.shown grounded).grows patches
  · rw [authorizations]
    exact fun a member => (h.passes a member).grows patches
  · intro id r stored
    rcases moved id r stored with same | late | ⟨ref, rfl⟩
    · exact h.decided id r same
    · refine ⟨fun authorized => ?_, fun _ => by omega⟩
      rw [authorized] at late
      exact absurd late (by decide)
    · exact ⟨(fun h => by cases h), (fun h => by cases h)⟩
  · rw [authorizations]
    intro id r stored executes
    rcases Site.bases_exec cfg undecided s id r stored with ⟨before, was, kept⟩ | ⟨ref, rfl⟩
    · obtain ⟨a, passed, own, backs⟩ := h.records id before was (kept.outcome executes)
      exact ⟨a, passed, own, backs.kept kept⟩
    · cases executes
  · rw [authorizations]
    intro entry member g its
    rcases Site.grants_exec c member its with old | ⟨req, rfl, natural, rfl⟩
    · obtain ⟨natural, a, passed, own, asks, shown⟩ := h.log entry old g its
      refine ⟨natural, a, passed, own, asks, ?_⟩
      obtain ⟨more, appended⟩ := patches
      have bound := (h.store.log.authorizing entry old g its).version
      rw [← appended, List.take_append_of_le_length bound]
      exact shown
    · obtain ⟨a, passed, own, asks⟩ := grounded
      refine ⟨natural, a, passed, own, asks, ?_⟩
      obtain ⟨more, appended⟩ := patches
      rw [← appended, h.store.version, List.take_left' rfl]
      exact h.passes a passed

/-- A pass decides on its own record only, and backs the decision to execute. -/
structure Site.Backed (s : Site) (id : Str) (pass : Authorization) (rt : Runtime) : Prop where
  alone : Local id s.runtime rt
  own : ∀ r, rt.records.get id = some r → s.runtime.records.get id = some r ∨ (r.state = .authorized → r.outcome = some .execute) ∧
    (r.outcome = some .execute → s.state id ≠ some .authorized ∧ r.state = .authorized ∧ pass.Backs r)

theorem Site.Grounded.traced (h : s.Grounded) (pass : Authorization) {rt : Runtime} (backed : s.Backed pass.id pass rt)
    (shown : pass.context.Shown s.store.patches pass.version) :
    (({ s with runtime := rt } : Site).traced s pass).Grounded ∧ s.RetainedBy (({ s with runtime := rt } : Site).traced s pass) := by
  have kept : ∀ a ∈ s.authorizations, a ∈ (({ s with runtime := rt } : Site).traced s pass).authorizations := by
    intro a member
    simp only [Site.traced]
    split
    · exact List.mem_append_left _ member
    · exact member
  have new : ∀ a ∈ (({ s with runtime := rt } : Site).traced s pass).authorizations, a ∈ s.authorizations ∨ a = pass := by
    intro a member
    simp only [Site.traced] at member
    split at member
    · exact (List.mem_append.mp member).imp_right List.mem_singleton.mp
    · exact Or.inl member
  have other : ∀ {id r}, rt.records.get id = some r → id ≠ pass.id → s.runtime.records.get id = some r := fun stored ne =>
    (backed.alone.others _ ne).symm.trans stored
  refine ⟨⟨h.store, h.view, ?_, fun a member => ?_, fun id r stored => ?_, fun id r stored executes => ?_,
    fun entry member g its => ?_⟩, List.prefix_refl _, ?_, List.prefix_refl _⟩
  · show rt.context.Shown s.store.patches rt.contextVersion
    rw [backed.alone.context, backed.alone.contextVersion]
    exact h.installed
  · rcases new a member with old | rfl
    · exact h.passes a old
    · exact shown
  · by_cases own : id = pass.id
    · subst own
      rcases backed.own r stored with before | ⟨decided, backs⟩
      · exact h.decided _ r before
      · refine ⟨decided, fun executes => ?_⟩
        rw [(backs executes).2.1]
        decide
    · exact h.decided id r (other stored own)
  · by_cases own : id = pass.id
    · subst own
      rcases backed.own r stored with before | ⟨_, backs⟩
      · obtain ⟨a, passed, its, backs⟩ := h.records _ r before executes
        exact ⟨a, kept a passed, its, backs⟩
      · obtain ⟨first, state, backs⟩ := backs executes
        refine ⟨pass, ?_, rfl, backs⟩
        have now : rt.records.get pass.id = some r := stored
        simp only [Site.traced]
        rw [if_pos ⟨first, by rw [Site.state]; simp only [now, Option.map_some, state]⟩]
        exact List.mem_append_right _ List.mem_cons_self
    · obtain ⟨a, passed, its, backs⟩ := h.records id r (other stored own) executes
      exact ⟨a, kept a passed, its, backs⟩
  · obtain ⟨natural, a, passed, own, asks, shown⟩ := h.log entry member g its
    exact ⟨natural, a, kept a passed, own, asks, shown⟩
  · simp only [Site.traced]
    split
    · exact List.prefix_append _ _
    · exact List.prefix_refl _

variable (cfg) in
/-- A validation pass. -/
theorem Site.Grounded.process (h : s.Grounded) (ticket : Nat) (ref : Ref) {call : ProcessCall} (rests : call.Rests s.store.patches) :
    (s.process cfg ticket ref call).2.Grounded ∧ s.RetainedBy (s.process cfg ticket ref call).2 := by
  have rests' : ({ call with now := s.clock, requeue := false } : ProcessCall).Rests s.store.patches :=
    ⟨rests.bare, rests.context, rests.paths, rests.preds⟩
  have shown := rests'.shown h.installed
  have ends := (ends_processIntent cfg.config { call with now := s.clock, requeue := false } s.runtime ref).and
    (ends_processIntent_backs cfg.config rests' ticket s.life)
  have raises := raises_processIntent cfg.config { call with now := s.clock, requeue := false } ref s.runtime
  have unauthorized : s.runtime.Open (s.runtime.heap ref).id → s.state (s.runtime.heap ref).id ≠ some .authorized := by
    intro opened authorized
    obtain ⟨q, was, state⟩ := Option.map_eq_some_iff.mp authorized
    have validatable := opened q was
    rw [state] at validatable
    cases validatable
  simp only [Site.process, Site.runs]
  cases run : processIntent cfg.config { call with now := s.clock, requeue := false } ref s.runtime with
  | ok a rt =>
    obtain ⟨⟨alone, verdict⟩, backs⟩ := ends.of_run_ok run
    refine Site.Grounded.traced h (ProcessCall.pass { call with now := s.clock, requeue := false } ticket s.life ref s.runtime rt)
      ⟨alone, fun r stored => ?_⟩ shown
    rcases backs with rfl | ⟨decided, backs⟩
    · exact Or.inl stored
    cases verdict with
    | kept present closed same => subst same; exact Or.inl stored
    | stopped opened stored' state _ _ _ =>
      obtain rfl := Option.some.inj (stored'.symm.trans stored)
      exact Or.inr ⟨decided, fun executes => ⟨unauthorized opened, state, backs executes⟩⟩
    | refused opened stored' _ outcome _ =>
      obtain rfl := Option.some.inj (stored'.symm.trans stored)
      obtain ⟨o, its, ne⟩ := outcome
      exact Or.inr ⟨decided, fun executes => absurd (Option.some.inj (its.symm.trans executes)) ne⟩
    | authorized opened stored' granted _ =>
      obtain rfl := Option.some.inj (stored'.symm.trans stored)
      exact Or.inr ⟨decided, fun executes => ⟨unauthorized opened, granted.state, backs executes⟩⟩
  | error e rt =>
    obtain ⟨⟨alone, opened, ⟨record, stored', validating⟩, _⟩, _⟩ := ends.of_run_error run
    refine Site.Grounded.traced h (ProcessCall.pass { call with now := s.clock, requeue := false } ticket s.life ref s.runtime rt)
      ⟨alone, fun r stored => ?_⟩ shown
    obtain rfl := Option.some.inj (stored'.symm.trans stored)
    refine Or.inr ⟨fun authorized => (by cases validating.symm.trans authorized), fun executes => ?_⟩
    -- what can be validated has not been decided to be executed
    obtain ⟨q, was, before⟩ := (raises.of_run_error run) _ record stored executes
    have past := (h.decided _ q was).past before
    have validatable := opened q was
    generalize q.state = state at past validatable
    cases state <;> first | exact absurd past (by decide) | cases validatable

end

/-! ### Requests -/

variable (cfg) in
/-- Every request keeps what is known, and the histories only grow. -/
def backing : Discipline (site cfg) HttpJob where
  Inv := Site.Grounded
  Step _ _ s s' := s.RetainedBy s'
  Rely _ s s' := s.RetainedBy s'
  step_refl _ _ s := Site.RetainedBy.refl s
  rely_refl _ s := Site.RetainedBy.refl s
  rely_trans _ _ _ _ first second := first.trans second
  rely_of_step _ _ _ _ _ _ step := step

/-- The judgement for a call of a request. -/
abbrev Backing (cfg : SiteConfig) (t : Nat) (job : HttpJob) {α : Type} (m : Handler cfg α) (s : Site) (ok : α → Site → Prop) : Prop :=
  Method.Runs (backing cfg) t job (fun _ _ _ => True) m () s (fun a _ => ok a) fun _ _ _ => True

/-- The steps that need nothing. -/
def SiteCommand.Ungrounded : SiteCommand → Prop
  | .install _ => False
  | .process _ _ _ => False
  | .update _ => False
  | .commitAuthorization _ => False
  | c => c.Undecided

variable {t : Nat} {job : HttpJob} {ticket : Nat} {s : Site} {α β : Type}

theorem keeps_backing (c : SiteCommand) (s : Site) (_ : Fate) (sent : c.Ungrounded) (inv : s.Grounded) (_ : True) :
    (Site.exec cfg c s).2.Grounded ∧ s.RetainedBy (Site.exec cfg c s).2 := by
  refine Site.Grounded.exec cfg inv ?_ ?_
  · cases c <;> first | exact sent | exact sent.elim
  · cases c <;> trivial

theorem backing_sends {m : Handler cfg α} (sends : Method.Sends SiteCommand.Ungrounded m) : Backing cfg t job m s fun _ _ => True :=
  (Method.Runs.of_sends keeps_backing sends).imp (fun _ _ _ _ h => h) fun _ _ _ _ h => h

theorem backing_bind {m : Handler cfg β} {f : β → Handler cfg α} {P : β → Site → Prop} {ok : α → Site → Prop}
    (inv : s.Grounded) (h : Backing cfg t job m s P)
    (later : ∀ b (s' : Site), s'.Grounded → s.RetainedBy s' → P b s' → Backing cfg t job (f b) s' ok) :
    Backing cfg t job (m >>= f) s ok :=
  Method.runs_bind_since (fun _ _ _ first second => first.trans second) (fun _ _ h => h) (fun _ _ h => h) inv h
    fun b _ s' => later b s'

theorem backing_done {m : Handler cfg α} {ok : α → Site → Prop} (h : Backing cfg t job m s ok) : Backing cfg t job m s fun _ _ => True :=
  h.imp (fun _ _ _ _ _ => trivial) fun _ _ _ _ _ => trivial

/-- A step with what it needs. -/
theorem backing_step {c : SiteCommand} {P : c.Reply → Site → Prop} (undecided : c.Undecided)
    (grounded : ∀ s' : Site, s.RetainedBy s' → c.GroundedIn s')
    (replied : ∀ s' : Site, s'.Grounded → ∀ s'' : Site, (Site.exec cfg c s').2.RetainedBy s'' → P (Site.exec cfg c s').1 s'') :
    Backing cfg t job (step c) s P :=
  Method.runs_guarded (fun s' _ onward inv _ => Site.Grounded.exec cfg inv undecided (grounded s' onward))
    fun s' _ inv _ s'' onward _ => replied s' inv s'' onward

theorem backing_readSnapshot (inv : s.Grounded) :
    Backing cfg t job readSnapshot s fun read s' => Snapshot.Of read.1 s'.store.patches := by
  refine backing_bind inv (P := fun reply s' => ∀ snapshot : Snapshot, reply = some snapshot → snapshot.Of s'.store.patches) ?_ ?_
  · refine runs_attempted inv (backing_step trivial (fun _ _ => trivial) fun s' inv' s'' onward snapshot same => ?_)
      fun _ _ none => nomatch none
    obtain rfl := Option.some.inj same
    exact inv'.store.of.grows onward.patches
  · intro reply s₁ inv₁ _ its
    cases reply with
    | some snapshot =>
      have of := its snapshot rfl
      refine backing_bind inv₁ (P := fun _ _ => True) (backing_step trivial (fun s' onward => of.grows onward.patches)
        fun _ _ _ _ => trivial) fun _ s₂ _ onward _ => ?_
      exact Method.runs_pure fun s₃ onward' _ => (of.grows onward.patches).grows (Site.RetainedBy.patches onward')
    | none =>
      refine backing_bind inv₁ (P := fun last s' => Snapshot.Of last s'.store.patches) (backing_step trivial (fun _ _ => trivial)
        fun s' inv' s'' onward => inv'.view.grows onward.patches) fun last s₂ _ _ of => ?_
      exact Method.runs_pure fun s₃ onward' _ => of.grows (Site.RetainedBy.patches onward')

theorem backing_updateContextStore (inv : s.Grounded) {patch : Members} (wf : patch.WF) :
    Backing cfg t job (updateContextStore patch) s fun _ _ => True := by
  refine backing_bind inv (P := fun _ _ => True) (runs_attempted inv (backing_step trivial (fun _ _ => wf) fun _ _ _ _ => trivial)
    fun _ => trivial) fun _ s₁ inv₁ _ _ => ?_
  refine Method.runs_ite (fun _ => ?_) fun _ => Method.runs_pure fun _ _ _ => trivial
  exact backing_bind inv₁ (backing_readSnapshot inv₁) fun _ _ _ _ _ => Method.runs_pure fun _ _ _ => trivial

omit [PyText] in
theorem wf_stopPatch (key : Str) (epoch : Int) : (stopPatch key epoch).WF := by
  simp [stopPatch, Members.single, Members.WF, Json.WF, Members.keys]

theorem backing_withStopLock (inv : s.Grounded) (ticket : Nat) {body : Handler cfg α}
    (h : ∀ s' : Site, s'.Grounded → Backing cfg t job body s' fun _ _ => True) :
    Backing cfg t job (withStopLock ticket body) s fun _ _ => True := by
  refine backing_bind inv (backing_sends (sends_step (c := .acquireStopLock ticket) trivial)) fun _ s₁ inv₁ _ _ => ?_
  refine backing_bind inv₁ (P := fun _ _ => True) ?_ fun out s₂ inv₂ _ _ => ?_
  · refine Method.runs_tryCatch inv₁ ((h s₁ inv₁).imp (fun _ _ _ _ _ => trivial) fun e _ s' _ _ inv' => ?_)
    exact backing_bind inv' (backing_sends (sends_step (c := .releaseStopLock) trivial)) fun _ _ _ _ _ =>
      Method.runs_throw fun _ _ _ => trivial
  · exact backing_bind inv₂ (backing_sends (sends_step (c := .releaseStopLock) trivial)) fun _ _ _ _ _ =>
      Method.runs_pure fun _ _ _ => trivial

theorem backing_initStopEpoch (inv : s.Grounded) (key : Str) : Backing cfg t job (initStopEpoch key) s fun _ _ => True := by
  refine backing_bind inv (backing_readSnapshot inv) fun read s₁ inv₁ _ _ => ?_
  obtain ⟨snapshot, trusted⟩ := read
  refine Method.runs_ite (fun _ => ?_) fun _ => Method.runs_pure fun _ _ _ => trivial
  split
  · exact Method.runs_throw fun _ _ _ => trivial
  · exact Method.runs_pure fun _ _ _ => trivial
  · exact backing_bind inv₁ (backing_updateContextStore inv₁ (wf_stopPatch key 0)) fun _ _ _ _ _ => Method.runs_pure fun _ _ _ => trivial

theorem backing_fenceIntent (inv : s.Grounded) (ticket : Nat) (ref : Ref) : Backing cfg t job (fenceIntent ticket ref) s fun _ _ => True := by
  refine backing_bind inv (backing_sends (sends_step (c := .actionClass ref) trivial)) fun cls s₁ inv₁ _ _ => ?_
  refine Method.runs_ite (fun _ => Method.runs_pure fun _ _ _ => trivial) fun _ => ?_
  refine backing_bind inv₁ (backing_sends (sends_step (c := .intent ref) trivial)) fun i s₂ inv₂ _ _ => ?_
  refine backing_bind inv₂ (backing_withStopLock inv₂ ticket fun s' inv' => backing_initStopEpoch inv' _) fun trusted s₃ inv₃ _ _ => ?_
  refine Method.runs_ite (fun _ => ?_) fun _ => Method.runs_pure fun _ _ _ => trivial
  exact backing_sends (Method.sends_bind (sends_step (c := .intent ref) trivial) fun i => sends_step trivial)

theorem backing_recordStop (inv : s.Grounded) (ticket : Nat) (ref : Ref) (id : Str) (record : IntentRecord) :
    Backing cfg t job (recordStop ticket ref id record) s fun _ _ => True := by
  refine backing_bind inv (backing_sends (sends_step (c := .current id record) trivial)) fun now s₁ inv₁ _ _ => ?_
  refine Method.runs_ite (fun _ => Method.runs_pure fun _ _ _ => trivial) fun _ => ?_
  refine backing_bind inv₁ (backing_sends (sends_step (c := .intent ref) trivial)) fun i s₂ inv₂ _ _ => ?_
  refine backing_bind inv₂ (backing_withStopLock inv₂ ticket fun s' inv' => ?_) fun _ s₃ inv₃ _ _ => ?_
  · exact backing_bind inv' (backing_sends (sends_step (c := .time) trivial)) fun now _ inv₃ _ _ =>
      backing_updateContextStore inv₃ (wf_stopPatch _ _)
  · exact backing_sends (Method.sends_bind (sends_attempted (by exact rfl)) fun _ => Method.sends_pure _)

/-! ### Submissions -/

variable (cfg) in
/-- What the store returns of its snapshot. -/
theorem MemoryStore.Inv.read {m : MemoryStore} (inv : m.Inv) (exprs : List Str) : (cfg.read exprs m).Of m.patches := by
  have restricts := restrictsTo_read cfg exprs m
  have version : (cfg.read exprs m).snapshot.version = m.snapshot.version := restricts.version
  refine ⟨⟨?_, cfg.layout.reads exprs, ?_⟩, fun expr entry stored => ?_⟩
  · rw [version, inv.version]
  · rw [version, inv.version, atVersion_length, ← inv.snapshot]
    exact restricts
  · rw [version, inv.version]
    have its : m.preds.get expr = some entry := by
      rw [SiteConfig.read] at stored
      split at stored
      · exact (get_insertAll_present.mp stored).2
      · exact stored
    exact (inv.entries expr entry its).1

theorem backing_registeredSnapshot (inv : s.Grounded) (exprs : List Str) : Backing cfg t job (registeredSnapshot exprs) s fun doc s' =>
    doc.trusted = true → doc.Of s'.store.patches := by
  refine backing_bind inv (P := fun reply s' => ∀ doc : SnapshotDoc, reply = some doc → doc.trusted = true → doc.Of s'.store.patches)
    (runs_attempted inv (backing_step trivial (fun _ _ => trivial) fun s' inv' s'' onward doc same trusted => ?_)
      fun _ _ none => by cases none) fun reply s₁ inv₁ _ its => ?_
  · obtain rfl := Option.some.inj same
    refine SnapshotDoc.Of.grows ?_ onward.patches
    simp only [Site.exec] at trusted ⊢
    split at trusted
    · rename_i m run
      have registered := inv'.store.register cfg.predicateRetentionS (s'.clock / 1000) exprs
      rw [run] at registered
      exact MemoryStore.Inv.read cfg registered.1 exprs
    · cases trusted
  · cases reply with
    | some doc =>
      refine Method.runs_ite (fun _ => Method.runs_throw fun _ _ _ => trivial) fun _ => ?_
      exact Method.runs_pure fun s₂ onward _ trusted => (its doc rfl trusted).grows (Site.RetainedBy.patches onward)
    | none =>
      refine backing_bind inv₁ (backing_sends (sends_step (c := .lastView) trivial)) fun last _ _ _ _ => ?_
      exact Method.runs_pure fun _ _ _ trusted => by cases trusted

/-- What a pass is given holds of every later store. -/
def SoundCall (call : (Nat → Bool) → ProcessCall) (s : Site) : Prop :=
  ∀ s' : Site, s.RetainedBy s' → ∀ timedOut, (call timedOut).Rests s'.store.patches

theorem SoundCall.retained {call : (Nat → Bool) → ProcessCall} {s' : Site} (h : SoundCall call s) (onward : s.RetainedBy s') : SoundCall call s' :=
  fun s'' later => h s'' (onward.trans later)

theorem backing_processNow (inv : s.Grounded) (ref : Ref) (timedOut : Nat → Bool) {call : (Nat → Bool) → ProcessCall} (sound : SoundCall call s) :
    Backing cfg t job (processNow ticket ref (call timedOut)) s fun _ _ => True := by
  refine backing_bind inv (P := fun _ _ => True) (Method.runs_guarded (fun s' _ onward inv' _ => ?_) fun _ _ _ _ _ _ _ => trivial)
    fun reply _ _ _ _ => backing_sends (sends_answered reply)
  exact inv'.process cfg ticket ref (sound s' onward timedOut)

theorem backing_validateNow (inv : s.Grounded) (ref : Ref) (id : Str) {call : (Nat → Bool) → ProcessCall} (sound : SoundCall call s)
    (timedOut : Nat → Nat → Bool) : Backing cfg t job (validateNow ticket ref id call timedOut) s fun _ _ => True := by
  refine backing_bind inv (backing_processNow inv ref _ sound) fun record s₁ inv₁ onward₁ _ => ?_
  refine backing_bind inv₁ (backing_sends (sends_step (c := .current id record) trivial)) fun now s₂ inv₂ onward₂ _ => ?_
  exact Method.runs_ite (fun _ => backing_processNow inv₂ _ _ ((sound.retained onward₁).retained onward₂)) fun _ =>
    Method.runs_pure fun _ _ _ => trivial

theorem ungrounded_answer (id : Str) (record : IntentRecord) (duplicate : Bool) (context : Option Members) :
    Method.Sends SiteCommand.Ungrounded (answer id record duplicate context : Handler cfg SubmitAnswer) :=
  Method.sends_bind (sends_step (by exact trivial)) fun _ =>
    Method.sends_ite (Method.sends_bind (sends_step (by exact trivial)) fun _ => Method.sends_pure _) (Method.sends_pure _)

theorem ungrounded_withdraw (id : Str) (reason : String) :
    Method.Sends SiteCommand.Ungrounded (withdraw id reason : Handler cfg IntentRecord) :=
  Method.sends_bind (sends_step ⟨rfl, by simp⟩) fun reply => sends_answered reply

theorem backing_validateFresh (inv : s.Grounded) (ref : Ref) (id : Str) (timedOut : Nat → Nat → Bool) :
    Backing cfg t job (validateFresh ticket ref id timedOut) s fun _ _ => True := by
  refine backing_bind inv (backing_fenceIntent inv ticket ref) fun _ s₁ inv₁ _ _ => ?_
  refine backing_bind inv₁ (backing_sends (sends_step (c := .prepare ref) trivial)) fun exprs s₂ inv₂ _ _ => ?_
  refine backing_bind inv₂ (backing_registeredSnapshot inv₂ exprs) fun doc s₃ inv₃ _ its => ?_
  refine Method.runs_ite (fun trusted => ?_) fun _ => ?_
  · have sound : SoundCall (snapshotCall doc) s₃ := fun s' onward timedOut => ((its trusted).grows onward.patches).rests timedOut
    have validated : ∀ s' : Site, s'.Grounded → s₃.RetainedBy s' → Backing cfg t job (do
        let record ← validateNow ticket ref id (snapshotCall doc) timedOut
        answer id record false (some doc.snapshot.context)) s' fun _ _ => True := fun s' inv' onward =>
      backing_bind inv' (backing_validateNow inv' ref id (sound.retained onward) timedOut) fun record _ _ _ _ =>
        backing_sends (ungrounded_answer _ _ _ _)
    refine Method.runs_ite (fun _ => ?_) fun _ => validated s₃ inv₃ (Site.RetainedBy.refl s₃)
    refine backing_bind inv₃ (P := fun _ _ => True) (backing_step (c := .install doc.snapshot) trivial
      (fun s' onward => ((its trusted).grows onward.patches).snapshot) fun _ _ _ _ => trivial) fun _ s₄ inv₄ onward _ => validated s₄ inv₄ onward
  · exact backing_sends (Method.sends_bind (ungrounded_withdraw id _) fun _ => Method.sends_pure _)

theorem sound_installedCall (s : Site) : SoundCall installedCall s := fun s' _ timedOut => rests_installedCall timedOut s'.store.patches

theorem backing_submitAdmitted (inv : s.Grounded) (ref : Ref) (id : Str) (firstAdmission : Bool) (timedOut : Nat → Nat → Bool) :
    Backing cfg t job (submitAdmitted ticket ref id firstAdmission timedOut) s fun _ _ => True := by
  refine backing_bind inv (backing_sends (sends_step (c := .actionClass ref) trivial)) fun cls s₁ inv₁ _ _ => ?_
  refine Method.runs_ite (fun _ => ?_) fun _ => Method.runs_ite (fun _ => ?_) fun _ => backing_validateFresh inv₁ ref id timedOut
  · refine backing_bind inv₁ (backing_validateNow inv₁ ref id (sound_installedCall s₁) timedOut) fun record s₂ inv₂ _ _ => ?_
    exact backing_bind inv₂ (backing_recordStop inv₂ ticket ref id record) fun _ _ _ _ _ => backing_sends (ungrounded_answer _ _ _ _)
  · refine backing_bind inv₁ (backing_sends (sends_attempted (c := .claimIntent id) trivial)) fun claimed s₂ inv₂ _ _ => ?_
    refine Method.runs_ite (fun _ => backing_validateFresh inv₂ ref id timedOut) fun _ => ?_
    exact backing_sends (Method.sends_bind (ungrounded_withdraw id _) fun _ => Method.sends_pure _)

theorem backing_submitIntent (inv : s.Grounded) (body : Option ActionIntent) (timedOut : Nat → Nat → Bool) :
    Backing cfg t job (submitIntent ticket body timedOut) s fun _ _ => True := by
  cases body with
  | none => exact backing_bind inv (backing_readSnapshot inv) fun _ _ _ _ _ => Method.runs_pure fun _ _ _ => trivial
  | some i =>
    refine backing_bind inv (backing_sends (sends_step (c := .create { i with policyAdded := none }) trivial)) fun ref s₁ inv₁ _ _ => ?_
    refine backing_bind inv₁ (backing_sends (sends_step (c := .admitIntent ref) trivial)) fun reply s₂ inv₂ _ _ => ?_
    refine backing_bind inv₂ (backing_sends (sends_answered reply)) fun a s₃ inv₃ _ _ => ?_
    obtain ⟨record, duplicate⟩ := a
    refine Method.runs_ite (fun _ => ?_) fun _ => backing_submitAdmitted inv₃ ref i.id true timedOut
    refine backing_bind inv₃ (backing_sends (sends_step (c := .current i.id record) trivial)) fun now s₄ inv₄ _ _ => ?_
    exact Method.runs_ite (fun _ => backing_submitAdmitted inv₄ _ i.id false timedOut) fun _ => backing_sends (ungrounded_answer _ _ _ _)

/-! ### Batches -/

variable {item : Item}

theorem ungrounded_itemResult (item : Item) (record : IntentRecord) :
    Method.Sends SiteCommand.Ungrounded (itemResult item record : Handler cfg BatchResult) :=
  Method.sends_bind (sends_step (by exact trivial)) fun _ => Method.sends_pure _

theorem ungrounded_admitItem (item : Item) :
    Method.Sends SiteCommand.Ungrounded (admitItem item : Handler cfg (IntentRecord × Bool)) :=
  Method.sends_bind (sends_step (c := .admitIntent item.1) trivial) fun reply => sends_answered reply

theorem ungrounded_batchLoser (reason : String) (item : Item) :
    Method.Sends SiteCommand.Ungrounded (batchLoser reason item : Handler cfg BatchResult) := by
  refine Method.sends_bind (ungrounded_admitItem item) fun a => Method.sends_ite (ungrounded_itemResult _ _) ?_
  exact Method.sends_bind (ungrounded_withdraw _ _) fun _ => ungrounded_itemResult _ _

theorem ungrounded_sortItem (trusted : Bool) (body : Except BatchResult ActionIntent) :
    Method.Sends SiteCommand.Ungrounded (sortItem trusted body : Handler cfg Sorted) := by
  cases body with
  | error result => exact Method.sends_pure _
  | ok i =>
    refine Method.sends_bind (sends_step (by exact trivial)) fun ref => ?_
    refine Method.sends_bind (sends_step (c := .actionClass ref) trivial) fun cls => ?_
    exact Method.sends_ite (Method.sends_pure _) (Method.sends_ite (Method.sends_pure _) (Method.sends_pure _))

theorem backing_batchStop (inv : s.Grounded) (timedOut : Ref → Nat → Nat → Bool) (item : Item) :
    Backing cfg t job (batchStop ticket timedOut item) s fun _ _ => True := by
  refine backing_bind inv (backing_sends (ungrounded_admitItem item)) fun a s₁ inv₁ _ _ => ?_
  refine backing_bind inv₁ (backing_sends (sends_step (c := .current item.2.id a.1) trivial)) fun now s₂ inv₂ _ _ => ?_
  refine Method.runs_ite (fun _ => ?_) fun _ => backing_sends (ungrounded_itemResult _ _)
  refine backing_bind inv₂ (backing_validateNow inv₂ _ _ (sound_installedCall s₂) _) fun record s₃ inv₃ _ _ => ?_
  exact backing_bind inv₃ (backing_recordStop inv₃ _ _ _ _) fun _ _ _ _ _ => backing_sends (ungrounded_itemResult _ _)

theorem backing_batchWinner (inv : s.Grounded) (timedOut : Ref → Nat → Nat → Bool) (item : Item) :
    Backing cfg t job (batchWinner ticket timedOut item) s fun _ _ => True := by
  refine backing_bind inv (backing_sends (ungrounded_admitItem item)) fun a s₁ inv₁ _ _ => ?_
  refine Method.runs_ite (fun _ => backing_sends (ungrounded_itemResult _ _)) fun _ => ?_
  refine backing_bind inv₁ (backing_fenceIntent inv₁ ticket item.1) fun _ s₂ inv₂ _ _ => ?_
  refine backing_bind inv₂ (backing_readSnapshot inv₂) fun read s₃ inv₃ _ of => ?_
  have sound : SoundCall (contextCall read.1) s₃ := fun s' onward timedOut => (of.grows onward.patches).rests timedOut
  refine backing_bind inv₃ (backing_validateNow inv₃ _ _ sound _) fun record s₄ inv₄ _ _ => ?_
  refine backing_sends (Method.sends_bind (sends_step (c := .current item.2.id record) trivial) fun now => ?_)
  exact Method.sends_ite (Method.sends_bind (sends_step (c := .releaseTarget now) trivial) fun _ => ungrounded_itemResult _ _)
    (ungrounded_itemResult _ _)

theorem backing_each {γ δ : Type} {f : γ → Handler cfg δ}
    (item : ∀ (s : Site) a, s.Grounded → Backing cfg t job (f a) s fun _ _ => True) (xs : List γ) (inv : s.Grounded) :
    Backing cfg t job (each f xs) s fun _ _ => True :=
  backing_done (runs_each (R := Site.RetainedBy) (K := fun _ _ => True) (Q := fun _ _ => True) (fun _ _ _ first second => first.trans second)
    (fun _ _ h => h) (fun _ _ h => h) (fun _ _ _ _ h => h) (fun _ _ _ _ h => h) (fun s a inv _ => item s a inv) xs inv fun _ _ => trivial)

theorem backing_submitIntentBatch (inv : s.Grounded) (bodies : List (Except BatchResult ActionIntent)) (timedOut : Ref → Nat → Nat → Bool) :
    Backing cfg t job (submitIntentBatch ticket bodies timedOut) s fun _ _ => True := by
  refine backing_bind inv (backing_readSnapshot inv) fun read s₁ inv₁ _ _ => ?_
  refine backing_bind inv₁ (backing_sends (sends_each (ungrounded_sortItem read.2) _)) fun sorted s₂ inv₂ _ _ => ?_
  refine backing_bind inv₂ (backing_each (fun _ item inv => backing_batchStop inv timedOut item) _ inv₂) fun _ s₃ inv₃ _ _ => ?_
  refine backing_bind inv₃ (backing_sends (sends_each (ungrounded_batchLoser _) _)) fun _ s₄ inv₄ _ _ => ?_
  refine backing_bind inv₄ (backing_sends (sends_each (ungrounded_batchLoser _) _)) fun _ s₅ inv₅ _ _ => ?_
  exact backing_bind inv₅ (backing_each (fun _ item inv => backing_batchWinner inv timedOut item) _ inv₅) fun _ _ _ _ _ =>
    Method.runs_pure fun _ _ _ => trivial

/-! ### Other requests -/

/-- The document of the store, where its entries are cut to some predicates. -/
theorem MemoryStore.Inv.readWith {m : MemoryStore} (inv : m.Inv) (exprs : List Str) :
    SnapshotDoc.Of (if exprs = [] then ⟨m.snapshot, Dict.empty, true⟩
      else { cfg.read exprs m with preds := restrictPreds m.preds exprs }) m.patches := by
  split
  · exact ⟨inv.of, fun _ _ stored => nomatch stored⟩
  · have of := MemoryStore.Inv.read cfg inv exprs
    refine ⟨of.snapshot, fun expr entry stored => ?_⟩
    rw [(restrictsTo_read cfg exprs m).version, inv.version]
    exact (inv.entries expr entry (get_insertAll_present.mp stored).2).1

theorem backing_snapshotDocument (inv : s.Grounded) (exprs : Option (List Str)) :
    Backing cfg t job (snapshotDocument exprs) s fun _ _ => True := by
  cases exprs with
  | none => exact backing_bind inv (backing_readSnapshot inv) fun _ _ _ _ _ => Method.runs_pure fun _ _ _ => trivial
  | some exprs =>
    refine backing_bind inv (P := fun reply s' => ∀ doc : SnapshotDoc, reply = some doc → doc.Of s'.store.patches)
      (runs_attempted inv (backing_step trivial (fun _ _ => trivial) fun s' inv' s'' onward doc same => ?_)
        fun _ _ none => nomatch none) fun reply s₁ inv₁ _ its => ?_
    · obtain rfl := Option.some.inj same
      exact (inv'.store.readWith exprs).grows onward.patches
    · cases reply with
      | some doc =>
        refine Method.runs_ite (fun _ => ?_) fun _ => Method.runs_pure fun _ _ _ => trivial
        exact backing_bind inv₁ (P := fun _ _ => True) (backing_step (c := .install doc.snapshot) trivial
          (fun s' onward => ((its doc rfl).grows onward.patches).snapshot) fun _ _ _ _ => trivial) fun _ _ _ _ _ =>
            Method.runs_pure fun _ _ _ => trivial
      | none => exact backing_bind inv₁ (backing_sends (sends_step (c := .lastView) trivial)) fun _ _ _ _ _ =>
          Method.runs_pure fun _ _ _ => trivial

/-- What the request writes to the context is JSON with each key once. -/
def Request.Written : Request → Prop
  | update patch => patch.WF
  | _ => True

/-- Every request but a commit. -/
theorem backing_handle (inv : s.Grounded) {request : Request} (written : request.Written)
    (other : ∀ id scope marginMs, request ≠ .commit id scope marginMs) :
    Backing cfg t job (request.handle cfg t) s fun _ _ => True := by
  cases request with
  | submit body timedOut =>
    exact backing_bind inv (backing_submitIntent inv body timedOut) fun _ _ _ _ _ => Method.runs_pure fun _ _ _ => trivial
  | batch bodies timedOut =>
    exact backing_bind inv (backing_submitIntentBatch inv bodies timedOut) fun _ _ _ _ _ => Method.runs_pure fun _ _ _ => trivial
  | commit id scope marginMs => exact absurd rfl (other id scope marginMs)
  | release id released reason cv rv observed =>
    refine backing_sends (Method.sends_bind (Method.sends_bind (sends_step (by exact trivial)) fun reply =>
      Method.sends_bind (sends_answered reply) fun record => ?_) fun _ => Method.sends_pure _)
    cases observed with
    | none => exact Method.sends_pure _
    | some observed =>
      exact Method.sends_ite (Method.sends_bind (sends_step (by exact trivial)) fun reply => sends_answered reply) (Method.sends_pure _)
  | effect id status detail =>
    exact backing_sends (Method.sends_bind (Method.sends_bind (sends_step (by exact trivial)) fun reply => sends_answered reply) fun _ =>
      Method.sends_pure _)
  | withheld id reason append =>
    exact backing_sends (Method.sends_bind (Method.sends_bind (sends_step (by exact trivial)) fun reply => sends_answered reply) fun _ =>
      Method.sends_pure _)
  | revoke id =>
    exact backing_sends (Method.sends_bind (Method.sends_bind (sends_step (by exact trivial)) fun reply => sends_answered reply) fun _ =>
      Method.sends_pure _)
  | update patch =>
    exact backing_bind inv (backing_updateContextStore inv written) fun _ _ _ _ _ => Method.runs_pure fun _ _ _ => trivial
  | snapshot exprs id =>
    refine backing_bind inv (P := fun _ _ => True) (backing_bind inv (backing_snapshotDocument inv exprs) fun doc s₁ inv₁ _ _ => ?_) fun _ _ _ _ _ =>
      Method.runs_pure fun _ _ _ => trivial
    cases id with
    | none => exact Method.runs_pure fun _ _ _ => trivial
    | some id => exact backing_sends (Method.sends_bind (sends_step (by exact trivial)) fun _ => Method.sends_pure _)
  | policy installed => exact backing_sends (Method.sends_bind (sends_step (by exact trivial)) fun _ => Method.sends_pure _)

/-! ### Commits -/

variable (cfg) in
/-- The discipline with the names of the intents. -/
abbrev grounding : Discipline (site cfg) HttpJob := (naming cfg).both id (backing cfg)

/-- The judgement for a commit. -/
abbrev Grounding (cfg : SiteConfig) (t : Nat) (job : HttpJob) {α : Type} (m : Handler cfg α) (s : Site) (ok : α → Site → Prop) : Prop :=
  Method.Runs (grounding cfg) t job (fun _ _ _ => True) m () s (fun a _ => ok a) fun _ _ _ => True

theorem grounding_bind {m : Handler cfg β} {f : β → Handler cfg α} {P : β → Site → Prop} {ok : α → Site → Prop}
    (inv : s.Named ∧ s.Grounded) (h : Grounding cfg t job m s P)
    (later : ∀ b (s' : Site), s'.Named ∧ s'.Grounded → s.Grows s' ∧ s.RetainedBy s' → P b s' → Grounding cfg t job (f b) s' ok) :
    Grounding cfg t job (m >>= f) s ok :=
  Method.runs_bind_since (fun _ _ _ first second => ⟨first.1.trans second.1, first.2.trans second.2⟩) (fun _ _ h => h) (fun _ _ h => h) inv h
    fun b _ s' => later b s'

theorem grounding_step {c : SiteCommand} {P : c.Reply → Site → Prop} (routine : c.Routine) (undecided : c.Undecided)
    (grounded : ∀ s' : Site, s.Grows s' ∧ s.RetainedBy s' → c.GroundedIn s')
    (replied : ∀ s' : Site, s.Grows s' ∧ s.RetainedBy s' → s'.Named ∧ s'.Grounded → ∀ s'' : Site,
      (Site.exec cfg c s').2.Grows s'' ∧ (Site.exec cfg c s').2.RetainedBy s'' → P (Site.exec cfg c s').1 s'') :
    Grounding cfg t job (step c) s P := by
  refine Method.runs_guarded (fun s' fate since inv _ => ?_) fun s' since inv _ s'' since' _ => replied s' since inv s'' since'
  obtain ⟨named, grows⟩ := keeps_naming cfg c s' fate routine inv.1 trivial
  obtain ⟨after, onward⟩ := Site.Grounded.exec cfg inv.2 undecided (grounded s' since)
  exact ⟨⟨named, after⟩, grows, onward⟩

/-- A routine step that needs nothing. -/
theorem grounding_sent {c : SiteCommand} (routine : c.Routine) (undecided : c.Undecided) (nothing : ∀ s' : Site, c.GroundedIn s') :
    Grounding cfg t job (step c) s fun _ _ => True :=
  grounding_step routine undecided (fun s' _ => nothing s') fun _ _ _ _ _ => trivial

theorem grounding_answered {reply : Except RuntimeError α} : Grounding cfg t job (answered reply) s fun _ _ => True := by
  cases reply with
  | ok a => exact Method.runs_pure fun _ _ _ => trivial
  | error e => exact Method.runs_throw fun _ _ _ => trivial

/-- What the endpoint asks for is what the record says. -/
theorem Authorization.Backs.asks {a : Authorization} {record : IntentRecord} (backs : a.Backs record) (config : Config) (i : ActionIntent)
    (scope : Scope) (marginMs : ℚ) : a.Asks (config.commitRequest i record scope marginMs) := by
  cases backs with
  | stop stop readSet predicates =>
    refine .stop stop ?_
    cases scope with
    | readset => exact readSet
    | truth => exact predicates
  | evaluated moving _ holds readSet predicates _ _ readBound predBound =>
    refine .evaluated moving holds ?_ ?_
    · cases scope with
      | readset => exact readSet
      | truth => exact predicates
    · cases scope with
      | readset => exact Int.ofNat_le.mpr readBound
      | truth => exact predBound

theorem grounding_commitAuthorized (inv : s.Named ∧ s.Grounded) {id : Str} {record : IntentRecord} (names : s.Names record.intent id)
    {a : Authorization} (passed : a ∈ s.authorizations) (own : a.id = id) (backs : a.Backs record) (scope : Scope) (marginMs : ℚ) :
    Grounding cfg t job (commitAuthorized id record scope marginMs) s fun _ _ => True := by
  refine grounding_bind inv (grounding_sent (c := .time) trivial trivial fun _ => trivial) fun now s₁ inv₁ since₁ _ => ?_
  refine grounding_bind inv₁ (P := fun i _ => ActionIntent.id i = id) (grounding_step (c := .intent record.intent) trivial trivial (fun _ _ => trivial)
    fun s' since _ _ _ => ((names.grows since₁.1).grows since.1).2) fun i s₂ inv₂ since₂ its => ?_
  have recorded : ∀ {s' : Site} (committed : Bool) (reason : Str) (seq : Option Nat), s'.Named ∧ s'.Grounded →
      ∀ (answer : IntentRecord → CommitAnswer), Grounding cfg t job (do
        let reply : Except RuntimeError IntentRecord ← step (.recordCommit id committed reason seq)
        let final ← answered reply
        return answer final) s' fun _ _ => True := by
    intro s' committed reason seq inv' answer
    refine grounding_bind inv' (grounding_sent (c := .recordCommit id committed reason seq) trivial trivial fun _ => trivial) fun reply s'' inv'' _ _ => ?_
    exact grounding_bind inv'' grounding_answered fun final _ _ _ _ => Method.runs_pure fun _ _ _ => trivial
  refine Method.runs_ite (fun _ => recorded _ _ _ inv₂ _) fun _ => ?_
  refine grounding_bind inv₂ (P := fun _ _ => True) ?_ fun result s₃ inv₃ _ _ => recorded _ _ _ inv₃ _
  refine grounding_bind inv₂ (P := fun _ _ => True) (runs_attempted inv₂ (grounding_step trivial trivial (fun s' since => ?_) fun _ _ _ _ _ => trivial)
    fun _ => trivial) fun reply s₃ inv₃ _ _ => ?_
  · refine ⟨a, ((since₁.2.trans since₂.2).trans since.2).authorizations.subset passed, own.trans its.symm, ?_⟩
    exact backs.asks cfg.config i scope marginMs
  · cases reply with
    | some result => exact Method.runs_pure fun _ _ _ => trivial
    | none =>
      exact grounding_bind inv₃ (grounding_sent (c := .lastView) trivial trivial fun _ => trivial) fun _ _ _ _ _ =>
        Method.runs_pure fun _ _ _ => trivial

theorem grounding_commitIntent (inv : s.Named ∧ s.Grounded) (id : Str) (scope : Scope) (marginMs : ℚ) :
    Grounding cfg t job (commitIntent id scope marginMs) s fun _ _ => True := by
  refine Method.runs_ite (fun _ => Method.runs_throw fun _ _ _ => trivial) fun _ => ?_
  refine grounding_bind inv (P := fun found s' => ∀ record : IntentRecord, found = some record → s'.Names record.intent id ∧
    (record.state = .authorized → ∃ a ∈ s'.authorizations, a.id = id ∧ a.Backs record))
    (grounding_step (c := .recordOf id) trivial trivial (fun _ _ => trivial) fun s' _ inv' s'' since record same => ?_) fun found s₁ inv₁ _ its => ?_
  · refine ⟨(inv'.1 id record same).grows since.1, fun state => ?_⟩
    obtain ⟨a, passed, own, backs⟩ := inv'.2.records id record same ((inv'.2.decided id record same).authorized state)
    exact ⟨a, since.2.authorizations.subset passed, own, backs⟩
  · cases found with
    | none => exact Method.runs_throw fun _ _ _ => trivial
    | some record =>
      obtain ⟨names, authorized⟩ := its record rfl
      refine Method.runs_ite (fun state => ?_) fun _ => Method.runs_throw fun _ _ _ => trivial
      obtain ⟨a, passed, own, backs⟩ := authorized state
      exact grounding_commitAuthorized inv₁ names passed own backs scope marginMs

/-- Every request. -/
theorem grounding_handle (inv : s.Named ∧ s.Grounded) (written : job.request.Written) :
    Grounding cfg t job (job.request.handle cfg t) s fun _ _ => True := by
  by_cases commits : ∃ id scope marginMs, job.request = .commit id scope marginMs
  · obtain ⟨id, scope, marginMs, its⟩ := commits
    rw [its]
    exact grounding_bind inv (grounding_commitIntent inv id scope marginMs) fun _ _ _ _ _ => Method.runs_pure fun _ _ _ => trivial
  · have backed : Backing cfg t job (job.request.handle cfg t) s fun _ _ => True :=
      backing_handle inv.2 written fun id scope marginMs its => commits ⟨id, scope, marginMs, its⟩
    have named : Method.Runs (naming cfg) t (id job) (fun _ _ _ => True) (job.request.handle cfg t) () s (fun _ _ _ => True)
        fun _ _ _ => True := naming_handle inv.1
    exact (Method.Runs.both (fun _ _ _ _ _ _ => ⟨trivial, trivial⟩) named backed).imp
      (fun _ _ _ _ _ => trivial) fun _ _ _ _ _ => trivial

/-! ### Runs -/

/-- The clocks move, or the process is restarted: it begins with the store's context, or an empty one if the store is out of reach. -/
inductive ServerChange where
  | tick (clock mono : ℚ)
  | restart (reached : Bool) (policy : Policy)

/-- `runtime_state.py` reads the store once and gives the context to the runtime. -/
def ServerChange.apply : ServerChange → Site → Site
  | tick clock mono, s => { s with clock := clock, mono := mono }
  | restart reached policy, s =>
    if reached then { s.restart s.store.snapshot.context policy with view := s.store.snapshot } else s.restart .nil policy

variable (cfg) in
/-- The requests of `endpoints`, and the restarts of its process. -/
abbrev apiServer : Workload (site cfg) where
  Job := HttpJob
  Local := Unit
  Out := Except HttpError Response
  code job ticket l := (job.request.handle cfg ticket).program l
  Env := ServerChange
  env := ServerChange.apply

theorem shown_nil (patches : List Members) : Members.Shown .nil patches 0 := by
  refine ⟨0, Nat.le_refl _, Nat.zero_le _, fun expr holds => ?_⟩
  rw [show (atVersion patches 0).context = .nil from rfl]
  exact holds

theorem Site.Grounded.change (h : s.Grounded) (change : ServerChange) : (change.apply s).Grounded ∧ s.RetainedBy (change.apply s) := by
  cases change with
  | tick clock mono => exact ⟨⟨h.store, h.view, h.installed, h.passes, h.decided, h.records, h.log⟩, List.prefix_refl _, List.prefix_refl _, List.prefix_refl _⟩
  | restart reached policy =>
    cases reached with
    | false =>
      exact ⟨⟨h.store, ⟨Nat.zero_le _, fun _ => True, Snapshot.restrictsTo_self _⟩, shown_nil _, h.passes, (fun _ _ stored => nomatch stored),
        (fun _ _ stored => nomatch stored), h.log⟩, List.prefix_refl _, List.prefix_refl _, List.prefix_refl _⟩
    | true =>
      obtain ⟨w, _, bound, holds⟩ := h.store.of.shown
      exact ⟨⟨h.store, h.store.of, ⟨w, Nat.zero_le _, bound, holds⟩, h.passes, (fun _ _ stored => nomatch stored),
        (fun _ _ stored => nomatch stored), h.log⟩, List.prefix_refl _, List.prefix_refl _, List.prefix_refl _⟩

omit [PyText] in
theorem Site.Named.changed (h : s.Named) (change : ServerChange) : (change.apply s).Named ∧ s.Grows (change.apply s) := by
  cases change with
  | tick clock mono => exact ⟨h, Nat.le_refl _, fun _ _ => rfl⟩
  | restart reached policy =>
    cases reached with
    | false => exact ⟨(fun _ _ stored => nomatch stored), Nat.le_refl _, fun _ _ => rfl⟩
    | true => exact ⟨(fun _ _ stored => nomatch stored), Nat.le_refl _, fun _ _ => rfl⟩

variable (cfg) in
def groundingContract : Contract (site cfg) (apiServer cfg) (grounding cfg) where
  Starts job := job.request.Written
  May _ _ _ _ _ := True
  LocalOk _ _ := True
  Fresh _ _ := True
  Since _ _ _ := True
  Post _ _ _ _ := True
  local_rely _ _ _ _ _ _ _ _ := trivial
  fresh_rely _ _ _ _ _ := trivial
  since_fresh _ _ _ _ := trivial
  since_step _ _ _ _ _ _ := trivial
  since_rely _ _ _ _ _ _ := trivial
  env_inv change _ inv := ⟨(inv.1.changed change).1, (inv.2.change change).1⟩
  env_rely change _ _ inv := ⟨(inv.1.changed change).2, (inv.2.change change).2⟩

/-- The request of the event, if it starts one, writes JSON with each key once. -/
def StartsWritten : PoolEvent (site cfg) (apiServer cfg) → Prop
  | .start _ job => HttpJob.request job |>.Written
  | _ => True

/-- A first start, on an empty store. -/
abbrev firstStart (cfg : SiteConfig) (heap : Ref → ActionIntent) (policy : Policy) (cell : Cell) : Pool (site cfg) (apiServer cfg) :=
  Pool.init (Site.init heap .nil policy cell) fun _ => ()

theorem grounded_run {heap : Ref → ActionIntent} {policy : Policy} {cell : Cell} {events : List (PoolEvent (site cfg) (apiServer cfg))}
    (written : ∀ e ∈ events, StartsWritten e) : ((firstStart cfg heap policy cell).run events).shared.Grounded := by
  have start : Pool.Sound (groundingContract cfg) (firstStart cfg heap policy cell) := by
    refine Pool.sound_init ⟨(fun _ _ stored => nomatch stored), MemoryStore.inv_init, ?_, shown_nil _, (fun _ member => nomatch member),
      (fun _ _ stored => nomatch stored), (fun _ _ stored => nomatch stored), fun _ member => nomatch member⟩ (fun _ => trivial) fun _ => trivial
    exact ⟨Nat.zero_le _, fun _ => True, Snapshot.restrictsTo_self _⟩
  refine (start.run (fun t job l s starts inv _ _ => ?_) (Pool.along_of_forall fun e member P => ?_)).inv.2
  · exact Safe.imp (grounding_handle (t := t) inv starts) fun _ _ _ _ => ⟨trivial, trivial⟩
  · cases e with
    | start pid job => exact written _ member
    | step pid fate => exact fun _ _ _ _ _ => trivial
    | env change => trivial

/-! ### From the pass to the commit -/

/-- The predicates of a pass that a commit of this scope is about. -/
def Scope.covers (scope : Scope) (exprs : List Str) : List Str :=
  match scope with
  | .readset => exprs
  | .truth => registered exprs

/-- The authorization is one of this pass, and its predicates have been true from the pass to the commit. -/
structure Grant.Stands (g : Grant) (a : Authorization) (patches : List Members) : Prop where
  id : a.id = g.request.intentId
  order : a.version ≤ g.version
  held : a.stop = false → ∀ expr ∈ a.intent.predicates, truth expr a.context = .ok true
  stood : a.stop = false → ∀ expr ∈ g.request.scope.covers a.intent.predicates, ∀ n, a.version ≤ n → n ≤ g.version →
    truth expr (atVersion patches n).context = .ok true

/-- A read-set that has not moved keeps the truth of its predicates. -/
theorem truth_of_readSet_unmoved {patches : List Members} (wf : ∀ patch ∈ patches, patch.WF) {exprs : List Str} {v c w : Nat}
    (bound : c ≤ patches.length) (unmoved : readSetVersion (atVersion patches c).pathVersions (readSet exprs) ≤ v)
    (after : v ≤ w) (before : w ≤ c) {expr : Str} (member : expr ∈ exprs) (shown : truth expr (atVersion patches w).context = .ok true)
    {n : Nat} (late : v ≤ n) (early : n ≤ c) : truth expr (atVersion patches n).context = .ok true := by
  have same : readSetVersion (atVersion patches c).pathVersions (readSet exprs) =
      readSetVersion (atVersion patches v).pathVersions (readSet exprs) :=
    (readSetVersion_eq_of_le (by omega) bound unmoved).symm
  have then_ := checkExpression_of_readSetVersion_eq wf bound same member late early
  have shown_ := checkExpression_of_readSetVersion_eq wf bound same member after before
  rw [truth] at shown ⊢
  rw [then_, ← shown_]
  exact shown

/-- A registered predicate that has not changed since the pass keeps its truth. -/
theorem truth_of_predicates_unmoved {patches : List Members} {preds : Dict Str Entry} (entries : EntriesOk patches preds)
    {exprs : List Str} {v w : Nat} (natural : 0 ≤ predicateVersion preds exprs) (unmoved : predicateVersion preds exprs ≤ v)
    (after : v ≤ w) (before : w ≤ patches.length) {expr : Str} (member : expr ∈ exprs)
    (shown : truth expr (atVersion patches w).context = .ok true) {n : Nat} (late : v ≤ n) (early : n ≤ patches.length) :
    truth expr (atVersion patches n).context = .ok true := by
  obtain ⟨entry, stored, version⟩ := predicateVersion_spec (show predicateVersion preds exprs ≠ -1 by omega) member
  have constant := (entries expr entry stored).2
  have now := constant w (by omega) before
  rw [shown] at now
  rw [constant n (by omega) early, ← now]

theorem Grant.stands {patches : List Members} (wf : ∀ patch ∈ patches, patch.WF) {record : Members} {g : Grant}
    (ok : GrantOk patches record g) (natural : 0 ≤ g.request.expected) {a : Authorization} (own : a.id = g.request.intentId)
    (asks : a.Asks g.request) (shown : a.context.Shown (patches.take g.version) a.version) : g.Stands a patches := by
  obtain ⟨w, after, bound, holds⟩ := shown
  have length : (patches.take g.version).length = g.version := List.length_take_of_le ok.version
  have past : ∀ {n}, n ≤ g.version → atVersion (patches.take g.version) n = atVersion patches n := fun {n} early => by
    have whole : atVersion (patches.take g.version ++ patches.drop g.version) n = atVersion (patches.take g.version) n :=
      atVersion_append (by omega)
    rw [List.take_append_drop] at whole
    exact whole.symm
  have expected := ok.expected
  rw [length] at bound
  cases asks with
  | stop stop keys => exact ⟨own, by omega, fun moving => absurd (stop.symm.trans moving) (by decide), fun moving =>
      absurd (stop.symm.trans moving) (by decide)⟩
  | evaluated moving truths keys before =>
    refine ⟨own, by omega, fun _ => truths, fun _ expr member n late early => ?_⟩
    rw [CommitRequest.observed, keys] at expected
    cases scope : g.request.scope with
    | readset =>
      rw [scope] at member expected
      have seen := holds expr (truths expr member)
      rw [past bound] at seen
      have unmoved : readSetVersion (atVersion patches g.version).pathVersions (readSet a.intent.predicates) ≤ a.version := by
        have same : g.request.expected = _ := expected
        simp only [Scope.keys] at same
        omega
      exact truth_of_readSet_unmoved wf ok.version unmoved after bound member seen late early
    | truth =>
      rw [scope] at member expected
      change expr ∈ registered a.intent.predicates at member
      have of_all : expr ∈ a.intent.predicates := (List.mem_filter.mp member).1
      have seen := holds expr (truths expr of_all)
      have same : g.request.expected = predicateVersion g.preds (registered a.intent.predicates) := expected
      have now := truth_of_predicates_unmoved ok.preds (by omega) (by omega) after (by omega) member seen late (by omega)
      rw [past early] at now
      exact now

/-- In every run of the API, with any requests interleaved, failing steps, changes of the policy and restarts: an authorization in the
actuation log is that of a validation pass, whose predicates were true at every version of the store from the pass to the commit. -/
theorem committed_on_standing_grounds (heap : Ref → ActionIntent) (policy : Policy) (cell : Cell)
    {events : List (PoolEvent (site cfg) (apiServer cfg))} (written : ∀ e ∈ events, StartsWritten e) :
    let s := ((firstStart cfg heap policy cell).run events).shared
    ∀ entry ∈ s.store.actuations, ∀ g, entry.grant = some g → ∃ a ∈ s.authorizations, g.Stands a s.store.patches := by
  intro s entry member g its
  have h : s.Grounded := grounded_run written
  obtain ⟨natural, a, passed, own, asks, shown⟩ := h.log entry member g its
  exact ⟨a, passed, Grant.stands h.store.wf (h.store.log.authorizing entry member g its) natural own asks shown⟩

end

/-! ### A run with a predicate -/

/-- The line runs, an intent that waits for it is submitted, another line moves, and the intent is committed. -/
def groundedRun : List (PoolEvent (@site PyText.ascii onceConfig) (@apiServer PyText.ascii onceConfig)) :=
  [.start 0 ⟨0, .update (.single "line" (.obj (.single "state" (.str "RUN".toList))))⟩, .step 0 .done] ++
    .start 1 ⟨0, .submit (some whenRunning) fun _ _ => false⟩ :: List.replicate 14 (.step 1 .done) ++
    [.start 2 ⟨0, .update (.single "other" (.bool true))⟩, .step 2 .done] ++
    .start 3 ⟨0, .commit "a".toList .readset 0⟩ :: List.replicate 6 (.step 3 .done)

theorem groundedRun_written : ∀ e ∈ groundedRun, @StartsWritten PyText.ascii onceConfig e := by
  intro e member
  simp only [groundedRun, List.cons_append, List.nil_append, List.mem_cons, List.mem_append, List.mem_replicate, List.not_mem_nil,
    or_false] at member
  rcases member with rfl | rfl | rfl | (⟨_, rfl⟩ | rfl | rfl) | rfl | ⟨_, rfl⟩
  all_goals simp [StartsWritten, Request.Written, Members.WF, Json.WF, Members.keys]

theorem committed_on_standing_grounds_groundedRun :
    let s := (@Pool.run (@site PyText.ascii onceConfig) (@apiServer PyText.ascii onceConfig)
      (@firstStart PyText.ascii onceConfig (fun _ => plainIntent "" "") .empty (.boot none 0)) groundedRun).shared
    (grants s.store.actuations).length = 1 ∧
      ∀ entry ∈ s.store.actuations, ∀ g, entry.grant = some g → ∃ a ∈ s.authorizations, @Grant.Stands PyText.ascii g a s.store.patches :=
  ⟨by decide +kernel, @committed_on_standing_grounds PyText.ascii onceConfig (fun _ => plainIntent "" "") .empty (.boot none 0) groundedRun
    groundedRun_written⟩

end Xair
