import Xair.Gateway.Grounding

/-!
# What a started call stands on

A gateway run starts a call for an intent that a validation pass has authorized. A stop
needs no more. In the atomic branch the log holds the grant of the intent; in the optimistic
branch the gate has compared the version it has read with the one of the pass.
-/

namespace Xair

open Library

section

variable [PyText]

/-- The predicates of a pass that the gate's versions are about. -/
def VersionScope.covers (scope : VersionScope) (exprs : List Str) : List Str :=
  match scope with
  | .readset | .global => exprs
  | .truth => registered exprs
  | .predicate => []

/-- The gate has let the body through at version `g`, and what the pass has evaluated has been true until then. -/
structure GatewayQuery.Passed (q : GatewayQuery) (body : ActionIntent) (a : Authorization) (patches : List Members) (g : Nat) : Prop where
  order : a.version ≤ g
  bound : g ≤ patches.length
  stood : ∀ expr ∈ q.scope.covers a.intent.predicates, ∀ n, a.version ≤ n → n ≤ g → truth expr (atVersion patches n).context = .ok true
  own : ∀ expr ∈ body.predicates, truth expr (atVersion patches g).context = .ok true
  mandated : ∀ expr ∈ a.intent.policyAdded.getD [], truth expr (atVersion patches g).context = .ok true

/-- What stands behind a call that the job starts for `id`. -/
def DeploymentJob.Stands (id : Str) (s : Site) : DeploymentJob → Prop
  | .request _ => False
  | .gateway q body _ _ => body.id = id ∧ ∃ a ∈ s.authorizations, a.id = id ∧ (a.stop = true ∨
      (q.atomic = true ∧ ∃ entry ∈ s.store.actuations, ∃ g, entry.grant = some g ∧ g.Stands a s.store.patches) ∨
      q.atomic = false ∧ ∃ g, q.Passed body a s.store.patches g)

/-- Behind every started call stands one of the jobs. -/
def Site.Standing (jobs : DeploymentJob → Prop) (s : Site) : Prop := ∀ start ∈ s.starts, ∃ job, jobs job ∧ job.Stands start.2 s

end

/-- The log holds a grant of the intent. -/
def Site.HasGrant (id : Str) (s : Site) : Prop := ∃ entry ∈ s.store.actuations, ∃ g, entry.grant = some g ∧ g.request.intentId = id

section

variable [PyText] {cfg : SiteConfig} {jobs : DeploymentJob → Prop} {s s' s'' : Site} {id : Str} {job : DeploymentJob} {t : Nat}

/-! ### Facts that last -/

omit [PyText] in
theorem Site.HasGrant.retained (h : s.HasGrant id) (retained : s.RetainedBy s') : s'.HasGrant id := by
  obtain ⟨entry, member, its⟩ := h
  exact ⟨entry, retained.log.subset member, its⟩

omit [PyText] in
theorem atVersion_grows {patches later : List Members} (grown : patches <+: later) {n : Nat} (bound : n ≤ patches.length) :
    atVersion later n = atVersion patches n := by
  obtain ⟨more, rfl⟩ := grown
  exact atVersion_append bound

theorem GatewayQuery.Passed.grows {q : GatewayQuery} {body : ActionIntent} {a : Authorization} {patches later : List Members} {g : Nat}
    (h : q.Passed body a patches g) (grown : patches <+: later) : q.Passed body a later g := by
  have bound := h.bound
  have reach := grown.length_le
  constructor
  · exact h.order
  · omega
  · intro expr member n late early
    rw [atVersion_grows grown (by omega)]
    exact h.stood expr member n late early
  · intro expr member
    rw [atVersion_grows grown bound]
    exact h.own expr member
  · intro expr member
    rw [atVersion_grows grown bound]
    exact h.mandated expr member

theorem Grant.Stands.grows {g : Grant} {a : Authorization} {patches later : List Members} (h : g.Stands a patches) (bound : g.version ≤ patches.length)
    (grown : patches <+: later) : g.Stands a later := by
  refine ⟨h.id, h.order, h.held, ?_⟩
  intro moving expr member n late early
  rw [atVersion_grows grown (by omega)]
  exact h.stood moving expr member n late early

theorem DeploymentJob.Stands.retained (h : job.Stands id s) (inv : s.Grounded) (retained : s.RetainedBy s') : job.Stands id s' := by
  cases job with
  | request request => exact h
  | gateway q body timedOut gateTimedOut =>
    obtain ⟨own, a, passed, its, stands⟩ := h
    refine ⟨own, a, retained.authorizations.subset passed, its, ?_⟩
    rcases stands with stop | ⟨atomic, entry, member, g, grants, stands⟩ | ⟨optimistic, g, through⟩
    · exact Or.inl stop
    · exact Or.inr (Or.inl ⟨atomic, entry, retained.log.subset member, g, grants,
        stands.grows (inv.store.log.authorizing entry member g grants).version retained.patches⟩)
    · exact Or.inr (Or.inr ⟨optimistic, g, through.grows retained.patches⟩)

theorem Site.Standing.retained (h : s.Standing jobs) (inv : s.Grounded) (retained : s.RetainedBy s') (starts : s'.starts = s.starts) :
    s'.Standing jobs := by
  intro start member
  rw [starts] at member
  obtain ⟨job, its, stands⟩ := h start member
  exact ⟨job, its, stands.retained inv retained⟩

/-! ### The discipline -/

/-- The step keeps what is known of the API. -/
structure Site.KeptBy (cfg : SiteConfig) (c : SiteCommand) (s : Site) : Prop where
  before : s.Named ∧ s.Grounded
  after : (Site.exec cfg c s).2.Named ∧ (Site.exec cfg c s).2.Grounded
  moved : s.Grows (Site.exec cfg c s).2 ∧ s.RetainedBy (Site.exec cfg c s).2

/-- A gateway run starts its call on what stands behind it; the others start none of their own. -/
def standing (cfg : SiteConfig) (jobs : DeploymentJob → Prop) : Discipline (site cfg) DeploymentJob where
  Inv := Site.Standing jobs
  Step _ _ s s' := s.Grows s' ∧ s.RetainedBy s'
  Rely _ s s' := s.Grows s' ∧ s.RetainedBy s'
  step_refl _ _ s := ⟨.refl s, .refl s⟩
  rely_refl _ s := ⟨.refl s, .refl s⟩
  rely_trans _ _ _ _ first second := ⟨first.1.trans second.1, first.2.trans second.2⟩
  rely_of_step _ _ _ _ _ _ step := step

/-- The judgement for a call of a job. -/
abbrev Standing (cfg : SiteConfig) (jobs : DeploymentJob → Prop) (t : Nat) (job : DeploymentJob) {α : Type} (m : Handler cfg α) (s : Site)
    (ok : α → Site → Prop) : Prop :=
  Method.Runs (standing cfg jobs) t job (fun c s _ => s.KeptBy cfg c) m () s (fun a _ => ok a) fun _ _ _ => True

variable {α β : Type}

theorem standing_bind (inv : s.Standing jobs) {m : Handler cfg β} {f : β → Handler cfg α} {P : β → Site → Prop} {ok : α → Site → Prop}
    (h : Standing cfg jobs t job m s P)
    (later : ∀ b (s' : Site), s'.Standing jobs → s.Grows s' ∧ s.RetainedBy s' → P b s' → Standing cfg jobs t job (f b) s' ok) :
    Standing cfg jobs t job (m >>= f) s ok :=
  Method.runs_bind_since (fun _ _ _ first second => ⟨first.1.trans second.1, first.2.trans second.2⟩) (fun _ _ h => h) (fun _ _ h => h) inv h
    fun b _ s' => later b s'

variable (cfg) in
theorem keeps_standing {c : SiteCommand} (still : (Site.exec cfg c s).2.starts = s.starts) (inv : s.Standing jobs) (kept : s.KeptBy cfg c) :
    (Site.exec cfg c s).2.Standing jobs ∧ s.Grows (Site.exec cfg c s).2 ∧ s.RetainedBy (Site.exec cfg c s).2 :=
  ⟨inv.retained kept.before.2 kept.moved.2 still, kept.moved⟩

theorem still_idle (cfg : SiteConfig) {c : SiteCommand} (idle : c.Idle) (s : Site) : (Site.exec cfg c s).2.starts = s.starts :=
  (reported_idle cfg idle s).2

/-- A step that starts no call. -/
theorem standing_step {c : SiteCommand} (idle : c.Idle) {P : c.Reply → Site → Prop}
    (replied : ∀ s' : Site, s.Grows s' ∧ s.RetainedBy s' → s'.KeptBy cfg c → ∀ s'' : Site, (Site.exec cfg c s').2.Grows s'' ∧
      (Site.exec cfg c s').2.RetainedBy s'' → P (Site.exec cfg c s').1 s'') :
    Standing cfg jobs t job (step c) s P :=
  Method.runs_guarded (fun s' _ _ inv kept => keeps_standing cfg (still_idle cfg idle s') inv kept)
    fun s' rely _ kept s'' rely' _ => replied s' rely kept s'' rely'

theorem standing_idle {m : Handler cfg α} (sends : Method.Sends SiteCommand.Idle m) : Standing cfg jobs t job m s fun _ _ => True :=
  (Method.Runs.of_sends (fun _ s _ idle inv kept => keeps_standing cfg (still_idle cfg idle s) inv kept) sends).imp
    (fun _ _ _ _ h => h) fun _ _ _ _ h => h

/-- A run whose one call stands on a fact that lasts. -/
theorem standing_release (its : jobs job) {m : Handler cfg α} {K : Site → Prop} (lasts : ∀ s s' : Site, K s → s.RetainedBy s' → K s')
    (stands : ∀ s : Site, s.Grounded → K s → job.Stands id s) (single : Single t id m) (start : K s) :
    Standing cfg jobs t job m s fun _ _ => True := by
  refine Method.Runs.of_sendsOnce (K := K) (fun s s' holds rely => lasts s s' holds rely.2) (fun _ s' _ idle inv kept => ?_)
    (fun _ s' _ called inv holds kept => ?_) single start
  · obtain ⟨after, moved⟩ := keeps_standing cfg (still_idle cfg idle s') inv kept
    exact ⟨after, moved, fun holds => lasts _ _ holds moved.2⟩
  · obtain ⟨witness, rfl⟩ := called
    refine ⟨?_, kept.moved⟩
    intro start member
    rcases List.mem_append.mp member with old | new
    · obtain ⟨job', its', stood⟩ := inv start old
      exact ⟨job', its', stood.retained kept.before.2 kept.moved.2⟩
    · obtain rfl := List.mem_singleton.mp new
      exact ⟨job, its, (stands s' kept.before.2 holds).retained kept.before.2 kept.moved.2⟩

/-! ### The submission -/

/-- What a run knows of its own submission: the record is backed by a pass if it says `EXECUTE`. -/
def standingCourse (cfg : SiteConfig) (jobs : DeploymentJob → Prop) (t : Nat) (job : DeploymentJob) (id : Str) :
    Course (standing cfg jobs) t job (fun c s _ => s.KeptBy cfg c) t id where
  Moves s s' := s.Grows s' ∧ s.RetainedBy s'
  Keeps s s' := s.Grows s' ∧ s.RetainedBy s'
  Ready ref s := s.Names ref id
  Source _ _ := True
  Good _ a s := s.Names a.intent id ∧ (a.outcome = some .execute → ∃ pass ∈ s.authorizations, pass.id = id ∧ pass.Backs a)
  moves_trans _ _ _ first second := ⟨first.1.trans second.1, first.2.trans second.2⟩
  keeps_refl s := ⟨.refl s, .refl s⟩
  keeps_trans _ _ _ first second := ⟨first.1.trans second.1, first.2.trans second.2⟩
  moves_of_keeps _ _ moved := moved
  keeps_of_rely _ _ rely := rely
  ready_moves _ _ _ names moved := names.grows moved.1
  source_moves _ _ _ _ _ := trivial
  good_keeps _ _ _ _ good moved := by
    refine ⟨good.1.grows moved.1, fun executes => ?_⟩
    obtain ⟨pass, passed, its⟩ := good.2 executes
    exact ⟨pass, moved.2.authorizations.subset passed, its⟩
  ready_of_good _ _ _ _ good := good.1
  plain _ s _ plain inv kept := by
    obtain ⟨after, moved⟩ := keeps_standing cfg (still_idle cfg plain.routine.idle s) inv kept
    exact ⟨after, moved, moved⟩
  withdrawn outcome reason s _ inv kept := by
    obtain ⟨after, moved⟩ := keeps_standing cfg (still_idle cfg (routine_withdraw id outcome reason).idle s) inv kept
    exact ⟨after, moved, moved⟩
  created i s own _ _ :=
    ⟨Nat.lt_succ_self _, (congrArg ActionIntent.id ((Runtime.heap_putIntent _ _ _ _).trans (if_pos rfl))).trans own⟩
  admission ref s _ inv _ kept := by
    obtain ⟨after, moved⟩ := keeps_standing cfg (Site.sameOutside_exec (c := .admitIntent ref) trivial s).starts inv kept
    exact ⟨after, moved, moved⟩
  admitted ref s a _ names kept same := by
    obtain ⟨b, s', run, _, _, its⟩ := Site.Named.admitIntent cfg kept.before.1 names
    have answer : Except.ok a = Except.ok b := same.symm.trans (congrArg Prod.fst run)
    rw [run, Except.ok.inj answer]
    exact its
  registered _ _ _ _ _ _ _ := trivial
  process ref call s _ inv _ _ kept := by
    obtain ⟨after, moved⟩ := keeps_standing cfg (Site.sameOutside_exec (c := .process t ref call) trivial s).starts inv kept
    exact ⟨after, moved, moved⟩
  processed ref call s a _ names _ kept same := by
    have stored := (Site.processed_process cfg t ref call s).answered a same
    rw [names.2] at stored
    have after : (s.process cfg t ref call).2.Named ∧ (s.process cfg t ref call).2.Grounded := kept.after
    exact ⟨after.1 id a stored, fun executes => after.2.records id a stored executes⟩
  read _ a s _ good kept := by
    refine ⟨?_, fun executes => ?_⟩
    · rw [Site.current_intent]
      exact good.1
    · rcases Site.current_cases id a s with held | stored
      · rw [held] at executes ⊢
        exact good.2 executes
      · exact kept.before.2.records id _ stored executes

/-- The answer is that of a pass that backs it. -/
structure SubmitAnswer.BackedBy (result : SubmitAnswer) (a : Authorization) : Prop where
  id : a.id = result.id
  stop : result.actionClass = .stop → a.stop = true
  evaluated : a.stop = false → (∀ expr ∈ a.intent.predicates, truth expr a.context = .ok true) ∧
    result.readSet = Xair.readSet a.intent.predicates ∧ result.predicates = registered a.intent.predicates ∧
    result.policyPredicates = a.intent.policyAdded.getD [] ∧ result.contextVersion = a.version ∧
    result.readSetVersion ≤ a.version ∧ result.predicateVersion ≤ a.version

theorem Authorization.Backs.answer {a : Authorization} {record : IntentRecord} (h : a.Backs record) (own : a.id = id) (context : Option Members)
    (payload : Option ActionDescriptor) : (submitAnswer id record false context payload).BackedBy a := by
  cases h with
  | stop stop readSet predicates =>
    refine ⟨own, fun _ => stop, fun moving => ?_⟩
    rw [stop] at moving
    cases moving
  | evaluated moving cls holds readSet predicates mandated contextVersion readSetVersion predicateVersion =>
    exact ⟨own, fun its => absurd its cls, fun _ => ⟨holds, readSet, predicates, mandated, contextVersion, readSetVersion, predicateVersion⟩⟩

theorem standing_submission {q : GatewayQuery} {body : ActionIntent} {timedOut gateTimedOut : Nat → Nat → Bool} (inv : s.Standing jobs) :
    Standing cfg jobs t (.gateway q body timedOut gateTimedOut) (http (submitIntent t (some body) timedOut)) s fun result s' =>
      result.duplicate = true ∨ result.outcome ≠ some .execute ∨
        result.id = body.id ∧ ∃ a ∈ s'.authorizations, result.BackedBy a := by
  refine ((standingCourse cfg jobs t (.gateway q body timedOut gateTimedOut) body.id).leads_http inv rfl timedOut).imp
    (fun result _ s' _ ends => ?_) fun _ _ _ _ _ => trivial
  rcases ends.2 with duplicate | other | ⟨context, record, payload, ⟨_, backed⟩, rfl⟩
  · exact Or.inl duplicate
  · exact Or.inr (Or.inl other)
  · by_cases executes : record.outcome = some .execute
    · obtain ⟨a, passed, own, backs⟩ := backed executes
      exact Or.inr (Or.inr ⟨rfl, a, passed, backs.answer own context payload⟩)
    · exact Or.inr (Or.inl executes)

/-! ### The commit -/

omit [PyText] in
/-- The store commits an id, or finds it committed. -/
theorem MemoryStore.commit_logged {now : ℚ} {req : CommitRequest} {m : MemoryStore}
    (status : (m.commit now req).1.status = .committed ∨ (m.commit now req).1.status = .duplicate) :
    req.intentId ∈ (m.commit now req).2.committed := by
  rcases m.commit_cases now req with ⟨refused, _, same⟩ | granted
  · rw [same]
    rcases status with status | status
    · rw [status] at refused
      cases refused
    · simp only [MemoryStore.commit] at status
      by_cases known : req.intentId ∈ m.committed
      · exact known
      · split at status
        · rename_i found
          rw [CommitRequest.refusal, if_neg known] at found
          simp only at status
          subst status
          repeat' split at found
          all_goals cases found
        · cases status
  · rw [granted]
    exact List.mem_append_right _ List.mem_cons_self

theorem hasGrant_of_committed (inv : s.store.Inv) (committed : id ∈ s.store.committed) : s.HasGrant id := by
  obtain ⟨g, member, own⟩ := (inv.log.committed id).mp committed
  obtain ⟨entry, logged, its⟩ := List.mem_filterMap.mp member
  exact ⟨entry, logged, g, its, own⟩

theorem standing_storedCommit (inv : s.Standing jobs) (req : CommitRequest) : Standing cfg jobs t job (storedCommit req) s fun result s' =>
    result.status = .committed ∨ result.status = .duplicate → s'.HasGrant req.intentId := by
  refine standing_bind inv (P := fun reply s' => ∀ result : CommitResult, reply = some result →
    result.status = .committed ∨ result.status = .duplicate → s'.HasGrant req.intentId) ?_ fun reply s₁ inv₁ _ its => ?_
  · refine runs_attempted inv (standing_step (c := .commitAuthorization req) trivial fun s' _ kept s'' later result same status => ?_)
      fun _ _ none => by cases none
    obtain rfl := Option.some.inj same
    exact (hasGrant_of_committed kept.after.2.store (MemoryStore.commit_logged status)).retained later.2
  · cases reply with
    | some result => exact Method.runs_pure fun s₂ moved _ status => (its result rfl status).retained moved.2
    | none =>
      refine standing_bind inv₁ (standing_idle (sends_step (c := .lastView) trivial)) fun last _ _ _ _ => ?_
      refine Method.runs_pure fun _ _ _ status => ?_
      rcases status with status | status <;> cases status

theorem standing_answered {reply : Except RuntimeError α} {K : Site → Prop} (lasts : ∀ s', s.RetainedBy s' → K s') :
    Standing cfg jobs t job (answered reply) s fun _ => K := by
  cases reply with
  | ok a => exact Method.runs_pure fun s' moved _ => lasts s' moved.2
  | error e => exact Method.runs_throw fun _ _ _ => trivial

theorem standing_commitAuthorized (inv : s.Standing jobs) {record : IntentRecord} (names : s.Names record.intent id) (scope : Scope) (marginMs : ℚ) :
    Standing cfg jobs t job (commitAuthorized id record scope marginMs) s fun act s' => act.committed = true → s'.HasGrant id := by
  refine standing_bind inv (P := fun _ _ => True) (standing_idle (sends_step (c := .time) trivial)) fun now s₁ inv₁ since₁ _ => ?_
  refine standing_bind inv₁ (P := fun i _ => ActionIntent.id i = id) (standing_step (c := .intent record.intent) trivial
    fun s' since _ _ _ => ((names.grows since₁.1).grows since.1).2) fun i s₂ inv₂ since₂ own => ?_
  have recorded : ∀ {s' : Site} (committed : Bool) (reason : Str) (seq : Option Nat) (answer : IntentRecord → CommitAnswer),
      s'.Standing jobs → (∀ final, (answer final).committed = true → s'.HasGrant id) → Standing cfg jobs t job (do
        let reply : Except RuntimeError IntentRecord ← step (.recordCommit id committed reason seq)
        let final ← answered reply
        return answer final) s' fun act s'' => act.committed = true → s''.HasGrant id := by
    intro s' committed reason seq answer inv' granted
    refine standing_bind inv' (standing_idle (sends_step (c := .recordCommit id committed reason seq) trivial)) fun reply s₃ inv₃ since₃ _ => ?_
    refine standing_bind inv₃ (standing_answered (K := s'.RetainedBy) fun s₄ moved => since₃.2.trans moved) fun final s₄ _ _ reached => ?_
    exact Method.runs_pure fun s₅ moved _ committed => ((granted final committed).retained reached).retained moved.2
  refine Method.runs_ite (fun _ => recorded _ _ _ _ inv₂ fun _ => by simp) fun _ => ?_
  refine standing_bind inv₂ (standing_storedCommit inv₂ _) fun result s₃ inv₃ _ logged => recorded _ _ _ _ inv₃ fun final committed => ?_
  have status := logged (by simpa using committed)
  rw [show (cfg.config.commitRequest i record scope marginMs).intentId = id from own] at status
  exact status

theorem standing_commitIntent (inv : s.Standing jobs) (scope : Scope) (marginMs : ℚ) :
    Standing cfg jobs t job (commitIntent id scope marginMs) s fun act s' => act.committed = true → s'.HasGrant id := by
  refine Method.runs_ite (fun _ => Method.runs_throw fun _ _ _ => trivial) fun _ => ?_
  refine standing_bind inv (P := fun found s' => ∀ record : IntentRecord, found = some record → s'.Names record.intent id)
    (standing_step (c := .recordOf id) trivial fun s' _ kept s'' later record same => (kept.before.1 id record same).grows later.1)
    fun found s₁ inv₁ _ its => ?_
  cases found with
  | none => exact Method.runs_throw fun _ _ _ => trivial
  | some record =>
    exact Method.runs_ite (fun _ => standing_commitAuthorized inv₁ (its record rfl) scope marginMs) fun _ => Method.runs_throw fun _ _ _ => trivial

/-! ### The gate's snapshot -/

/-- What a gateway is told of the store once the pass is over; without predicates it is told the whole context. -/
structure SnapshotDoc.ReadAfter (doc : SnapshotDoc) (a : Authorization) (exprs : Option (List Str)) (patches : List Members) : Prop where
  bound : doc.snapshot.version ≤ patches.length
  of : ∃ reads, (atVersion patches doc.snapshot.version).RestrictsTo reads doc.snapshot
  whole : exprs = none → doc.snapshot.pathVersions = (atVersion patches doc.snapshot.version).pathVersions
  preds : EntriesOk (patches.take doc.snapshot.version) doc.preds
  shown : a.context.Shown (patches.take doc.snapshot.version) a.version

section

variable {doc : SnapshotDoc} {a : Authorization} {exprs : Option (List Str)}

theorem SnapshotDoc.ReadAfter.grows {patches later : List Members} (h : doc.ReadAfter a exprs patches) (grown : patches <+: later) :
    doc.ReadAfter a exprs later := by
  have same := atVersion_grows grown h.bound
  have reach := grown.length_le
  have past : later.take doc.snapshot.version = patches.take doc.snapshot.version := by
    obtain ⟨more, rfl⟩ := grown
    exact List.take_append_of_le_length h.bound
  have bound := h.bound
  exact ⟨by omega, by rw [same]; exact h.of, by rw [same]; exact h.whole, by rw [past]; exact h.preds, by rw [past]; exact h.shown⟩

theorem Site.Grounded.readWhole (h : s.Grounded) (passed : a ∈ s.authorizations) :
    SnapshotDoc.ReadAfter ⟨s.store.snapshot, Dict.empty, true⟩ a none s.store.patches := by
  have version := h.store.version
  have now : atVersion s.store.patches s.store.snapshot.version = s.store.snapshot := by
    rw [version, atVersion_length, ← h.store.snapshot]
  constructor
  · simp only
    omega
  · exact ⟨fun _ => True, by rw [now]; exact Snapshot.restrictsTo_self _⟩
  · intro _
    rw [now]
  · intro expr entry stored
    cases stored
  · simp only [version, List.take_length]
    exact h.passes a passed

theorem Site.Grounded.readWith (h : s.Grounded) (passed : a ∈ s.authorizations) (asked : List Str) :
    SnapshotDoc.ReadAfter (if asked = [] then ⟨s.store.snapshot, Dict.empty, true⟩
      else { cfg.read asked s.store with preds := restrictPreds s.store.preds asked }) a (some asked) s.store.patches := by
  have whole := h.readWhole passed
  split
  · exact ⟨whole.bound, whole.of, (fun none => by cases none), whole.preds, whole.shown⟩
  · have restricts := restrictsTo_read cfg asked s.store
    have version : (cfg.read asked s.store).snapshot.version = s.store.patches.length := restricts.version.trans h.store.version
    have now : atVersion s.store.patches s.store.patches.length = s.store.snapshot := by rw [atVersion_length, ← h.store.snapshot]
    constructor
    · exact Nat.le_of_eq version
    · exact ⟨_, by simp only [version, now]; exact restricts⟩
    · intro none
      cases none
    · simp only [version, List.take_length]
      intro expr entry stored
      exact h.store.entries expr entry (get_insertAll_present.mp stored).2
    · simp only [version, List.take_length]
      exact h.passes a passed

theorem standing_readSnapshot (inv : s.Standing jobs) (passed : a ∈ s.authorizations) :
    Standing cfg jobs t job readSnapshot s fun read s' => read.2 = true → SnapshotDoc.ReadAfter ⟨read.1, Dict.empty, read.2⟩ a none s'.store.patches := by
  refine standing_bind inv (P := fun reply s' => ∀ snapshot : Snapshot, reply = some snapshot →
    SnapshotDoc.ReadAfter ⟨snapshot, Dict.empty, true⟩ a none s'.store.patches) ?_ fun reply s₁ inv₁ _ its => ?_
  · refine runs_attempted inv (standing_step (c := .snapshot) trivial fun s' since kept s'' later snapshot same => ?_) fun _ _ none => by cases none
    obtain rfl := Option.some.inj same
    exact (kept.before.2.readWhole (since.2.authorizations.subset passed)).grows later.2.patches
  · cases reply with
    | some snapshot =>
      refine standing_bind inv₁ (standing_idle (sends_step (c := .install snapshot) trivial)) fun _ s₂ _ since _ => ?_
      exact Method.runs_pure fun s₃ moved _ _ => ((its snapshot rfl).grows since.2.patches).grows moved.2.patches
    | none =>
      refine standing_bind inv₁ (standing_idle (sends_step (c := .lastView) trivial)) fun last _ _ _ _ => ?_
      exact Method.runs_pure fun _ _ _ trusted => by cases trusted

theorem standing_snapshotDocument (inv : s.Standing jobs) (passed : a ∈ s.authorizations) (exprs : Option (List Str)) :
    Standing cfg jobs t job (snapshotDocument exprs) s fun doc s' => doc.trusted = true → doc.ReadAfter a exprs s'.store.patches := by
  cases exprs with
  | none =>
    refine standing_bind inv (standing_readSnapshot inv passed) fun read s₁ _ _ after => ?_
    exact Method.runs_pure fun s₂ moved _ trusted => (after trusted).grows moved.2.patches
  | some asked =>
    refine standing_bind inv (P := fun reply s' => ∀ doc : SnapshotDoc, reply = some doc → doc.ReadAfter a (some asked) s'.store.patches) ?_
      fun reply s₁ inv₁ _ its => ?_
    · refine runs_attempted inv (standing_step (c := .snapshotWithPredicates asked) trivial fun s' since kept s'' later doc same => ?_)
        fun _ _ none => by cases none
      obtain rfl := Option.some.inj same
      exact (kept.before.2.readWith (since.2.authorizations.subset passed) asked).grows later.2.patches
    · cases reply with
      | some doc =>
        have read := its doc rfl
        have returned : ∀ s₂ : Site, s₁.Grows s₂ ∧ s₁.RetainedBy s₂ → Standing cfg jobs t job (pure doc : Handler cfg SnapshotDoc) s₂
            fun doc s' => doc.trusted = true → doc.ReadAfter a (some asked) s'.store.patches := fun s₂ since =>
          Method.runs_pure fun s₃ moved _ _ => (read.grows since.2.patches).grows moved.2.patches
        refine Method.runs_ite (fun _ => ?_) fun _ => returned s₁ ⟨.refl s₁, .refl s₁⟩
        exact standing_bind inv₁ (standing_idle (sends_step (c := .install doc.snapshot) trivial)) fun _ s₂ _ since _ => returned s₂ since
      | none =>
        refine standing_bind inv₁ (standing_idle (sends_step (c := .lastView) trivial)) fun last _ _ _ _ => ?_
        exact Method.runs_pure fun _ _ _ trusted => by cases trusted

theorem standing_pullSnapshot (inv : s.Standing jobs) (passed : a ∈ s.authorizations) (exprs : Option (List Str)) (id : Str) :
    Standing cfg jobs t job (pullSnapshot exprs id) s fun read s' => read.1.trusted = true → read.1.ReadAfter a exprs s'.store.patches := by
  have pulled : Standing cfg jobs t job (http (contextSnapshot exprs (some id))) s fun read s' =>
      read.1.trusted = true → read.1.ReadAfter a exprs s'.store.patches := by
    refine standing_bind inv (standing_idle (sends_step (c := .send) trivial)) fun _ s₁ inv₁ since₁ _ => ?_
    refine standing_bind inv₁ (P := fun read s' => read.1.trusted = true → read.1.ReadAfter a exprs s'.store.patches) ?_ fun read s₂ inv₂ _ after => ?_
    · refine standing_bind inv₁ (standing_snapshotDocument inv₁ (since₁.2.authorizations.subset passed) exprs) fun doc s₂ inv₂ _ after => ?_
      refine standing_bind inv₂ (standing_idle (sends_step (c := .recordOf id) trivial)) fun found s₃ _ since _ => ?_
      exact Method.runs_pure fun s₄ moved _ trusted => ((after trusted).grows since.2.patches).grows moved.2.patches
    · refine standing_bind inv₂ (standing_idle (sends_step (c := .send) trivial)) fun _ s₃ _ since _ => ?_
      exact Method.runs_pure fun s₄ moved _ trusted => ((after trusted).grows since.2.patches).grows moved.2.patches
  refine Method.runs_tryCatch inv (pulled.imp (fun _ _ _ _ ends => ends) fun _ _ s' _ _ _ => Method.runs_pure fun _ _ _ trusted => ?_)
  cases trusted

/-! ### The gate -/

/-- What the gate has checked. -/
theorem gateCheck_passed {result : SubmitAnswer} {i : ActionIntent} {scope : VersionScope} {doc : SnapshotDoc} {state : Option IntentState} {now : ℚ}
    {timedOut : Nat → Nat → Bool} {reason : Str} (passed : gateCheck cfg result i scope doc state now timedOut = .ok (true, reason)) :
    doc.trusted = true ∧ (scope ≠ .predicate → gateVersion result scope doc = result.version scope ∧ 0 ≤ gateVersion result scope doc) ∧
      (∀ expr ∈ i.predicates, truth expr doc.snapshot.context = .ok true) ∧
      ∀ expr ∈ result.policyPredicates, truth expr doc.snapshot.context = .ok true := by
  unfold gateCheck at passed
  split at passed
  · cases passed
  rename_i trusted
  split at passed
  · cases passed
  split at passed
  · cases passed
  rename_i same
  split at passed
  · cases passed
  cases evaluated : evaluatePredicates (timedOut 0) i.safetyConstraints i.preconditions doc.snapshot.context with
  | error e =>
    rw [evaluated] at passed
    cases passed
  | ok first =>
    obtain ⟨ok, reason⟩ := first
    rw [evaluated] at passed
    cases ok with
    | false => cases passed
    | true =>
      cases again : evaluatePredicates (timedOut 1) result.policyPredicates [] doc.snapshot.context with
      | error e =>
        simp only [bind, Except.bind, again, if_pos] at passed
        cases passed
      | ok second =>
        obtain ⟨ok, reason⟩ := second
        cases ok with
        | false =>
          simp only [bind, Except.bind, again, if_pos] at passed
          cases passed
        | true =>
          refine ⟨by simpa using trusted, fun compared => ?_, truth_of_evaluatePredicates evaluated, fun expr member => ?_⟩
          · simp only [not_and, not_or, not_not, not_lt] at same
            obtain ⟨natural, _, equal⟩ := same compared
            exact ⟨equal, natural⟩
          · exact truth_of_evaluatePredicates again expr (List.mem_append_left _ member)

/-- A gate that lets the call through has seen what the pass has seen. -/
theorem passed_of_gateCheck {q : GatewayQuery} {body i : ActionIntent} (own : i.predicates = body.predicates) {patches : List Members}
    (wf : ∀ patch ∈ patches, patch.WF) {result : SubmitAnswer} (backed : result.BackedBy a) (moving : a.stop = false)
    {doc : SnapshotDoc} (read : doc.ReadAfter a (if q.scope = .truth then some result.predicates else none) patches)
    {state : Option IntentState} {now : ℚ} {timedOut : Nat → Nat → Bool} {reason : Str}
    (passed : gateCheck cfg result i q.scope doc state now timedOut = .ok (true, reason)) :
    q.Passed body a patches doc.snapshot.version := by
  obtain ⟨_, compared, holds, mandated⟩ := gateCheck_passed passed
  obtain ⟨truths, readSet, predicates, policies, contextVersion, readSetVersion, predicateVersion⟩ := backed.evaluated moving
  obtain ⟨reads, restricts⟩ := read.of
  have bound := read.bound
  have length : (patches.take doc.snapshot.version).length = doc.snapshot.version := List.length_take_of_le bound
  have past : ∀ {n}, n ≤ doc.snapshot.version → atVersion (patches.take doc.snapshot.version) n = atVersion patches n := fun {n} early =>
    (atVersion_grows (List.take_prefix _ _) (by omega)).symm
  obtain ⟨w, after, before, shown⟩ := read.shown
  rw [length] at before
  refine ⟨by omega, bound, ?_, fun expr member => restricts.truth (holds expr (own ▸ member)), fun expr member =>
    restricts.truth (mandated expr (by rw [policies]; exact member))⟩
  intro expr member n late early
  cases scope : q.scope with
  | predicate =>
    rw [scope] at member
    cases member
  | global =>
    rw [scope] at member compared
    have same : (doc.snapshot.version : Int) = result.contextVersion := (compared (by decide)).1
    have seen := shown expr (truths expr member)
    rw [past before] at seen
    obtain rfl : n = w := by omega
    exact seen
  | readset =>
    rw [scope] at member compared read
    change expr ∈ a.intent.predicates at member
    have same : ((Xair.readSetVersion doc.snapshot.pathVersions result.readSet : Nat) : Int) = result.readSetVersion := (compared (by decide)).1
    rw [read.whole (if_neg (by decide)), readSet] at same
    have seen := shown expr (truths expr member)
    rw [past before] at seen
    exact truth_of_readSet_unmoved wf bound (by omega) after before member seen late early
  | truth =>
    rw [scope] at member compared
    have same : Xair.predicateVersion doc.preds result.predicates = result.predicateVersion := (compared (by decide)).1
    have natural : 0 ≤ Xair.predicateVersion doc.preds result.predicates := (compared (by decide)).2
    rw [predicates] at same natural
    change expr ∈ registered a.intent.predicates at member
    have of_all : expr ∈ a.intent.predicates := (List.mem_filter.mp member).1
    have now := truth_of_predicates_unmoved read.preds natural (by omega) after (by omega) member (shown expr (truths expr of_all)) late (by omega)
    rw [past early] at now
    exact now

end

/-! ### The release -/

section

variable {q : GatewayQuery} {body : ActionIntent} {timedOut gateTimedOut : Nat → Nat → Bool} {a : Authorization} {result : SubmitAnswer}

theorem standing_releaseStop (its : jobs (.gateway q body timedOut gateTimedOut)) (own : result.id = body.id) (passed : a ∈ s.authorizations)
    (backed : result.BackedBy a) (stop : result.actionClass = .stop) :
    Standing cfg jobs t (.gateway q body timedOut gateTimedOut) (releaseStop t result.id) s fun _ _ => True :=
  standing_release its (K := fun s => a ∈ s.authorizations) (fun _ _ holds moved => moved.authorizations.subset holds)
    (fun _ _ holds => ⟨own.symm, a, holds, backed.id, Or.inl (backed.stop stop)⟩) single_releaseStop passed

theorem standing_startCall {K : Site → Prop} (its : jobs job) (lasts : ∀ s s' : Site, K s → s.RetainedBy s' → K s')
    (stands : ∀ s : Site, s.Grounded → K s → job.Stands id s) (start : K s) (witness : Option Json) :
    Standing cfg jobs t job (step (.startCall t id witness)) s fun _ _ => True :=
  standing_release its lasts stands (single_startCall witness) start

theorem standing_commitAndCall (inv : s.Standing jobs) (its : jobs (.gateway q body timedOut gateTimedOut)) (atomic : q.atomic = true)
    (own : result.id = body.id) (i : ActionIntent) :
    Standing cfg jobs t (.gateway q body timedOut gateTimedOut) (commitAndCall t q i result) s fun _ _ => True := by
  refine standing_bind inv (P := fun act s' => act.committed = true → s'.HasGrant result.id) ?_ fun act s₁ inv₁ _ granted => ?_
  · refine standing_bind inv (standing_idle (sends_step (c := .send) trivial)) fun _ s₁ inv₁ _ _ => ?_
    refine standing_bind inv₁ (standing_commitIntent inv₁ _ q.commitMarginMs) fun act s₂ inv₂ _ granted => ?_
    refine standing_bind inv₂ (standing_idle (sends_step (c := .send) trivial)) fun _ s₃ _ since _ => ?_
    exact Method.runs_pure fun s₄ moved _ committed => ((granted committed).retained since.2).retained moved.2
  · refine Method.runs_ite (fun committed => ?_) fun _ => Method.runs_pure fun _ _ _ => trivial
    have logged := granted committed
    refine standing_bind inv₁ (standing_idle (sends_step (c := .time) trivial)) fun now s₂ inv₂ since _ => ?_
    refine Method.runs_ite (fun _ => ?_) fun _ =>
      standing_idle (Method.sends_bind (beside_idle.sendWithheld _ q.append) fun _ => Method.sends_pure _)
    refine standing_bind inv₂ (standing_startCall its (K := Site.HasGrant result.id) (fun _ _ holds moved => holds.retained moved)
      (fun s' h holds => ?_) (logged.retained since.2) _) fun _ _ _ _ _ => ?_
    · obtain ⟨entry, member, g, grants, named⟩ := holds
      obtain ⟨natural, a, passed, same, asks, shown⟩ := h.log entry member g grants
      exact ⟨own.symm, a, passed, same.trans named, Or.inr (Or.inl ⟨atomic, entry, member, g, grants,
        Grant.stands h.store.wf (h.store.log.authorizing entry member g grants) natural same asks shown⟩)⟩
    · exact standing_idle (Method.sends_bind (Method.sends_tryCatch (idle_callActuator q.actuator _ _) fun _ => Method.sends_pure _)
        fun _ => Method.sends_pure _)

theorem standing_releaseAtomic (inv : s.Standing jobs) (its : jobs (.gateway q body timedOut gateTimedOut)) (atomic : q.atomic = true)
    (own : result.id = body.id) (i : ActionIntent) :
    Standing cfg jobs t (.gateway q body timedOut gateTimedOut) (releaseAtomic t q i result) s fun _ _ => True := by
  refine standing_bind inv (P := fun _ _ => True) (Method.runs_tryCatch inv ((standing_commitAndCall inv its atomic own i).imp
    (fun _ _ _ _ _ => trivial) fun _ _ _ _ _ _ => Method.runs_pure fun _ _ _ => trivial)) fun release s₁ _ _ _ => ?_
  cases release with
  | blocked reason => exact Method.runs_pure fun _ _ _ => trivial
  | called reason cellResult rosOk =>
    exact standing_idle (Method.sends_bind (beside_idle.sendRelease true reason none none _) fun _ => Method.sends_pure _)

theorem standing_checkAndCall (inv : s.Standing jobs) (its : jobs (.gateway q body timedOut gateTimedOut)) (optimistic : q.atomic = false)
    (own : result.id = body.id) {i : ActionIntent} (same : i.predicates = body.predicates) (passed : a ∈ s.authorizations) (backed : result.BackedBy a)
    {doc : SnapshotDoc} (read : doc.trusted = true → doc.ReadAfter a (if q.scope = .truth then some result.predicates else none) s.store.patches)
    (state : Option IntentState) : Standing cfg jobs t (.gateway q body timedOut gateTimedOut)
      (checkAndCall t q i result doc state gateTimedOut) s fun _ _ => True := by
  refine standing_bind inv (standing_idle (sends_step (c := .time) trivial)) fun now s₁ inv₁ since _ => ?_
  cases checked : gateCheck cfg result i q.scope doc state now gateTimedOut with
  | error e => exact Method.runs_throw fun _ _ _ => trivial
  | ok out =>
    obtain ⟨ok, reason⟩ := out
    cases ok with
    | false => exact Method.runs_pure fun _ _ _ => trivial
    | true =>
      have after := (read (gateCheck_passed checked).1).grows since.2.patches
      have lasts : ∀ s s' : Site, (a ∈ s.authorizations ∧ doc.ReadAfter a (if q.scope = .truth then some result.predicates else none) s.store.patches) →
          s.RetainedBy s' → a ∈ s'.authorizations ∧ doc.ReadAfter a (if q.scope = .truth then some result.predicates else none) s'.store.patches :=
        fun _ _ holds moved => ⟨moved.authorizations.subset holds.1, holds.2.grows moved.patches⟩
      refine standing_bind inv₁ (standing_startCall its lasts (fun s' h holds => ?_) ⟨since.2.authorizations.subset passed, after⟩ _)
        fun _ _ _ _ _ => ?_
      · refine ⟨own.symm, a, holds.1, backed.id, ?_⟩
        cases stop : a.stop with
        | true => exact Or.inl rfl
        | false => exact Or.inr (Or.inr ⟨optimistic, _, passed_of_gateCheck same h.store.wf backed stop holds.2 checked⟩)
      · exact standing_idle (Method.sends_bind (idle_callActuator q.actuator _ _) fun _ => Method.sends_pure _)

theorem standing_releaseOptimistic (inv : s.Standing jobs) (its : jobs (.gateway q body timedOut gateTimedOut)) (optimistic : q.atomic = false)
    (own : result.id = body.id) {i : ActionIntent} (same : i.predicates = body.predicates) (passed : a ∈ s.authorizations) (backed : result.BackedBy a) :
    Standing cfg jobs t (.gateway q body timedOut gateTimedOut) (releaseOptimistic t q i result gateTimedOut) s fun _ _ => True := by
  refine standing_bind inv (standing_pullSnapshot inv passed _ result.id) fun read s₁ inv₁ since after => ?_
  refine standing_bind inv₁ (P := fun _ _ => True) (Method.runs_tryCatch inv₁ ((standing_checkAndCall inv₁ its optimistic own same
    (since.2.authorizations.subset passed) backed after read.2).imp (fun _ _ _ _ _ => trivial) fun _ _ _ _ _ _ =>
      Method.runs_pure fun _ _ _ => trivial)) fun release s₂ _ _ _ => ?_
  cases release with
  | blocked reason => exact standing_idle (Method.sends_bind (beside_idle.sendRelease false reason _ _ none) fun _ => Method.sends_pure _)
  | called reason cellResult rosOk =>
    exact standing_idle (Method.sends_bind (beside_idle.sendRelease true reason _ _ _) fun _ => Method.sends_pure _)

/-- A gateway run. -/
theorem standing_xairPolicy (inv : s.Standing jobs) (its : jobs (.gateway q body timedOut gateTimedOut)) :
    Standing cfg jobs t (.gateway q body timedOut gateTimedOut) (xairPolicy t q body timedOut gateTimedOut) s fun _ _ => True := by
  have submitted : Standing cfg jobs t (.gateway q body timedOut gateTimedOut) (tryCatch (do
      let result ← http (submitIntent t (some body) timedOut)
      return some result) fun _ => (pure none : Handler cfg (Option SubmitAnswer))) s fun found s' => ∀ result, found = some result →
      result.duplicate = true ∨ result.outcome ≠ some .execute ∨ result.id = body.id ∧ ∃ a ∈ s'.authorizations, result.BackedBy a := by
    refine Method.runs_tryCatch inv (Method.runs_map inv ((standing_submission inv).imp (fun _ _ _ _ ends => ends)
      fun _ _ _ _ _ _ => Method.runs_pure fun _ _ _ result none => by cases none) fun result _ s' _ ends result' same => ?_)
    exact Option.some.inj same ▸ ends
  refine standing_bind inv submitted fun found s₁ inv₁ _ ends => ?_
  cases found with
  | none => exact Method.runs_pure fun _ _ _ => trivial
  | some result =>
    refine Method.runs_ite (fun _ => Method.runs_pure fun _ _ _ => trivial) fun first => ?_
    refine Method.runs_ite (fun _ => Method.runs_pure fun _ _ _ => trivial) fun executes => ?_
    obtain ⟨own, a, passed, backed⟩ := ((ends result rfl).resolve_left first).resolve_left executes
    refine Method.runs_ite (fun stop => standing_releaseStop its own passed backed stop) fun _ => ?_
    refine Method.runs_ite (fun atomic => standing_releaseAtomic inv₁ its atomic own _) fun optimistic => ?_
    exact standing_releaseOptimistic inv₁ its (by simpa using optimistic) own rfl passed backed

end

/-! ### Jobs -/

/-- What is known of the API, and what stands behind every call. -/
abbrev grounded (cfg : SiteConfig) (jobs : DeploymentJob → Prop) : Discipline (site cfg) DeploymentJob :=
  (grounding cfg).both DeploymentJob.asks (standing cfg jobs)

/-- The request of the job writes JSON with each key once. -/
def DeploymentJob.Written (job : DeploymentJob) : Prop := job.asks.request.Written

theorem grounding_job (inv : s.Named ∧ s.Grounded) (written : job.Written) :
    Grounding cfg t job.asks (job.handle cfg t) s fun _ _ => True := by
  cases job with
  | request request =>
    have handled : Grounding cfg t ⟨0, request⟩ (request.handle cfg t) s fun _ _ => True := grounding_handle inv written
    exact grounding_then inv handled fun _ _ _ => grounding_pure _
  | gateway q body timedOut gateTimedOut => exact grounding_then inv (grounding_xairPolicy inv q body timedOut gateTimedOut) fun _ _ _ => grounding_pure _

theorem standing_job (inv : s.Standing jobs) (its : jobs job) : Standing cfg jobs t job (job.handle cfg t) s fun _ _ => True := by
  cases job with
  | gateway q body timedOut gateTimedOut =>
    exact standing_bind inv (standing_xairPolicy inv its) fun _ _ _ _ _ => Method.runs_pure fun _ _ _ => trivial
  | request request =>
    refine standing_bind inv (P := fun _ _ => True) ?_ fun _ _ _ _ _ => Method.runs_pure fun _ _ _ => trivial
    refine (Method.Runs.of_sends (fun c s _ served inv kept => ?_) (request.sends_served t)).imp (fun _ _ _ _ h => h) fun _ _ _ _ h => h
    exact keeps_standing cfg (Site.sameOutside_exec served s).starts inv kept

/-- Every job. -/
theorem grounded_job (inv : (s.Named ∧ s.Grounded) ∧ s.Standing jobs) (written : job.Written) (its : jobs job) :
    Method.Runs (grounded cfg jobs) t job (fun _ _ _ => True) (job.handle cfg t) () s (fun _ _ _ => True) fun _ _ _ => True := by
  have known : Grounding cfg t job.asks (job.handle cfg t) s fun _ _ => True := grounding_job inv.1 written
  exact (Method.Runs.both_kept (fun _ _ _ _ => ⟨trivial, trivial⟩) (fun c s' _ before after moved => ⟨before, after, moved⟩) known
    (standing_job inv.2 its)).imp (fun _ _ _ _ _ => trivial) fun _ _ _ _ _ => trivial

/-! ### Runs -/

omit [PyText] in
theorem DeploymentChange.sameInside (change : DeploymentChange) (s : Site) :
    s.SameInside (change.apply s) ∧ (change.apply s).starts = s.starts := by
  cases change with
  | announce =>
    simp only [DeploymentChange.apply, Site.announce]
    split <;> exact ⟨⟨rfl, rfl, rfl, rfl, rfl⟩, rfl⟩
  | _ => exact ⟨⟨rfl, rfl, rfl, rfl, rfl⟩, rfl⟩

variable (cfg jobs) in
def groundedContract : Contract (site cfg) (deployment cfg) (grounded cfg jobs) where
  Starts job := job.Written ∧ jobs job
  May _ _ _ _ _ := True
  LocalOk _ _ := True
  Fresh _ _ := True
  Since _ _ _ := True
  Post _ _ _ _ := True
  local_rely _ _ _ _ _ _ _ _ := trivial
  fresh_rely _ _ _ _ _ := trivial
  since_fresh _ _ _ _ := trivial
  since_step _ _ _ _ _ _ := trivial
  since_rely _ _ _ _ _ _ := trivial
  env_inv change s inv := by
    obtain ⟨same, starts⟩ := change.sameInside s
    obtain ⟨known, _, retained⟩ := same.keeps inv.1
    exact ⟨known, inv.2.retained inv.1.2 retained starts⟩
  env_rely change _ s inv :=
    have kept := (change.sameInside s).1.keeps inv.1
    ⟨kept.2, kept.2⟩

/-- A process and its gateways, on an empty store. -/
abbrev deploymentStart (cfg : SiteConfig) (heap : Ref → ActionIntent) (policy : Policy) (cell : Cell) : Pool (site cfg) (deployment cfg) :=
  Pool.init (Site.init heap .nil policy cell) fun _ => ()

end

/-! ### A run whose store moves on before the gate -/

def runningUpdate : DeploymentJob := .request (.update (.single "line" (.obj (.single "state" (.str "RUN".toList)))))

def gatedRun : DeploymentJob :=
  .gateway ⟨false, .readset, .plc .plain, false, 0, .done⟩ whenRunning (fun _ _ => false) fun _ _ => false

/-- The line runs, an intent that waits for it is validated, another line moves, and the gate lets the call through. -/
def standingRun : List ReportEvent :=
  .start 0 runningUpdate :: doneSteps 0 4 ++ .start 1 gatedRun :: doneSteps 1 15 ++
    .start 2 (.request (.update (.single "other" (.bool true)))) :: doneSteps 2 4 ++ doneSteps 1 20

theorem standingRun_written (pid : Nat) (job : DeploymentJob) (member : PoolEvent.start pid job ∈ standingRun) : job.Written := by
  simp only [standingRun, doneSteps, List.cons_append, List.mem_cons, List.mem_append, List.mem_replicate, reduceCtorEq,
    and_false, or_false, false_or, PoolEvent.start.injEq] at member
  rcases member with ⟨_, rfl⟩ | ⟨_, rfl⟩ | ⟨_, rfl⟩
  · simp [DeploymentJob.Written, DeploymentJob.asks, runningUpdate, Request.Written, Members.WF, Json.WF, Members.keys]
  · trivial
  · simp [DeploymentJob.Written, DeploymentJob.asks, Request.Written, Members.WF, Json.WF, Members.keys]

end Xair
