import Xair.Runtime.Records
import Xair.Server.Admissions
import Xair.Server.Naming

/-!
# Tombstones of withheld releases

`POST /withheld` logs its tombstone and moves the record in one step under the runtime's lock. That
a record was withheld this way is told later from its commit's position in the log.
-/

namespace Xair

open Library

/-- A tombstone of a withheld release of this intent. -/
def LogEntry.Withholds (x : Str) (e : LogEntry) : Prop :=
  e.record.get "intent_id".toList = some (.str x) ∧ e.record.get "withheld".toList = some (.bool true) ∧
    e.record.get "commit_version".toList = none

instance (x : Str) (e : LogEntry) : Decidable (e.Withholds x) := inferInstanceAs (Decidable (_ ∧ _))

/-! ### The runtime -/

/-- A commit that is withheld at the gateway. -/
theorem ends_reportRelease_committed (cfg : Config) {rt : Runtime} {id : Str} {record : IntentRecord}
    (found : rt.records.get id = some record) (state : record.state = .committed) (undecided : record.releaseDecision = none) (reason : Str) :
    Ends (reportRelease cfg id false reason none none) rt
      (fun a rt' => rt'.records.get id = some a ∧ a.state = .withheld ∧ a.commitSeq = record.commitSeq) fun _ _ => False := by
  rw [reportRelease, ends_bind, ends_get]
  simp only [found]
  rw [if_neg (by rw [state]; decide), if_neg (by rw [undecided]; decide), if_neg (by rw [undecided]; decide), if_neg (by rw [state]; decide)]
  rw [releaseTarget, ends_bind, ends_modify]
  simp only [gateVersionCheck, state, Bool.false_eq_true, and_false, if_false]
  refine (ends_assign_transition (by exact found) (by simp [state, IntentState.allowed])).mpr ?_
  rw [ends_bind, ends_modify, ends_pure]
  exact ⟨Dict.get_insert_self _ _ _, rfl, rfl⟩

/-- A revocation keeps records and audit trail in agreement. -/
theorem tracks_revoked {rt : Runtime} (tracks : Tracks rt) (id : Str) (outcome : Option DecisionOutcome) (reason : Str) :
    Tracks (finalState (transition id .revoked outcome reason) rt) := by
  refine Ends.finalState ?_
  cases found : rt.records.get id with
  | none =>
    rw [transition, ends_bind, ends_get]
    simp only [found]
    exact ends_throw.mpr tracks
  | some record =>
    by_cases allowed : IntentState.revoked ∈ record.state.allowed
    · refine (ends_transition found allowed).mpr ?_
      have moved : Settled id rt record .revoked (Runtime.movedRecord record .revoked outcome reason) (rt.move id record .revoked outcome reason) :=
        ⟨found, (Local.refl id rt).move record .revoked outcome reason, Dict.get_insert_self _ _ _, rfl, allowed, rfl, rfl, ⟨rfl, rfl⟩, rfl,
          ⟨outcome, reason, rfl⟩, fun c => ⟨c.decision.trans (IntentState.undecided_of_revocable allowed).1,
            c.effect.trans (IntentState.undecided_of_revocable allowed).2⟩, fun _ => rfl⟩
      exact moved.tracks tracks
    · exact (ends_transition_refused found allowed).mpr tracks

namespace Site

theorem runtime_runs {α : Type} (m : RuntimeM α) (s : Site) : (s.runs m).2.runtime = finalState m s.runtime := by
  rw [Site.runs, finalState, EStateM.run]
  cases m s.runtime <;> rfl

section

variable [PyText] {cfg : SiteConfig} {x : Str} {s : Site}

/-- Records and audit trail stay in agreement. -/
theorem tracks_exec {c : SiteCommand} (served : c.Served) (named : s.Named) (tracks : Tracks s.runtime) :
    Tracks (Site.exec cfg c s).2.runtime := by
  have op : ∀ op : Operation, Tracks (op.exec cfg.config s.runtime) := fun op => tracks.exec cfg.config op s.runtime
  cases c with
  | create intent =>
    intro id record stored
    obtain ⟨known, consistent, path⟩ := tracks id record stored
    refine ⟨?_, consistent, path⟩
    have used := (named id record stored).1
    exact (congrArg ActionIntent.id ((Runtime.heap_putIntent _ _ _ _).trans (if_neg (Nat.ne_of_lt used)))).trans known
  | setPreconditions ref preconditions => exact op (.setPreconditions ref preconditions)
  | prepare ref =>
    exact tracks.aside rfl ((Local.refl (s.runtime.heap ref).id s.runtime).putIntent (Policy.applyTo_id _ _)
      (congrArg ActionDescriptor.targetEntity (Policy.applyTo_payload _ _))
      (congrArg ActionDescriptor.actionType (Policy.applyTo_payload _ _))).ids rfl
  | admitIntent ref =>
    change Tracks (s.runs (Xair.admitIntent cfg.config ref s.mono false)).2.runtime
    rw [runtime_runs]
    exact op (.admitIntent ref s.mono false)
  | process ticket ref call =>
    change Tracks (s.runs (processIntent cfg.config { call with now := s.clock, requeue := false } ref)).2.runtime
    rw [runtime_runs]
    exact op (.processIntent _ ref)
  | transition id state outcome reason =>
    obtain rfl : state = .revoked := served
    change Tracks (s.runs (Xair.transition id .revoked outcome reason)).2.runtime
    rw [runtime_runs]
    exact tracks_revoked tracks id outcome reason
  | install snapshot => exact op (.installContext snapshot.context snapshot.version)
  | recordCommit id committed reason seq =>
    change Tracks (s.runs (recordCommit id committed reason seq)).2.runtime
    rw [runtime_runs]
    exact op (.recordCommit id committed reason seq)
  | reportRelease id released reason cv rv =>
    change Tracks (s.runs (Xair.reportRelease cfg.config id released reason cv rv)).2.runtime
    rw [runtime_runs]
    exact op (.reportRelease id released reason cv rv)
  | reportEffect id status detail =>
    change Tracks (s.runs (Xair.reportEffect id status detail)).2.runtime
    rw [runtime_runs]
    exact op (.reportEffect id status detail)
  | supervisoryRevoke id reason =>
    change Tracks (s.runs (Xair.supervisoryRevoke id reason)).2.runtime
    rw [runtime_runs]
    exact op (.supervisoryRevoke id reason)
  | releaseTarget record => exact tracks.aside rfl (fun _ => rfl) rfl
  | reportWithheld id reason append =>
    simp only [exec, reportWithheld]
    split
    · exact tracks
    split
    · exact tracks
    split
    · exact tracks
    split
    · rw [runtime_runs]
      exact op (.reportRelease id false reason none none)
    · exact tracks
    · exact tracks
  | setPolicy policy => exact op (.setPolicy policy)
  | registerAndSnapshot exprs =>
    simp only [exec]
    split
    · exact tracks
    · exact tracks
  | update patch =>
    simp only [exec]
    split
    · exact tracks
    · exact tracks
  | claimIntent id =>
    simp only [exec, claimIntent]
    split
    · split
      · split
        · exact tracks
        · exact tracks
      · exact tracks
    · exact tracks
  | _ => exact tracks

/-! ### The log -/

theorem actuations_register (retention now : ℚ) (exprs : List Str) (m : MemoryStore) :
    (m.register retention now exprs).1.actuations = m.actuations := by
  induction exprs generalizing m with
  | nil => rfl
  | cons e exprs ih =>
    rw [MemoryStore.register]
    split
    · exact ih m
    · split
      · exact ih _
      · rfl

/-- The step logs this entry: an authorization that the store grants, or a tombstone. -/
inductive Logs (s : Site) : SiteCommand → LogEntry → Prop
  | granted (req : CommitRequest) (grants : req.refusal s.store.committed (s.clock / 1000 * 1000 - req.decisionEpochMs)
      (req.observed s.store.snapshot.pathVersions s.store.preds) = none) :
    Logs s (.commitAuthorization req) ⟨s.store.stamped (s.clock / 1000) req, s.store.actuations.length,
      some ⟨req, s.store.snapshot.version, s.store.preds⟩⟩
  | appended (tombstone : Tombstone) : Logs s (.appendActuation tombstone) ⟨tombstone.record, s.store.actuations.length, none⟩
  | withheld (id reason : Str) (append : Fate) :
    Logs s (.reportWithheld id reason append) ⟨(withheldTombstone id reason).record, s.store.actuations.length, none⟩

variable (cfg s) in
/-- The log only grows, by what the step logs. -/
theorem log_exec (c : SiteCommand) :
    ∃ more, (Site.exec cfg c s).2.store.actuations = s.store.actuations ++ more ∧ ∀ e ∈ more, s.Logs c e := by
  have quiet : ∀ {s' : Site}, s'.store.actuations = s.store.actuations →
      ∃ more, s'.store.actuations = s.store.actuations ++ more ∧ ∀ e ∈ more, s.Logs c e :=
    fun same => ⟨[], by rw [same, List.append_nil], fun _ none => nomatch none⟩
  have logged : ∀ {s' : Site} {e : LogEntry}, s'.store.actuations = s.store.actuations ++ [e] → s.Logs c e →
      ∃ more, s'.store.actuations = s.store.actuations ++ more ∧ ∀ e ∈ more, s.Logs c e :=
    fun grown logs => ⟨_, grown, fun e member => List.mem_singleton.mp member ▸ logs⟩
  have runs : ∀ {α : Type} (m : RuntimeM α), (s.runs m).2.store.actuations = s.store.actuations := fun m => by rw [store_runs]
  cases c with
  | reportWithheld id reason append =>
    simp only [exec, reportWithheld]
    split
    · exact quiet rfl
    split
    · exact quiet rfl
    split
    · exact quiet rfl
    split
    · exact logged (by rw [store_runs]; rfl) (.withheld id reason _)
    · exact logged rfl (.withheld id reason _)
    · exact quiet rfl
  | appendActuation tombstone => exact logged rfl (.appended tombstone)
  | commitAuthorization req =>
    simp only [exec, MemoryStore.commit]
    split
    · exact quiet rfl
    · rename_i granted
      exact logged rfl (.granted req granted)
  | registerAndSnapshot exprs =>
    have same : (s.store.register cfg.predicateRetentionS (s.clock / 1000) exprs).1.actuations = s.store.actuations :=
      actuations_register _ _ _ _
    simp only [exec]
    split
    · rename_i m its
      rw [its] at same
      exact quiet same
    · rename_i m e its
      rw [its] at same
      refine quiet ?_
      split
      · rfl
      · exact same
  | update patch =>
    simp only [exec]
    split
    · rename_i m its
      rw [MemoryStore.update] at its
      cases applied : Xair.apply cfg.predicateRetentionS (s.clock / 1000) s.store.snapshot patch s.store.preds with
      | error e => rw [applied] at its; cases its
      | ok out =>
        rw [applied] at its
        obtain rfl := Except.ok.inj its
        exact quiet rfl
    · exact quiet rfl
  | claimIntent id =>
    simp only [exec, claimIntent]
    split
    · split
      · split
        · exact quiet rfl
        · exact quiet rfl
      · exact quiet rfl
    · exact quiet rfl
  | admitIntent ref => exact quiet (runs _)
  | process ticket ref call => exact quiet (runs (processIntent cfg.config { call with now := s.clock, requeue := false } ref))
  | transition id state outcome reason => exact quiet (runs _)
  | recordCommit id committed reason seq => exact quiet (runs _)
  | reportRelease id released reason cv rv => exact quiet (runs _)
  | reportEffect id status detail => exact quiet (runs _)
  | supervisoryRevoke id reason => exact quiet (runs _)
  | releaseTarget record => exact quiet (runs _)
  | _ => exact quiet rfl

/-- Nothing but `/withheld` logs a tombstone of a withheld release. -/
theorem logs_exec {c : SiteCommand} (served : c.Served) (other : ∀ id reason append, c ≠ .reportWithheld id reason append) :
    ∃ more, (Site.exec cfg c s).2.store.actuations = s.store.actuations ++ more ∧ ∀ e ∈ more, ¬e.Withholds x := by
  obtain ⟨more, grown, logs⟩ := log_exec cfg s c
  refine ⟨more, grown, fun e member withholds => ?_⟩
  cases logs e member with
  | granted req _ =>
    have version := withholds.2.2
    rw [show (MemoryStore.stamped _ _ _ : Members).get "commit_version".toList = _ from get_stampRecord_version _ _ _ _ _] at version
    cases version
  | appended tombstone =>
    have none : tombstone.record.get "withheld".toList = none := served
    rw [LogEntry.Withholds, none] at withholds
    exact nomatch withholds.2.1
  | withheld id reason append => exact other id reason append rfl

/-! ### `/withheld` -/

/-- The commit of the intent is known by its position in the log, and its release was withheld. -/
def WithheldAt (s : Site) (x : Str) : Prop :=
  ∃ record, s.runtime.records.get x = some record ∧ record.state = .withheld ∧ record.commitSeq.isSome = true

omit [PyText] in
/-- A repeated report answers the record and does nothing. -/
theorem WithheldAt.again (h : s.WithheldAt x) (cfg : SiteConfig) (reason : Str) (append : Fate) :
    ∃ record, s.reportWithheld cfg x reason append = (.ok record, s) := by
  obtain ⟨record, stored, state, seq⟩ := h
  refine ⟨record, ?_⟩
  simp only [reportWithheld, stored]
  rw [if_pos ⟨state, seq⟩]

omit [PyText] in
/-- How `/withheld` ends on a committed record: the tombstone is logged and the record moved, or the append has failed. -/
theorem reportWithheld_committed (tracks : Tracks s.runtime) {record : IntentRecord} (found : s.runtime.records.get x = some record)
    (state : record.state = .committed) (cfg : SiteConfig) (reason : Str) (append : Fate) :
    (append = .done ∧ ∃ a, (s.reportWithheld cfg x reason append).1 = .ok a ∧
        (s.reportWithheld cfg x reason append).2.store = s.store.append (withheldTombstone x reason) ∧
        (s.reportWithheld cfg x reason append).2.runtime.records.get x = some a ∧ a.state = .withheld ∧ a.commitSeq = record.commitSeq) ∨
      ∃ e, (s.reportWithheld cfg x reason append).1 = .error e ∧ append ≠ .done ∧
        (s.reportWithheld cfg x reason append).2.runtime = s.runtime ∧
        (append ≠ .broken true → (s.reportWithheld cfg x reason append).2 = s) := by
  have undecided : record.releaseDecision = none := (tracks x record found).consistent.decision.trans (by rw [state]; rfl)
  have first : ¬(record.state = .withheld ∧ record.commitSeq.isSome = true) := fun again => by cases state.symm.trans again.1
  simp only [reportWithheld, found]
  rw [if_neg first, if_neg (not_not.mpr state)]
  cases append with
  | done =>
    have ends := ends_reportRelease_committed cfg.config found state undecided reason
    simp only [runs]
    cases run : Xair.reportRelease cfg.config x false reason none none s.runtime with
    | error e rt => exact (ends.of_run_error run).elim
    | ok a rt =>
      obtain ⟨stored, reached, seq⟩ := ends.of_run_ok run
      have same : Xair.reportRelease cfg.config x false reason none none (s.withStore (s.store.append (withheldTombstone x reason))).runtime =
          .ok a rt := run
      rw [same]
      exact Or.inl ⟨trivial, a, rfl, rfl, stored, reached, seq⟩
  | refused => exact Or.inr ⟨_, rfl, (fun h => by cases h), rfl, fun _ => rfl⟩
  | broken took =>
    cases took with
    | false => exact Or.inr ⟨_, rfl, (fun h => by cases h), rfl, fun _ => rfl⟩
    | true => exact Or.inr ⟨_, rfl, (fun h => by cases h), rfl, fun lost => absurd rfl lost⟩

omit [PyText] in
/-- On any other record it does nothing. -/
theorem reportWithheld_other (other : s.state x ≠ some .committed) (cfg : SiteConfig) (reason : Str) (append : Fate) :
    (s.reportWithheld cfg x reason append).2 = s ∧
      ((∃ a, (s.reportWithheld cfg x reason append).1 = .ok a) → s.WithheldAt x) := by
  rw [state] at other
  simp only [reportWithheld]
  cases found : s.runtime.records.get x with
  | none => exact ⟨rfl, fun answered => by obtain ⟨_, same⟩ := answered; cases same⟩
  | some record =>
    rw [found] at other
    simp only
    by_cases again : record.state = .withheld ∧ record.commitSeq.isSome = true
    · rw [if_pos again]
      exact ⟨rfl, fun _ => ⟨record, found, again⟩⟩
    · rw [if_neg again, if_pos fun state => other (congrArg some state)]
      exact ⟨rfl, fun answered => by obtain ⟨_, same⟩ := answered; cases same⟩

end

end Site

/-- A call of `/withheld` that finds its record committed finds the position of the commit, and the answer to its append is not lost. -/
def SiteCommand.Traceable (s : Site) : SiteCommand → Prop
  | .reportWithheld id _ append =>
    match s.runtime.records.get id with
    | some record => record.state = .committed → record.commitSeq.isSome = true ∧ append ≠ .broken true
    | none => True
  | _ => True

instance (s : Site) (c : SiteCommand) : Decidable (c.Traceable s) := by
  rcases c <;> dsimp only [SiteCommand.Traceable] <;> try infer_instance
  rcases s.runtime.records.get _ <;> infer_instance

/-- An admission finds this id in the seen-table, within its window. -/
def SiteCommand.Retains (cfg : SiteConfig) (x : Str) (s : Site) : SiteCommand → Prop
  | .admitIntent _ => ∃ time, s.runtime.seen.get x = some time ∧ s.mono - cfg.config.idempotencyRetentionS ≤ time
  | _ => True

section

variable [PyText] {cfg : SiteConfig} {x : Str} {s : Site}

omit [PyText] in
theorem SiteCommand.Traceable.of_found {id reason : Str} {append : Fate} {record : IntentRecord}
    (h : (SiteCommand.reportWithheld id reason append).Traceable s) (found : s.runtime.records.get id = some record)
    (state : record.state = .committed) : record.commitSeq.isSome = true ∧ append ≠ .broken true := by
  simp only [SiteCommand.Traceable, found] at h
  exact h state

/-- A record at its end stays as it is as long as it is kept. -/
theorem Site.ended_exec {record : IntentRecord} (stored : s.runtime.records.get x = some record) (ended : record.state.allowed = [])
    {c : SiteCommand} (served : c.Served) (retains : c.Retains cfg x s) : (Site.exec cfg c s).2.runtime.records.get x = some record := by
  have routine : c.Routine → (Site.exec cfg c s).2.runtime.records.get x = some record := fun routine => by
    have reported : s.Reported _ (Site.exec cfg c s).2 := Site.reported_exec routine s
    rcases reported.records x with same | ⟨r, r', before, _, further⟩
    · exact same.trans stored
    · have allowed := further.allowed
      rw [Option.some.inj (before.symm.trans stored), ended] at allowed
      cases allowed
  cases c with
  | admitIntent ref =>
    obtain ⟨time, seen, young⟩ := retains
    have ends := ends_admitIntent_seen cfg.config ref s.mono s.runtime
    simp only [Site.exec, Site.runs]
    cases run : Xair.admitIntent cfg.config ref s.mono false s.runtime with
    | error e rt => exact (ends.of_run_error run).elim
    | ok a rt => exact ((ends.of_run_ok run).1 x time record seen young stored).2
  | process ticket ref call =>
    have attempt := (Site.processed_process cfg ticket ref call s).attempt
    change (s.process cfg ticket ref call).2.runtime.records.get x = some record
    by_cases own : x = (s.runtime.heap ref).id
    · subst own
      rcases attempt.opened with same | opened
      · rw [same]
        exact stored
      · have pending := IntentState.pending_of_validatable (opened record stored)
        rw [ended] at pending
        cases pending
    · exact (attempt.alone.others x own).trans stored
  | _ => exact routine served

/-! ### Runs -/

/-- The process is not restarted, and no admission drops the record of this id. -/
def RetainsRecord (cfg : SiteConfig) (x : Str) (P : Pool (site cfg) (endpoints cfg)) : PoolEvent (site cfg) (endpoints cfg) → Prop
  | .env (.restart _ _) => False
  | e => P.Meets (fun _ (c : SiteCommand) s => c.Retains cfg x s) e

/-- The event logs no tombstone of this intent, or `/withheld` logs one and moves the record from `COMMITTED` to `WITHHELD`. -/
def Tombstoned (cfg : SiteConfig) (x : Str) (P : Pool (site cfg) (endpoints cfg)) (e : PoolEvent (site cfg) (endpoints cfg)) : Prop :=
  (∃ more, (P.next_ e).shared.store.actuations = P.shared.store.actuations ++ more ∧ ∀ entry ∈ more, ¬entry.Withholds x) ∨
    (∃ reason append fate, P.Performs e (.reportWithheld x reason append) fate) ∧ P.shared.state x = some .committed ∧
      (P.next_ e).shared.state x = some .withheld ∧
        ∃ entry, (P.next_ e).shared.store.actuations = P.shared.store.actuations ++ [entry] ∧ entry.Withholds x

/-- If the event is an accepted call of `/withheld`, then the call is a duplicate as long as the record is kept: it is accepted
and does nothing. -/
def Repeatable (cfg : SiteConfig) (x : Str) (P : Pool (site cfg) (endpoints cfg)) (e : PoolEvent (site cfg) (endpoints cfg)) : Prop :=
  ∀ reason append, P.Performs e (.reportWithheld x reason append) .done → (∃ a, (P.shared.reportWithheld cfg x reason append).1 = .ok a) →
    ∀ between, Pool.Along (RetainsRecord cfg x) (P.next_ e) between → ∀ reason append, ∃ record,
      ((P.next_ e).run between).shared.reportWithheld cfg x reason append = (.ok record, ((P.next_ e).run between).shared)

variable (cfg) in
/-- A site as it is first started, without a request. -/
def sitePool (heap : Ref → ActionIntent) (context : Members) (policy : Policy) (cell : Cell) : Pool (site cfg) (endpoints cfg) :=
  Pool.init (Site.init heap context policy cell) fun _ => ()

variable {heap : Ref → ActionIntent} {context : Members} {policy : Policy} {cell : Cell}
  {events : List (PoolEvent (site cfg) (endpoints cfg))} {e : PoolEvent (site cfg) (endpoints cfg)}

theorem sends_endpoints (job : HttpJob) (t : Nat) (l : Unit) : ((endpoints cfg).code job t l).Sends SiteCommand.Served :=
  Request.sends_served t job.request l

theorem served_of_performs {c : SiteCommand} {fate : Fate} (performs : ((sitePool cfg heap context policy cell).run events).Performs e c fate) :
    c.Served := by
  obtain ⟨pid, t, job, next, _, busy⟩ := performs
  have sends : ∀ job t l, ((endpoints cfg).code job t l).Sends ((fun _ _ => SiteCommand.Served) t job) := sends_endpoints
  exact (Pool.sends_run sends (P := sitePool cfg heap context policy cell) (fun _ _ _ _ busy => nomatch busy) events busy).1

variable (cfg events) in
/-- Records and audit trail agree at every site that can be reached. -/
theorem tracks_sitePool : Tracks ((sitePool cfg heap context policy cell).run events).shared.runtime := by
  induction events using List.reverseRecOn with
  | nil => exact fun _ _ none => nomatch none
  | append_singleton events e ih =>
    have named : ((sitePool cfg heap context policy cell).run events).shared.Named :=
      Reached.named ⟨heap, context, policy, cell, events, rfl⟩
    rw [Pool.run_append]
    change Tracks (((sitePool cfg heap context policy cell).run events).next_ e).shared.runtime
    rcases Pool.shared_next ((sitePool cfg heap context policy cell).run events) e with
      same | ⟨pid, t, job, c, next, fate, its, busy, now⟩ | ⟨change, _, now⟩
    · rw [same]
      exact ih
    · rw [now]
      exact Service.perform_of (S := site cfg) (P := fun s : Site => Tracks s.runtime) ih
        (Site.tracks_exec (served_of_performs ⟨pid, t, job, next, its, busy⟩) named ih) fate
    · rw [now]
      cases change with
      | tick clock mono => exact ih
      | restart context policy => exact fun _ _ none => nomatch none

/-- What a step of `/withheld` for some intent does to the tombstones of `x`. -/
theorem tombstoned_reportWithheld {P : Pool (site cfg) (endpoints cfg)} {id reason : Str} {append fate : Fate}
    (tracks : Tracks P.shared.runtime) (traceable : (SiteCommand.reportWithheld id reason append).Traceable P.shared)
    (performs : P.Performs e (.reportWithheld id reason append) fate) : Tombstoned cfg x P e := by
  have nothing : (P.next_ e).shared = P.shared → Tombstoned cfg x P e := fun same =>
    Or.inl ⟨[], by rw [same, List.append_nil], fun _ none => nomatch none⟩
  have executed : (P.next_ e).shared = P.shared ∨ (P.next_ e).shared = (P.shared.reportWithheld cfg id reason append).2 := by
    rw [performs.shared]
    exact Service.perform_of (S := site cfg) (P := fun s => s = P.shared ∨ s = (P.shared.reportWithheld cfg id reason append).2) (Or.inl rfl)
      (Or.inr rfl) fate
  rcases executed with same | now
  · exact nothing same
  · by_cases committed : P.shared.state id = some .committed
    · obtain ⟨record, found, state⟩ := Option.map_eq_some_iff.mp committed
      rcases Site.reportWithheld_committed tracks found state cfg reason append with
        ⟨_, a, _, store, stored, reached, _⟩ | ⟨_, _, _, _, unlost⟩
      · rw [← now] at store stored
        have log : (P.next_ e).shared.store.actuations =
            P.shared.store.actuations ++ [⟨(withheldTombstone id reason).record, P.shared.store.actuations.length, none⟩] := by
          rw [store]
          rfl
        by_cases own : id = x
        · subst own
          exact Or.inr ⟨⟨reason, append, fate, performs⟩, committed, by rw [Site.state, stored]; exact congrArg some reached,
            _, log, rfl, rfl, rfl⟩
        · refine Or.inl ⟨_, log, fun entry member withholds => own ?_⟩
          rw [List.mem_singleton.mp member] at withholds
          exact Json.str.inj (Option.some.inj withholds.1)
      · exact nothing (now.trans (unlost (traceable.of_found found state).2))
    · exact nothing (now.trans (Site.reportWithheld_other committed cfg reason append).1)

/-- The record that an accepted call of `/withheld` leaves. -/
theorem withheldAt_accepted {P : Pool (site cfg) (endpoints cfg)} {reason : Str} {append : Fate} (tracks : Tracks P.shared.runtime)
    (traceable : (SiteCommand.reportWithheld x reason append).Traceable P.shared)
    (performs : P.Performs e (.reportWithheld x reason append) .done) (accepted : ∃ a, (P.shared.reportWithheld cfg x reason append).1 = .ok a) :
    (P.next_ e).shared.WithheldAt x := by
  have now : (P.next_ e).shared = (P.shared.reportWithheld cfg x reason append).2 := performs.shared
  obtain ⟨a, ok⟩ := accepted
  by_cases committed : P.shared.state x = some .committed
  · obtain ⟨record, found, state⟩ := Option.map_eq_some_iff.mp committed
    rcases Site.reportWithheld_committed tracks found state cfg reason append with ⟨_, a, _, _, stored, reached, seq⟩ | ⟨_, failed, _⟩
    · rw [← now] at stored
      exact ⟨a, stored, reached, by rw [seq]; exact (traceable.of_found found state).1⟩
    · rw [ok] at failed
      cases failed
  · obtain ⟨same, before⟩ := Site.reportWithheld_other committed cfg reason append
    rw [now, same]
    exact before ⟨a, ok⟩

/-- A record at its end along a run that keeps it. -/
theorem ended_run (P : List (PoolEvent (site cfg) (endpoints cfg))) {between : List (PoolEvent (site cfg) (endpoints cfg))} {record : IntentRecord}
    (stored : ((sitePool cfg heap context policy cell).run P).shared.runtime.records.get x = some record) (ended : record.state.allowed = [])
    (retains : Pool.Along (RetainsRecord cfg x) ((sitePool cfg heap context policy cell).run P) between) :
    (((sitePool cfg heap context policy cell).run P).run between).shared.runtime.records.get x = some record := by
  induction between generalizing P with
  | nil => exact stored
  | cons e between ih =>
    have next : ((sitePool cfg heap context policy cell).run P).next_ e = (sitePool cfg heap context policy cell).run (P ++ [e]) :=
      (Pool.run_append _ P [e]).symm
    have kept : (((sitePool cfg heap context policy cell).run P).next_ e).shared.runtime.records.get x = some record := by
      rcases Pool.shared_next ((sitePool cfg heap context policy cell).run P) e with
        same | ⟨pid, t, job, c, rest, fate, its, busy, now⟩ | ⟨change, its, now⟩
      · rw [same]
        exact stored
      · rw [now]
        have performs : ((sitePool cfg heap context policy cell).run P).Performs e c fate := ⟨pid, t, job, rest, its, busy⟩
        have served := served_of_performs performs
        subst its
        have meets : Pool.Meets (fun _ (c : SiteCommand) s => c.Retains cfg x s) ((sitePool cfg heap context policy cell).run P)
            (.step pid fate) := retains.1
        have retains : c.Retains cfg x ((sitePool cfg heap context policy cell).run P).shared := meets.command busy
        exact Service.perform_of (S := site cfg) (P := fun s : Site => s.runtime.records.get x = some record) stored
          (Site.ended_exec stored ended served retains) fate
      · rw [now]
        subst its
        cases change with
        | tick clock mono => exact stored
        | restart context policy => exact retains.1.elim
    have later := retains.2
    rw [next] at kept later
    have done := ih (P ++ [e]) kept later
    rw [← next] at done
    exact done

/-- A withheld record along a run that keeps it. -/
theorem withheldAt_run (P : List (PoolEvent (site cfg) (endpoints cfg))) {between : List (PoolEvent (site cfg) (endpoints cfg))}
    (h : ((sitePool cfg heap context policy cell).run P).shared.WithheldAt x)
    (retains : Pool.Along (RetainsRecord cfg x) ((sitePool cfg heap context policy cell).run P) between) :
    (((sitePool cfg heap context policy cell).run P).run between).shared.WithheldAt x := by
  obtain ⟨record, stored, state, seq⟩ := h
  exact ⟨record, ended_run P stored (by rw [state]; rfl) retains, state, seq⟩

/-- In any run in which every call of `/withheld` that finds its record committed also finds the position of the commit and hears of
its append: a tombstone is logged only by such a call, one for each record that it moves from `COMMITTED` to `WITHHELD`; and an accepted call,
repeated as long as the record is kept, is a duplicate. If its append fails, a record stays committed. -/
theorem withheld_once (x : Str) (heap : Ref → ActionIntent) (context : Members) (policy : Policy) (cell : Cell)
    {events : List (PoolEvent (site cfg) (endpoints cfg))} {e : PoolEvent (site cfg) (endpoints cfg)}
    (traceable : Pool.Along (Pool.Meets fun _ (c : SiteCommand) s => c.Traceable s) (sitePool cfg heap context policy cell) (events ++ [e])) :
    let P := (sitePool cfg heap context policy cell).run events
    Tombstoned cfg x P e ∧ Repeatable cfg x P e ∧
      ∀ reason append fate, append ≠ .done → P.Performs e (.reportWithheld x reason append) fate →
        P.shared.state x = some .committed → (P.next_ e).shared.state x = some .committed := by
  intro P
  have tracks : Tracks P.shared.runtime := tracks_sitePool cfg events
  have last : Pool.Meets (fun _ (c : SiteCommand) s => c.Traceable s) P e := Pool.along_last traceable
  have traced : ∀ {c fate}, P.Performs e c fate → SiteCommand.Traceable P.shared c := by
    rintro c fate ⟨pid, t, job, next, rfl, busy⟩
    exact last.command busy
  refine ⟨?_, fun reason append performs accepted between retains reason' append' => ?_, fun reason append fate failed performs committed => ?_⟩
  · rcases Pool.shared_next P e with same | ⟨pid, t, job, c, next, fate, its, busy, now⟩ | ⟨change, its, now⟩
    · exact Or.inl ⟨[], by rw [same, List.append_nil], fun _ none => nomatch none⟩
    · have performs : P.Performs e c fate := ⟨pid, t, job, next, its, busy⟩
      by_cases through : ∃ id reason append, c = .reportWithheld id reason append
      · obtain ⟨id, reason, append, rfl⟩ := through
        exact tombstoned_reportWithheld tracks (traced performs) performs
      · refine Or.inl ?_
        have logs : ∃ more, (Site.exec cfg c P.shared).2.store.actuations = P.shared.store.actuations ++ more ∧
            ∀ entry ∈ more, ¬entry.Withholds x :=
          Site.logs_exec (served_of_performs performs) fun id reason append same => through ⟨id, reason, append, same⟩
        rw [now]
        exact Service.perform_of (S := site cfg) (P := fun s : Site => ∃ more, s.store.actuations = P.shared.store.actuations ++ more ∧
          ∀ entry ∈ more, ¬LogEntry.Withholds x entry) ⟨[], (List.append_nil _).symm, fun _ none => nomatch none⟩ logs fate
    · refine Or.inl ⟨[], ?_, fun _ none => nomatch none⟩
      rw [now, List.append_nil]
      cases change <;> rfl
  · have accepted := withheldAt_accepted tracks (traced performs) performs accepted
    have next : P.next_ e = (sitePool cfg heap context policy cell).run (events ++ [e]) := (Pool.run_append _ events [e]).symm
    rw [next] at accepted retains ⊢
    exact (withheldAt_run _ accepted retains).again cfg reason' append'
  · obtain ⟨record, found, state⟩ := Option.map_eq_some_iff.mp committed
    rw [performs.shared]
    refine Service.perform_of (S := site cfg) (P := fun s : Site => s.state x = some .committed) committed ?_ fate
    rcases Site.reportWithheld_committed tracks found state cfg reason append with ⟨done, _⟩ | ⟨_, _, _, same, _⟩
    · exact absurd done failed
    · change (P.shared.reportWithheld cfg x reason append).2.state x = some .committed
      rw [Site.state, same]
      exact committed

end

/-! ### Two commits at once -/

def commitNow (pid : Nat) : OnceEvent := .start pid ⟨0, .commit "a".toList .readset 0⟩

/-- A submission, and a commit. -/
def committedOnce : List OnceEvent :=
  .start 0 ⟨0, submission⟩ :: List.replicate 14 (.step 0 .done) ++ commitNow 1 :: List.replicate 6 (.step 1 .done)

/-- A submission, and two commits that both find it authorized; the record hears of the second answer first. -/
def committedTwice : List OnceEvent :=
  .start 0 ⟨0, submission⟩ :: List.replicate 14 (.step 0 .done) ++ [commitNow 1, commitNow 2] ++ List.replicate 4 (.step 1 .done) ++
    List.replicate 6 (.step 2 .done) ++ List.replicate 2 (.step 1 .done)

def reportNow (append : Fate) : OnceEvent := .start 3 ⟨0, .withheld "a".toList [] append⟩

/-- After these events a call of `/withheld` has been sent; its append has this fate. -/
def withholding (events : List OnceEvent) (append : Fate) : @Pool (@site PyText.ascii onceConfig) (@endpoints PyText.ascii onceConfig) :=
  onceStart.run (events ++ [reportNow append])

theorem withholding_performs {events : List OnceEvent} (others : ∀ e ∈ events, e.pid ≠ some 3) (append : Fate) :
    (withholding events append).Performs (.step 3 .done) (.reportWithheld "a".toList [] append) .done := by
  have idle : (onceStart.run events).procs 3 = .idle () := Pool.procs_run others onceStart
  rw [withholding, Pool.run_append]
  exact Pool.performs_start idle rfl .done

theorem withheld_once_committedOnce :
    let P := withholding committedOnce .done
    @Tombstoned PyText.ascii onceConfig "a".toList P (.step 3 .done) ∧
      @Repeatable PyText.ascii onceConfig "a".toList P (.step 3 .done) ∧
      ∀ reason append fate, append ≠ .done → P.Performs (.step 3 .done) (.reportWithheld "a".toList reason append) fate →
        P.shared.state "a".toList = some .committed → (P.next_ (.step 3 .done)).shared.state "a".toList = some .committed :=
  @withheld_once PyText.ascii onceConfig "a".toList (fun _ => plainIntent "" "") .nil .empty (.boot none 0)
    (committedOnce ++ [reportNow .done]) (.step 3 .done) (by decide +kernel)

/-- The record does not know the position of its commit, and the tombstone's reply is lost. -/
theorem withheld_committedTwice :
    (¬@Repeatable PyText.ascii onceConfig "a".toList (withholding committedTwice .done) (.step 3 .done)) ∧
      ¬@Tombstoned PyText.ascii onceConfig "a".toList (withholding committedOnce (.broken true)) (.step 3 .done) := by
  constructor
  · intro repeatable
    have accepted : ((withholding committedTwice .done).shared.reportWithheld onceConfig "a".toList [] .done).1.toBool = true := by
      decide +kernel
    have refused : (((withholding committedTwice .done).next_ (.step 3 .done)).shared.reportWithheld onceConfig "a".toList [] .done).1.toBool =
        false := by decide +kernel
    have ok : ∃ a, ((withholding committedTwice .done).shared.reportWithheld onceConfig "a".toList [] .done).1 = .ok a := by
      revert accepted
      cases ((withholding committedTwice .done).shared.reportWithheld onceConfig "a".toList [] .done).1 with
      | ok a => exact fun _ => ⟨a, rfl⟩
      | error _ => exact fun none => nomatch none
    obtain ⟨record, again⟩ := repeatable [] .done (withholding_performs (by decide) .done) ok [] trivial [] .done
    rw [show ((withholding committedTwice .done).next_ (.step 3 .done)).run [] = (withholding committedTwice .done).next_ (.step 3 .done) from rfl] at again
    rw [again] at refused
    cases refused
  · have logged : (((withholding committedOnce (.broken true)).next_ (.step 3 .done)).shared.store.actuations.drop
        (withholding committedOnce (.broken true)).shared.store.actuations.length).any (fun entry => decide (entry.Withholds "a".toList)) = true := by
      decide +kernel
    have stays : ((withholding committedOnce (.broken true)).next_ (.step 3 .done)).shared.state "a".toList = some .committed := by
      decide +kernel
    rintro (⟨more, log, none⟩ | ⟨_, _, moved, _⟩)
    · rw [log, List.drop_left] at logged
      obtain ⟨entry, member, withholds⟩ := List.any_eq_true.mp logged
      exact none entry member (of_decide_eq_true withholds)
    · rw [stays] at moved
      cases moved

end Xair
