import Xair.Runtime.Collection
import Xair.Server.Tombstones

/-!
# Withdrawn authorizations

A commit looks at the record of its intent, has the authorization logged, and tells the record, in three steps. The records and
the log agree as long as nothing withdraws the intent in between, and as long as the answer of the store is not lost.
-/

namespace Xair

open Library

/-- An authorization of this intent: an entry with a `commit_version`. -/
def LogEntry.Authorizes (x : Str) (e : LogEntry) : Prop :=
  e.record.get "intent_id".toList = some (.str x) ∧ e.record.get "commit_version".toList ≠ none

instance (x : Str) (e : LogEntry) : Decidable (e.Authorizes x) := inferInstanceAs (Decidable (_ ∧ _))

namespace Site

/-- The log has an authorization of the intent. -/
def HasLogged (x : Str) (s : Site) : Prop := ∃ e ∈ s.store.actuations, e.Authorizes x

instance (x : Str) (s : Site) : Decidable (s.HasLogged x) := inferInstanceAs (Decidable (∃ e ∈ s.store.actuations, e.Authorizes x))

/-- The record of the intent is `REVOKED` or `WITHHELD`. -/
def Withdrawn (x : Str) (s : Site) : Prop := s.state x = some .revoked ∨ s.state x = some .withheld

instance (x : Str) (s : Site) : Decidable (s.Withdrawn x) := inferInstanceAs (Decidable (_ ∨ _))

end Site

section

variable [PyText]

instance (rt : Runtime) (id : Str) : Decidable (rt.Open id) :=
  match found : rt.records.get id with
  | none => .isTrue fun _ stored => nomatch found.symm.trans stored
  | some record => decidable_of_iff (record.state.validatable = true)
      ⟨fun open_ _ stored => Option.some.inj (found.symm.trans stored) ▸ open_, fun h => h record found⟩

instance (decided : Except PyError (DecisionOutcome × Str)) (p : Str → Prop) [DecidablePred p] :
    Decidable (∃ reason, decided = .ok (.revoke, reason) ∧ p reason) :=
  match decided with
  | .ok (.revoke, reason) => decidable_of_iff (p reason) ⟨fun h => ⟨reason, rfl, h⟩, fun ⟨_, same, h⟩ => by cases same; exact h⟩
  | .ok (.execute, _) | .ok (.delay, _) | .ok (.degrade, _) | .error _ => .isFalse fun ⟨_, same, _⟩ => nomatch same

instance (cfg : Config) (call : ProcessCall) (rt : Runtime) (ref : Ref) (state : IntentState) : Decidable (RevokesTo cfg call rt ref state) :=
  inferInstanceAs (Decidable (_ ∧ _ ∧ (_ ∨ _)))

/-- The step takes the intent back: its record becomes `REVOKED`, or `WITHHELD` without having been `COMMITTED`. -/
def SiteCommand.Withdraws (cfg : SiteConfig) (x : Str) (s : Site) : SiteCommand → Prop
  | .process _ ref call => (s.runtime.heap ref).id = x ∧
      RevokesTo cfg.config { call with now := s.clock, requeue := false } s.runtime ref .revoked
  | .transition id _ _ _ => id = x ∧ (s.state x).any fun state => decide (.revoked ∈ state.allowed)
  | .supervisoryRevoke id _ => id = x ∧ (s.state x).any fun state => decide (.revoked ∈ state.allowed)
  | .recordCommit id committed _ _ => id = x ∧ committed = false ∧ s.state x = some .authorized
  | .reportRelease id released reason cv rv => id = x ∧ (s.runtime.records.get x).any fun record =>
      decide (record.state = .authorized) && !(gateVersionCheck record released reason cv rv).1
  | _ => False

instance (cfg : SiteConfig) (x : Str) (s : Site) (c : SiteCommand) : Decidable (c.Withdraws cfg x s) := by
  rcases c <;> dsimp only [SiteCommand.Withdraws] <;> infer_instance

/-- The store grants the step an authorization of the intent. -/
def SiteCommand.Authorizes (x : Str) (s : Site) : SiteCommand → Prop
  | .commitAuthorization req => req.intentId = x ∧
      req.refusal s.store.committed (s.clock / 1000 * 1000 - req.decisionEpochMs)
        (req.observed s.store.snapshot.pathVersions s.store.preds) = none
  | _ => False

instance (x : Str) (s : Site) (c : SiteCommand) : Decidable (c.Authorizes x s) := by
  rcases c <;> dsimp only [SiteCommand.Authorizes] <;> infer_instance

/-- The step does not withdraw an intent with a logged authorization, and logs none of an intent that is withdrawn. -/
def SiteCommand.Apart (cfg : SiteConfig) (x : Str) (s : Site) (c : SiteCommand) : Prop :=
  (c.Withdraws cfg x s → ¬s.HasLogged x) ∧ (c.Authorizes x s → ¬s.Withdrawn x)

instance (cfg : SiteConfig) (x : Str) (s : Site) (c : SiteCommand) : Decidable (c.Apart cfg x s) := inferInstanceAs (Decidable (_ ∧ _))

/-! ### One step -/

namespace Site

variable {cfg : SiteConfig} {x : Str} {s : Site}

omit [PyText] in
theorem state_of_stored {s' : Site} (same : s'.runtime.records.get x = s.runtime.records.get x) : s'.state x = s.state x :=
  congrArg (Option.map IntentRecord.state) same

omit [PyText] in
/-- A withheld release report withholds from `COMMITTED`, or it withdraws. -/
theorem withheld_reportRelease (cfg : SiteConfig) {id reason : Str} {released : Bool} {cv rv : Option Int}
    (now : (s.runs (Xair.reportRelease cfg.config id released reason cv rv)).2.state id = some .withheld) :
    s.state id = some .withheld ∨ s.state id = some .committed ∨
      (s.runtime.records.get id).any fun record => decide (record.state = .authorized) && !(gateVersionCheck record released reason cv rv).1 := by
  rw [state, runtime_runs] at now
  revert now
  refine Ends.finalState (P := fun rt' => Option.map IntentRecord.state (Dict.get (Runtime.records rt') id) = some .withheld → _)
    ((ends_reportRelease cfg.config s.runtime id released reason cv rv).imp ?_ fun _ _ noted now => ?_)
  · rintro a rt' (⟨rfl, _⟩ | ⟨record, reached, from_, _, checked, moved, _⟩) now
    · exact Or.inl now
    · rw [moved.stored, Option.map_some, moved.reached] at now
      rcases from_ with authorized | committed
      · rcases checked with ⟨failed, _⟩ | ⟨_, _, rfl⟩
        · exact Or.inr (Or.inr (by rw [moved.found, Option.any_some, authorized, failed]; rfl))
        · cases now
      · exact Or.inr (Or.inl (by rw [state, moved.found, Option.map_some, committed]))
  · rw [noted.records] at now
    exact Or.inl now

omit [PyText] in
theorem Withdrawn.record (h : s.Withdrawn x) :
    ∃ r, s.runtime.records.get x = some r ∧ (r.state = .revoked ∨ r.state = .withheld) := by
  rcases h with revoked | withheld
  · obtain ⟨r, stored, state⟩ := Option.map_eq_some_iff.mp revoked
    exact ⟨r, stored, Or.inl state⟩
  · obtain ⟨r, stored, state⟩ := Option.map_eq_some_iff.mp withheld
    exact ⟨r, stored, Or.inr state⟩

omit [PyText] in
theorem Withdrawn.of_state (h : s.Withdrawn x) {after : IntentState} (now : s.state x = some after) : after = .revoked ∨ after = .withheld :=
  h.imp (fun revoked => Option.some.inj (now.symm.trans revoked)) fun withheld => Option.some.inj (now.symm.trans withheld)

/-- A routine step leaves the state of a record alone, or is a report that moves it on. -/
theorem state_exec {c : SiteCommand} (routine : c.Routine) : (Site.exec cfg c s).2.state x = s.state x ∨
    ∃ before after, s.state x = some before ∧ (Site.exec cfg c s).2.state x = some after ∧ after ∈ before.allowed ∧ c.Reaches x after := by
  have reported : s.Reported (fun x reached => c.Reaches x reached) (Site.exec cfg c s).2 := Site.reported_exec routine s
  rcases reported.records x with same | ⟨r, r', before, now, further⟩
  · exact Or.inl (state_of_stored same)
  · rcases reported.reaches x r' now with same | reaches
    · exact Or.inl (state_of_stored (now.trans same.symm))
    · exact Or.inr ⟨r.state, r'.state, by rw [state, before]; rfl, by rw [state, now]; rfl, further.allowed, reaches⟩

/-- A pass revokes its intent, or has found it as it is. -/
theorem withdrawn_process {ticket : Nat} {ref : Ref} {call : ProcessCall} (withdrawn : (s.process cfg ticket ref call).2.Withdrawn x) :
    (s.process cfg ticket ref call).2.state x = s.state x ∨ (SiteCommand.process ticket ref call).Withdraws cfg x s := by
  have runtime : (s.process cfg ticket ref call).2.runtime =
      finalState (processIntent cfg.config { call with now := s.clock, requeue := false } ref) s.runtime := runtime_runs _ s
  obtain ⟨r, stored, settled⟩ := withdrawn.record
  by_cases own : (s.runtime.heap ref).id = x
  · subst own
    rw [runtime] at stored
    have final : r.state.settled = true := by rcases settled with h | h <;> rw [h] <;> rfl
    rcases revokesTo_processIntent _ _ _ _ stored final with same | revokes
    · left
      rw [state, runtime, stored, state, same]
    · right
      rcases settled with revoked | withheld
      · exact ⟨rfl, revoked ▸ revokes⟩
      · rw [withheld] at revokes
        rcases revokes.2.2 with ⟨_, none⟩ | ⟨reason, _, none⟩
        · cases none
        · revert none
          split <;> exact fun h => by cases h
  · have attempt := (Site.processed_process cfg ticket ref call s).attempt
    exact Or.inl (state_of_stored (attempt.alone.others x (Ne.symm own)))

/-- A record that is revoked or withheld was so before, or was committed, or the step withdraws it. -/
theorem withdrawn_exec {c : SiteCommand} (served : c.Served) (withdrawn : (Site.exec cfg c s).2.Withdrawn x) :
    (Site.exec cfg c s).2.state x = s.state x ∨
      (s.state x = some .committed ∧ (Site.exec cfg c s).2.state x = some .withheld) ∨ c.Withdraws cfg x s := by
  have revocable : ∀ {before : IntentState}, s.state x = some before → .revoked ∈ before.allowed →
      ((s.state x).any fun state => decide (.revoked ∈ state.allowed)) = true := by
    intro before stored allowed
    rw [stored, Option.any_some]
    exact decide_eq_true allowed
  have withholdable : ∀ {before : IntentState}, .withheld ∈ before.allowed → before = .authorized ∨ before = .committed := by
    intro before
    cases before <;> decide
  have reports : c.Routine → (Site.exec cfg c s).2.state x = s.state x ∨
      ∃ before after, s.state x = some before ∧ (Site.exec cfg c s).2.state x = some after ∧ after ∈ before.allowed ∧ c.Reaches x after :=
    state_exec
  cases c with
  | admitIntent ref =>
    have ends := ends_admitIntent cfg.config ref s.mono false s.runtime
    obtain ⟨r, stored, settled⟩ := withdrawn.record
    simp only [Site.exec, Site.runs] at stored ⊢
    cases run : Xair.admitIntent cfg.config ref s.mono false s.runtime with
    | error e rt => exact (ends.of_run_error run).elim
    | ok a rt =>
      rw [run] at stored
      rcases (ends.of_run_ok run).1.records x r stored with old | ⟨_, rfl⟩
      · exact Or.inl (state_of_stored (stored.trans old.symm))
      · rcases settled with none | none <;> cases none
  | process ticket ref call => exact (withdrawn_process withdrawn).imp_right Or.inr
  | transition id target outcome reason =>
    rcases reports served with same | ⟨before, after, was, _, allowed, rfl, rfl⟩
    · exact Or.inl same
    · obtain rfl : after = .revoked := served
      exact Or.inr (Or.inr ⟨rfl, revocable was allowed⟩)
  | recordCommit id committed reason seq =>
    rcases reports trivial with same | ⟨before, after, was, now, allowed, rfl, rfl⟩
    · exact Or.inl same
    · cases committed with
      | true => rcases withdrawn.of_state now with none | none <;> cases none
      | false =>
        rcases withholdable allowed with rfl | rfl
        · exact Or.inr (Or.inr ⟨rfl, rfl, was⟩)
        · exact Or.inr (Or.inl ⟨was, now⟩)
  | reportRelease id released reason cv rv =>
    rcases reports trivial with same | ⟨before, after, was, now, _, rfl, withheld | ⟨_, rfl⟩⟩
    · exact Or.inl same
    · subst withheld
      rcases withheld_reportRelease cfg now with same | committed | checked
      · exact Or.inl (now.trans same.symm)
      · exact Or.inr (Or.inl ⟨committed, now⟩)
      · exact Or.inr (Or.inr ⟨rfl, checked⟩)
    · rcases withdrawn.of_state now with none | none <;> cases none
  | reportEffect id status detail =>
    rcases reports trivial with same | ⟨before, after, was, now, _, rfl, rfl⟩
    · exact Or.inl same
    · rcases withdrawn.of_state now with none | none <;> cases status <;> cases none
  | supervisoryRevoke id reason =>
    rcases reports trivial with same | ⟨before, after, was, _, allowed, rfl, rfl⟩
    · exact Or.inl same
    · exact Or.inr (Or.inr ⟨rfl, revocable was allowed⟩)
  | reportWithheld id reason append =>
    rcases reports trivial with same | ⟨before, after, was, now, _, rfl, rfl⟩
    · exact Or.inl same
    · by_cases committed : s.state id = some .committed
      · exact Or.inr (Or.inl ⟨committed, now⟩)
      · left
        rw [show (Site.exec cfg (.reportWithheld id reason append) s).2 = s from (reportWithheld_other committed cfg reason append).1]
  | _ =>
    rcases reports served with same | ⟨_, _, _, _, _, reaches⟩
    · exact Or.inl same
    · exact reaches.elim

/-- An authorization that is logged was so before, or the store grants it to the step, which leaves the record alone. -/
theorem hasLogged_exec {c : SiteCommand} (logged : (Site.exec cfg c s).2.HasLogged x) :
    s.HasLogged x ∨ c.Authorizes x s ∧ (Site.exec cfg c s).2.state x = s.state x := by
  obtain ⟨more, grown, logs⟩ := log_exec cfg s c
  obtain ⟨e, member, authorizes⟩ := logged
  rw [grown] at member
  rcases List.mem_append.mp member with old | new
  · exact Or.inl ⟨e, old, authorizes⟩
  · right
    obtain ⟨own, version⟩ := authorizes
    cases logs e new with
    | granted req grants =>
      rw [show (MemoryStore.stamped _ _ _ : Members).get "intent_id".toList = _ from get_stampRecord_id _ _ _ _ _] at own
      exact ⟨⟨Json.str.inj (Option.some.inj own), grants⟩, rfl⟩
    | appended tombstone => exact absurd tombstone.unauthorized version
    | withheld id reason append => exact absurd (withheldTombstone id reason).unauthorized version

end Site

/-! ### Runs -/

variable {cfg : SiteConfig} {x : Str} {heap : Ref → ActionIntent} {context : Members} {policy : Policy} {cell : Cell}
  {events : List (PoolEvent (site cfg) (endpoints cfg))} {e : PoolEvent (site cfg) (endpoints cfg)}

/-- The steps that take effect keep records and log apart. -/
def KeepsApart (cfg : SiteConfig) (x : Str) (P : Pool (site cfg) (endpoints cfg)) : PoolEvent (site cfg) (endpoints cfg) → Prop :=
  P.Allows fun _ _ (c : SiteCommand) s fate => fate ∈ [.done, .broken true] → c.Apart cfg x s

instance (P : Pool (site cfg) (endpoints cfg)) (e : PoolEvent (site cfg) (endpoints cfg)) : Decidable (KeepsApart cfg x P e) :=
  inferInstanceAs (Decidable (P.Allows _ e))

/-- The record of the intent was `COMMITTED`, and has at most been withheld since. -/
def ThroughCommitted (x : Str) (P : Pool (site cfg) (endpoints cfg)) (events : List (PoolEvent (site cfg) (endpoints cfg))) : Prop :=
  ∃ n ≤ events.length, (P.run (events.take n)).shared.state x = some .committed ∧
    ∀ m, n ≤ m → m ≤ events.length → (P.run (events.take m)).shared.state x ∈ [some .committed, some .withheld]

/-- An intent with a logged authorization is not revoked, and withheld only after it was committed. -/
def Stands (x : Str) (P : Pool (site cfg) (endpoints cfg)) (events : List (PoolEvent (site cfg) (endpoints cfg))) : Prop :=
  (P.run events).shared.HasLogged x → (P.run events).shared.state x ≠ some .revoked ∧
    ((P.run events).shared.state x = some .withheld → ThroughCommitted x P events)

theorem ThroughCommitted.next {P : Pool (site cfg) (endpoints cfg)} (h : ThroughCommitted x P events)
    (now : (P.run (events ++ [e])).shared.state x = some .withheld) : ThroughCommitted x P (events ++ [e]) := by
  obtain ⟨n, within, committed, since⟩ := h
  have length : (events ++ [e]).length = events.length + 1 := List.length_append
  have before : ∀ m ≤ events.length, (events ++ [e]).take m = events.take m := fun m within => List.take_append_of_le_length within
  refine ⟨n, by omega, by rw [before n within]; exact committed, fun m after upTo => ?_⟩
  rcases Nat.lt_or_ge events.length m with last | earlier
  · rw [List.take_of_length_le (by omega), now]
    exact List.mem_cons_of_mem _ List.mem_cons_self
  · rw [before m earlier]
    exact since m after earlier

theorem ThroughCommitted.of_committed {P : Pool (site cfg) (endpoints cfg)} (now : (P.run events).shared.state x = some .committed) :
    ThroughCommitted x P events := by
  refine ⟨events.length, Nat.le_refl _, by rw [List.take_length]; exact now, fun m after _ => ?_⟩
  rw [List.take_of_length_le after, now]
  exact List.mem_cons_self

/-- A withdrawn intent that is logged was logged before, and at most withheld from `COMMITTED` since. -/
theorem withdrawn_next {P : Pool (site cfg) (endpoints cfg)}
    (performs : ∀ c fate, P.Performs e c fate → c.Served) (apart : KeepsApart cfg x P e)
    (logged : (P.next_ e).shared.HasLogged x) (withdrawn : (P.next_ e).shared.Withdrawn x) :
    P.shared.HasLogged x ∧ ((P.next_ e).shared.state x = P.shared.state x ∨
      P.shared.state x = some .committed ∧ (P.next_ e).shared.state x = some .withheld) := by
  rcases Pool.shared_next P e with same | ⟨pid, t, job, c, next, fate, rfl, busy, now⟩ | ⟨change, _, now⟩
  · rw [same] at logged ⊢
    exact ⟨logged, Or.inl rfl⟩
  · have served : c.Served := performs c fate ⟨pid, t, job, next, rfl, busy⟩
    rcases Service.perform_cases (site cfg) c P.shared fate with same | ⟨takes, executed⟩
    · rw [now, same] at logged ⊢
      exact ⟨logged, Or.inl rfl⟩
    · obtain ⟨keeps, grants⟩ : c.Apart cfg x P.shared := Pool.Allows.command apart busy takes
      have after : (P.next_ (.step pid fate)).shared = (Site.exec cfg c P.shared).2 := now.trans executed
      rw [after] at logged withdrawn ⊢
      rcases Site.hasLogged_exec logged with before | ⟨authorizes, same⟩
      · refine ⟨before, ?_⟩
        rcases Site.withdrawn_exec served withdrawn with same | committed | withdraws
        · exact Or.inl same
        · exact Or.inr committed
        · exact absurd before (keeps withdraws)
      · refine absurd ?_ (grants authorizes)
        rw [Site.Withdrawn, same] at withdrawn
        exact withdrawn
  · rw [now] at logged withdrawn ⊢
    cases change with
    | tick clock mono => exact ⟨logged, Or.inl rfl⟩
    | restart context policy => rcases withdrawn with none | none <;> cases none

/-- The invariant of a run whose steps keep records and log apart. -/
theorem stands_run (apart : Pool.Along (KeepsApart cfg x) (sitePool cfg heap context policy cell) events) :
    Stands x (sitePool cfg heap context policy cell) events := by
  intro logged
  induction events using List.reverseRecOn with
  | nil =>
    obtain ⟨e, none, _⟩ := logged
    exact nomatch none
  | append_singleton events e ih =>
    obtain ⟨earlier, last, _⟩ := Pool.along_append.mp apart
    have next : (sitePool cfg heap context policy cell).run (events ++ [e]) = ((sitePool cfg heap context policy cell).run events).next_ e :=
      Pool.run_append _ events [e]
    have before := fun withdrawn : (((sitePool cfg heap context policy cell).run events).next_ e).shared.Withdrawn x =>
      withdrawn_next (fun _ _ performs => served_of_performs performs) last (next ▸ logged) withdrawn
    constructor
    · intro revoked
      rw [next] at revoked
      obtain ⟨logged, same | ⟨_, none⟩⟩ := before (Or.inl revoked)
      · exact (ih earlier logged).1 (same.symm.trans revoked)
      · rw [revoked] at none
        cases none
    · intro withheld
      obtain ⟨logged, same | ⟨committed, _⟩⟩ := before (Or.inr (next ▸ withheld))
      · exact ((ih earlier logged).2 (same.symm.trans (next ▸ withheld))).next withheld
      · exact (ThroughCommitted.of_committed committed).next withheld

end

/-! ### In the middle of a commit -/

/-- A commit, a revocation or a report of the release of this intent begins, or a request takes a step. -/
def Concerns (x : Str) : OnceEvent → Prop
  | .start _ job =>
    match job.request with
    | .commit id _ _ | .release id _ _ _ _ _ | .withheld id _ _ | .revoke id => id = x
    | _ => False
  | .step _ _ => True
  | .env _ => False

instance (x : Str) : DecidablePred (Concerns x)
  | .start _ job => by
    unfold Concerns
    simp only
    split <;> infer_instance
  | .step _ _ => .isTrue trivial
  | .env _ => .isFalse fun h => h

def admittedOnce : List OnceEvent := .start 0 ⟨0, submission⟩ :: List.replicate 14 (.step 0 .done)

/-- A revocation is accepted once the commit has found the intent authorized. -/
def revokedBetween : List OnceEvent :=
  commitNow 1 :: List.replicate 3 (.step 1 .done) ++ [.start 2 ⟨0, .revoke "a".toList⟩, .step 2 .done] ++ List.replicate 2 (.step 1 .done)

/-- The store has logged the authorization, and its answer is lost. -/
def answerLost : List OnceEvent := commitNow 1 :: List.replicate 3 (.step 1 .done) ++ .step 1 (.broken true) :: List.replicate 2 (.step 1 .done)

end Xair
