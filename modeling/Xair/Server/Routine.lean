import Xair.Runtime.References
import Xair.Server.Workload

/-!
# Routine steps

Most steps of a request neither take in nor validate an intent, and start no call. What
they do to the runtime is at most one report on one record.
-/

namespace Xair

open Library

/-- The steps that neither admit, validate, report for a gateway nor call an actuator. What they append on their own is no
tombstone of a withheld release. -/
def SiteCommand.Routine : SiteCommand → Prop
  | .appendActuation tombstone => tombstone.record.get "withheld".toList = none
  | .admitIntent _ => False
  | .process _ _ _ => False
  | .transition _ state _ _ => state = .revoked
  | .sendReport _ => False
  | .startCall _ _ _ => False
  | .actuateCell _ _ => False
  | _ => True

/-- The records a step may move, and the states it may move them to. -/
def SiteCommand.Reaches (x : Str) (reached : IntentState) : SiteCommand → Prop
  | .transition id state _ _ => id = x ∧ reached = state
  | .recordCommit id committed _ _ => id = x ∧ reached = commitState committed
  | .reportRelease id released _ _ _ => id = x ∧ (reached = .withheld ∨ released = true ∧ reached = .released)
  | .reportEffect id status _ => id = x ∧ reached = status.state
  | .supervisoryRevoke id _ => id = x ∧ reached = .revoked
  | .reportWithheld id _ _ => id = x ∧ reached = .withheld
  | _ => False

/-- The routine steps that leave every record alone. -/
def SiteCommand.Plain : SiteCommand → Prop
  | .transition _ _ _ _ => False
  | .recordCommit _ _ _ _ => False
  | .reportRelease _ _ _ _ _ => False
  | .reportEffect _ _ _ => False
  | .supervisoryRevoke _ _ => False
  | .reportWithheld _ _ _ => False
  | c => c.Routine

/-- The plain steps that also leave the locks, the policy and the references in use alone. -/
def SiteCommand.Aside : SiteCommand → Prop
  | .create _ => False
  | .releaseTarget _ => False
  | .setPolicy _ => False
  | c => c.Plain

theorem SiteCommand.Aside.plain {c : SiteCommand} (aside : c.Aside) : c.Plain := by
  cases c <;> first | exact aside | exact aside.elim

theorem SiteCommand.Plain.routine {c : SiteCommand} (plain : c.Plain) : c.Routine := by
  cases c <;> first | exact plain | exact plain.elim

theorem SiteCommand.Plain.reaches {c : SiteCommand} (plain : c.Plain) {x : Str} {reached : IntentState} :
    ¬c.Reaches x reached := by
  cases c <;> first | exact plain.elim | exact fun h => h

/-- The steps of requests: the routine ones, admissions and validation passes. -/
def SiteCommand.Served : SiteCommand → Prop
  | .admitIntent _ => True
  | .process _ _ _ => True
  | c => c.Routine

theorem SiteCommand.Routine.served {c : SiteCommand} (routine : c.Routine) : c.Served := by
  cases c <;> first | exact routine | exact routine.elim

theorem routine_withdraw (id : Str) (outcome : Option DecisionOutcome) (reason : Str) :
    (SiteCommand.transition id .revoked outcome reason).Routine := rfl

/-! ### What they do -/

/-- A record further on, with what its validation has left in it. -/
structure Further (r r' : IntentRecord) : Prop where
  allowed : r'.state ∈ r.state.allowed
  late : 2 ≤ r'.state.stage
  intent : r'.intent = r.intent
  cls : r'.actionClass = r.actionClass
  contextVersion : r'.contextVersion = r.contextVersion
  readSetVersion : r'.readSetVersion = r.readSetVersion

/-- A record after a report: as it was, or further on. -/
def Moved (before after : Option IntentRecord) : Prop :=
  after = before ∨ ∃ r r', before = some r ∧ after = some r' ∧ Further r r'

/-- What a step leaves of the runtime, where `reach` are the records it may move, with their new states. -/
structure Runtime.Reported (reach : Str → IntentState → Prop) (rt rt' : Runtime) : Prop where
  ids : ∀ ref, (rt'.heap ref).id = (rt.heap ref).id
  records : ∀ id, Moved (rt.records.get id) (rt'.records.get id)
  reaches : ∀ id r', rt'.records.get id = some r' → rt.records.get id = some r' ∨ reach id r'.state
  seen : rt'.seen = rt.seen
  audit : rt.audit <+: rt'.audit
  /-- A record that has moved has an entry with its state. -/
  logged : ∀ id r', rt'.records.get id = some r' → rt.records.get id = some r' ∨
    ∃ e ∈ rt'.audit, e.intentId = id ∧ e.state = r'.state

namespace Runtime.Reported

variable {reach : Str → IntentState → Prop} {rt rt' : Runtime}

/-- A write to anything but records, the seen-table and the audit trail. -/
theorem aside (ids : ∀ ref, (rt'.heap ref).id = (rt.heap ref).id) (records : rt'.records = rt.records)
    (seen : rt'.seen = rt.seen) (audit : rt.audit <+: rt'.audit) : Reported reach rt rt' :=
  ⟨ids, fun id => Or.inl (by rw [records]), fun id r' stored => Or.inl (by rw [← records]; exact stored), seen, audit,
    fun id r' stored => Or.inl (by rw [← records]; exact stored)⟩

theorem refl (rt : Runtime) : Reported reach rt rt := .aside (fun _ => rfl) rfl rfl (List.prefix_refl _)

theorem of_noted (noted : Noted rt rt') : Reported reach rt rt' := by
  refine .aside (fun ref => by rw [noted.heap]) noted.records noted.seen ?_
  rcases noted.audit with same | ⟨id, record, reason, _, appended⟩
  · rw [same]
  · rw [appended]
    exact List.prefix_append _ _

theorem of_further {id : Str} {record a : IntentRecord} (found : rt.records.get id = some record)
    (alone : Local id rt rt') (stored : rt'.records.get id = some a) (further : Further record a)
    (logged : ∃ e ∈ rt'.audit, e.intentId = id ∧ e.state = a.state) (own : reach id a.state) : Reported reach rt rt' := by
  have only : ∀ other r', rt'.records.get other = some r' → rt.records.get other = some r' ∨ other = id ∧ r' = a := by
    intro other r' now
    by_cases same : other = id
    · subst same
      exact Or.inr ⟨rfl, Option.some.inj (now.symm.trans stored)⟩
    · exact Or.inl ((alone.others other same).symm.trans now)
  refine ⟨alone.ids, fun other => ?_, fun other r' now => (only other r' now).imp_right ?_, alone.seen, ?_,
    fun other r' now => (only other r' now).imp_right ?_⟩
  · by_cases same : other = id
    · subst same
      exact Or.inr ⟨record, a, found, stored, further⟩
    · exact Or.inl (alone.others other same)
  · rintro ⟨rfl, rfl⟩
    exact own
  · obtain ⟨more, appended, _⟩ := alone.audit
    rw [appended]
    exact List.prefix_append _ _
  · rintro ⟨rfl, rfl⟩
    exact logged

theorem of_settled {id : Str} {record a : IntentRecord} {state : IntentState} (settled : Settled id rt record state a rt')
    (late : 2 ≤ state.stage) (own : reach id state) : Reported reach rt rt' := by
  obtain ⟨outcome, reason, appended⟩ := settled.logged
  have entry : (⟨id, state, outcome, reason⟩ : AuditEntry) ∈ rt'.audit := by
    rw [appended]
    exact List.mem_append_right _ List.mem_cons_self
  obtain rfl := settled.reached
  exact .of_further settled.found settled.alone settled.stored
    ⟨settled.allowed, late, settled.intent, settled.cls, settled.versions.1, settled.versions.2⟩ ⟨_, entry, rfl, rfl⟩ own

end Runtime.Reported

section

variable {reach : Str → IntentState → Prop} {id : Str}

theorem reported_transition {state : IntentState} (late : 2 ≤ state.stage) (own : reach id state)
    (outcome : Option DecisionOutcome) (reason : Str) (rt : Runtime) :
    Ends (transition id state outcome reason) rt (fun _ rt' => rt.Reported reach rt') fun _ rt' => rt.Reported reach rt' := by
  cases found : rt.records.get id with
  | none =>
    rw [transition, ends_bind, ends_get]
    simp only [found]
    exact ends_throw.mpr (.refl rt)
  | some record =>
    by_cases allowed : state ∈ record.state.allowed
    · exact (ends_transition found allowed).mpr (.of_further found ((Local.refl id rt).move record state outcome reason)
        (Dict.get_insert_self _ _ _) ⟨allowed, late, rfl, rfl, rfl, rfl⟩
        ⟨_, List.mem_append_right _ List.mem_cons_self, rfl, rfl⟩ own)
    · exact (ends_transition_refused found allowed).mpr (.refl rt)

theorem reported_recordCommit (rt : Runtime) (committed : Bool) (own : reach id (commitState committed)) (reason : Str)
    (seq : Option Nat) :
    Ends (recordCommit id committed reason seq) rt (fun _ rt' => rt.Reported reach rt') fun _ rt' => rt.Reported reach rt' := by
  refine (ends_recordCommit rt id committed reason seq).imp ?_ fun _ _ noted => .of_noted noted
  rintro a rt' (⟨rfl, _⟩ | ⟨record, _, settled, _⟩)
  · exact .refl _
  · exact .of_settled settled (by cases committed <;> decide) own

theorem reported_reportRelease (cfg : Config) (rt : Runtime) (released : Bool) (withheld : reach id .withheld)
    (own : released = true → reach id .released) (reason : Str) (contextVersion readSetVersion : Option Int) :
    Ends (reportRelease cfg id released reason contextVersion readSetVersion) rt (fun _ rt' => rt.Reported reach rt')
      fun _ rt' => rt.Reported reach rt' := by
  refine (ends_reportRelease cfg rt id released reason contextVersion readSetVersion).imp ?_ fun _ _ noted => .of_noted noted
  rintro a rt' (⟨rfl, _⟩ | ⟨record, state, _, _, reached, settled, _⟩)
  · exact .refl _
  · rcases reached with ⟨_, rfl⟩ | ⟨yes, _, rfl⟩
    · exact .of_settled settled (by decide) withheld
    · exact .of_settled settled (by decide) (own yes)

variable (reach) in
/-- A release that is reported with the versions of the record withholds nothing. -/
theorem reported_reportRelease_matching (cfg : Config) (rt : Runtime) {released : Bool} (own : reach id .released) {reason : Str}
    {contextVersion readSetVersion : Option Int}
    (matching : ∀ r, rt.records.get id = some r → (gateVersionCheck r released reason contextVersion readSetVersion).1 = true) :
    Ends (reportRelease cfg id released reason contextVersion readSetVersion) rt (fun _ rt' => rt.Reported reach rt')
      fun _ rt' => rt.Reported reach rt' := by
  refine (ends_reportRelease cfg rt id released reason contextVersion readSetVersion).imp ?_ fun _ _ noted => .of_noted noted
  rintro a rt' (⟨rfl, _⟩ | ⟨record, state, _, _, reached, settled, _⟩)
  · exact .refl _
  · rcases reached with ⟨differs, _⟩ | ⟨_, _, rfl⟩
    · rw [matching record settled.found] at differs
      cases differs
    · exact .of_settled settled (by decide) own

theorem reported_reportEffect (rt : Runtime) (status : EffectStatus) (own : reach id status.state) (detail : Str) :
    Ends (reportEffect id status detail) rt (fun _ rt' => rt.Reported reach rt') fun _ rt' => rt.Reported reach rt' := by
  refine (ends_reportEffect rt id status detail).imp ?_ fun _ _ noted => .of_noted noted
  rintro a rt' (⟨rfl, _⟩ | ⟨record, settled, _⟩)
  · exact .refl _
  · exact .of_settled settled (by cases status <;> decide) own

theorem reported_supervisoryRevoke (rt : Runtime) (own : reach id .revoked) (reason : Str) :
    Ends (supervisoryRevoke id reason) rt (fun _ rt' => rt.Reported reach rt') fun _ rt' => rt.Reported reach rt' := by
  refine (ends_supervisoryRevoke rt id reason).imp ?_ ?_
  · rintro a rt' ⟨record, settled, _⟩
    exact .of_settled settled (by decide) own
  · rintro _ rt' ⟨rfl, _⟩
    exact .refl _

end

/-- A step of a running process, on the runtime and the histories. -/
structure Site.Reported (reach : Str → IntentState → Prop) (s s' : Site) : Prop where
  allocated : s.allocated ≤ s'.allocated
  ids : ∀ ref, ref < s.allocated → (s'.runtime.heap ref).id = (s.runtime.heap ref).id
  records : ∀ id, Moved (s.runtime.records.get id) (s'.runtime.records.get id)
  reaches : ∀ id r', s'.runtime.records.get id = some r' → s.runtime.records.get id = some r' ∨ reach id r'.state
  seen : s'.runtime.seen = s.runtime.seen
  audit : s.runtime.audit <+: s'.runtime.audit
  logged : ∀ id r', s'.runtime.records.get id = some r' → s.runtime.records.get id = some r' ∨
    ∃ e ∈ s'.runtime.audit, e.intentId = id ∧ e.state = r'.state
  life : s'.life = s.life
  passes : s'.passes = s.passes
  authorizations : s'.authorizations = s.authorizations

namespace Site

/-- The intent at `ref` has this id. -/
def Names (ref : Ref) (id : Str) (s : Site) : Prop := ref < s.allocated ∧ (s.runtime.heap ref).id = id

theorem store_runs {α : Type} (m : RuntimeM α) (s : Site) : (s.runs m).2.store = s.store := by
  rw [runs]
  split <;> rfl

theorem current_intent (id : Str) (held : IntentRecord) (s : Site) : (s.current id held).intent = held.intent := by
  rw [current]
  split
  · split
    · rename_i same
      exact same
    · rfl
  · rfl

/-- A record that is stored is the one that is held. -/
theorem current_of_stored {s : Site} {id : Str} {record : IntentRecord} (stored : s.runtime.records.get id = some record) :
    s.current id record = record := by
  simp only [current, stored, if_true]

theorem current_cases (id : Str) (held : IntentRecord) (s : Site) : s.current id held = held ∨
    s.runtime.records.get id = some (s.current id held) := by
  rw [current]
  split
  · rename_i record stored
    split
    · exact Or.inr stored
    · exact Or.inl rfl
  · exact Or.inl rfl

variable {reach : Str → IntentState → Prop}

/-- A step that leaves the runtime alone. -/
theorem Reported.aside {s s' : Site} (runtime : s'.runtime = s.runtime) (allocated : s'.allocated = s.allocated)
    (life : s'.life = s.life) (passes : s'.passes = s.passes) (authorizations : s'.authorizations = s.authorizations) :
    Reported reach s s' :=
  ⟨Nat.le_of_eq allocated.symm, fun _ _ => by rw [runtime], fun _ => Or.inl (by rw [runtime]),
    fun _ _ stored => Or.inl (by rw [← runtime]; exact stored), by rw [runtime], by rw [runtime],
    fun _ _ stored => Or.inl (by rw [← runtime]; exact stored), life, passes, authorizations⟩

theorem Reported.refl (s : Site) : Reported reach s s := .aside rfl rfl rfl rfl rfl

theorem Reported.of_withStore {s s' : Site} {m : MemoryStore} (h : (s.withStore m).Reported reach s') :
    s.Reported reach s' :=
  ⟨h.allocated, h.ids, h.records, h.reaches, h.seen, h.audit, h.logged, h.life, h.passes, h.authorizations⟩

theorem Reported.of_runtime {s : Site} {rt : Runtime} (h : s.runtime.Reported reach rt) :
    s.Reported reach { s with runtime := rt } :=
  ⟨Nat.le_refl _, fun ref _ => h.ids ref, h.records, h.reaches, h.seen, h.audit, h.logged, rfl, rfl, rfl⟩

theorem Reported.of_ends {α : Type} {m : RuntimeM α} {s : Site}
    (h : Ends m s.runtime (fun _ rt' => s.runtime.Reported reach rt') fun _ rt' => s.runtime.Reported reach rt') :
    s.Reported reach (s.runs m).2 := by
  rw [runs]
  cases run : m s.runtime with
  | ok a rt => exact .of_runtime (h.of_run_ok run)
  | error e rt => exact .of_runtime (h.of_run_error run)

theorem reported_reportWithheld {cfg : SiteConfig} {id : Str} (own : reach id .withheld) (reason : Str) (append : Fate)
    (s : Site) : s.Reported reach (s.reportWithheld cfg id reason append).2 := by
  rw [reportWithheld]
  split
  · exact .refl s
  split
  · exact .refl s
  split
  · exact .refl s
  simp only
  split
  · exact .of_withStore (.of_ends (reported_reportRelease cfg.config _ false own (fun yes => nomatch yes) reason none none))
  · exact .aside rfl rfl rfl rfl rfl
  · exact .refl s

section

variable [PyText] {cfg : SiteConfig}

theorem reported_exec {c : SiteCommand} (routine : c.Routine) (s : Site) : 
    s.Reported (fun x reached => c.Reaches x reached) (Site.exec cfg c s).2 := by
  cases c with
  | admitIntent ref => exact routine.elim
  | process ticket ref call => exact routine.elim
  | sendReport report => exact routine.elim
  | startCall ticket id witness => exact routine.elim
  | actuateCell ticket command => exact routine.elim
  | create intent =>
    refine ⟨Nat.le_succ _, fun ref used => ?_, fun _ => Or.inl rfl, fun _ _ => Or.inl, rfl, List.prefix_refl _,
      fun _ _ => Or.inl, rfl, rfl, rfl⟩
    exact congrArg ActionIntent.id ((Runtime.heap_putIntent _ _ _ _).trans (if_neg (Nat.ne_of_lt used)))
  | setPreconditions ref preconditions =>
    refine .of_runtime (.aside (fun r => ?_) rfl rfl (List.prefix_refl _))
    refine (congrArg ActionIntent.id (Runtime.heap_putIntent _ _ _ _)).trans ?_
    split
    · rename_i here
      rw [here]
    · rfl
  | prepare ref =>
    refine .of_runtime (.aside (fun r => ?_) rfl rfl (List.prefix_refl _))
    refine (congrArg ActionIntent.id (Runtime.heap_putIntent _ _ _ _)).trans ?_
    split
    · rename_i here
      rw [here]
      exact Policy.applyTo_id _ _
    · rfl
  | transition id state outcome reason =>
    obtain rfl : state = .revoked := routine
    exact .of_ends (reported_transition (by decide) ⟨rfl, rfl⟩ outcome reason _)
  | install snapshot =>
    refine .of_runtime ?_
    rw [installContextSnapshot]
    split
    · exact .refl _
    · exact .aside (fun _ => rfl) rfl rfl (List.prefix_refl _)
  | recordCommit id committed reason seq => exact .of_ends (reported_recordCommit _ committed ⟨rfl, rfl⟩ reason seq)
  | reportRelease id released reason cv rv =>
    exact .of_ends (reported_reportRelease cfg.config _ released ⟨rfl, Or.inl rfl⟩ (fun yes => ⟨rfl, Or.inr ⟨yes, rfl⟩⟩) reason cv rv)
  | reportEffect id status detail => exact .of_ends (reported_reportEffect _ status ⟨rfl, rfl⟩ detail)
  | supervisoryRevoke id reason => exact .of_ends (reported_supervisoryRevoke _ ⟨rfl, rfl⟩ reason)
  | releaseTarget record =>
    exact .of_ends (m := releaseTarget record) (.aside (fun _ => rfl) rfl rfl (List.prefix_refl _))
  | reportWithheld id reason append => exact reported_reportWithheld ⟨rfl, rfl⟩ reason append s
  | setPolicy policy => exact .of_runtime (.aside (fun _ => rfl) rfl rfl (List.prefix_refl _))
  | registerAndSnapshot exprs =>
    simp only [exec]
    split
    · exact .aside rfl rfl rfl rfl rfl
    · exact .aside rfl rfl rfl rfl rfl
  | update patch =>
    simp only [exec]
    split
    · exact .aside rfl rfl rfl rfl rfl
    · exact .refl s
  | claimIntent id =>
    simp only [exec, claimIntent]
    split
    · split
      · split
        · exact .refl s
        · exact .aside rfl rfl rfl rfl rfl
      · exact .aside rfl rfl rfl rfl rfl
    · exact .refl s
  | _ => exact .aside rfl rfl rfl rfl rfl

/-- A validation pass at the site. -/
structure Processed (ticket : Nat) (ref : Ref) (s : Site) (reply : Except RuntimeError IntentRecord) (s' : Site) : Prop where
  attempt : Attempt (s.runtime.heap ref).id ref s.runtime s'.runtime
  answered : ∀ a, reply = .ok a → s'.runtime.records.get (s.runtime.heap ref).id = some a
  allocated : s'.allocated = s.allocated
  life : s'.life = s.life
  passes : s'.passes = s.passes ++ [(ticket, (s.runtime.heap ref).id)]
  authorizations : (s'.authorizations = s.authorizations ∧
      (s'.state (s.runtime.heap ref).id = some .authorized → s.state (s.runtime.heap ref).id = some .authorized)) ∨
    ∃ a, s'.authorizations = s.authorizations ++ [a] ∧ a.ticket = ticket ∧ a.life = s.life ∧
      a.id = (s.runtime.heap ref).id ∧ s.state (s.runtime.heap ref).id ≠ some .authorized ∧
      s'.state (s.runtime.heap ref).id = some .authorized

variable (cfg) in
theorem processed_process (ticket : Nat) (ref : Ref) (call : ProcessCall) (s : Site) :
    Processed ticket ref s (s.process cfg ticket ref call).1 (s.process cfg ticket ref call).2 := by
  have traced : ∀ (reply : Except RuntimeError IntentRecord) (rt : Runtime) (pass : Authorization),
      Attempt (s.runtime.heap ref).id ref s.runtime rt →
      (∀ a, reply = .ok a → rt.records.get (s.runtime.heap ref).id = some a) →
      pass.ticket = ticket → pass.life = s.life → pass.id = (s.runtime.heap ref).id →
      Processed ticket ref s reply (({ s with runtime := rt } : Site).traced s pass) := by
    intro reply rt pass attempt answered itsTicket itsLife itsId
    refine ⟨attempt, answered, rfl, rfl, by simp only [Site.traced, itsTicket, itsId], ?_⟩
    simp only [Site.traced, itsId]
    split
    · rename_i granted
      exact Or.inr ⟨pass, rfl, itsTicket, itsLife, itsId, granted.1, granted.2⟩
    · rename_i nothing
      refine Or.inl ⟨rfl, fun now => ?_⟩
      by_contra before
      exact nothing ⟨before, now⟩
  have ends := attempt_processIntent cfg.config { call with now := s.clock, requeue := false } s.runtime ref
  simp only [process, runs]
  cases run : processIntent cfg.config { call with now := s.clock, requeue := false } ref s.runtime with
  | ok a rt =>
    obtain ⟨attempt, stored⟩ := ends.of_run_ok run
    refine traced _ rt _ attempt (fun a' same => ?_) rfl rfl rfl
    obtain rfl := Except.ok.inj same
    exact stored
  | error e rt => exact traced _ rt _ (ends.of_run_error run) (fun a' same => nomatch same) rfl rfl rfl

end

end Site

/-! ### Items of a batch -/

/-- The item of a batch refers to its intent. -/
def Site.NamesItem (s : Site) (item : Item) : Prop := s.Names item.1 item.2.id

theorem mem_resolveItems {items : List Item} {item : Item}
    (member : item ∈ (resolveItems items).2 ∨ (resolveItems items).1 = some item) : item ∈ items := by
  rw [resolveItems] at member
  refine (List.mergeSort_perm items outranks).mem_iff.mp ?_
  cases sorted : items.mergeSort outranks with
  | nil =>
    rw [sorted] at member
    rcases member with member | winner
    · exact nomatch member
    · exact nomatch winner
  | cons first rest =>
    rw [sorted] at member
    rcases member with member | winner
    · exact List.mem_cons_of_mem _ member
    · rw [Option.some.inj winner]
      exact List.mem_cons_self

/-! ### Who sends only such steps -/

section

variable [PyText] {cfg : SiteConfig} {sent : SiteCommand → Prop}

theorem sends_step {c : SiteCommand} (h : sent c) : Method.Sends sent (step c : Handler cfg c.Reply) :=
  Method.sends_command h

theorem sends_attempted {c : SiteCommand} (h : sent c) : Method.Sends sent (attempted c : Handler cfg (Option c.Reply)) :=
  Method.sends_tryCatch (Method.sends_bind (sends_step h) fun _ => Method.sends_pure _) fun _ => Method.sends_pure _

/-- A step that may fail without failing the request. -/
theorem runs_attempted {Role : Type} {D : Discipline (site cfg) Role} {t : Nat} {role : Role}
    {may : SiteCommand → Site → Fate → Prop} {c : SiteCommand} {l : Unit} {s : Site} {ok : Option c.Reply → Site → Prop}
    (inv : D.Inv s)
    (h : Method.Runs D t role may (step c : Handler cfg c.Reply) l s (fun reply _ s' => ok (some reply) s') fun _ _ _ => True)
    (failed : ∀ s', ok none s') :
    Method.Runs D t role may (attempted c : Handler cfg (Option c.Reply)) l s (fun reply _ s' => ok reply s')
      fun _ _ _ => True := by
  refine Method.runs_tryCatch inv (Method.runs_map inv (h.imp (fun _ _ _ _ held => held) fun _ _ _ _ _ => ?_)
    fun _ _ _ _ held => held)
  exact fun _ => Method.runs_pure fun s' _ _ => failed s'

/-- A call for every item, in order; what is known of the items and of the results lasts. -/
theorem runs_each {Role γ δ : Type} {D : Discipline (site cfg) Role} {t : Nat} {role : Role}
    {may : SiteCommand → Site → Fate → Prop} {R : Site → Site → Prop} (trans : ∀ s s' s'', R s s' → R s' s'' → R s s'')
    (step : ∀ s s', D.Step t role s s' → R s s') (others : ∀ s s', D.Rely t s s' → R s s')
    {f : γ → Handler cfg δ} {K : Site → γ → Prop} {Q : Site → δ → Prop} (kept : ∀ (s s' : Site) a, R s s' → K s a → K s' a)
    (lasts : ∀ (s s' : Site) b, R s s' → Q s b → Q s' b)
    (item : ∀ (s : Site) a, D.Inv s → K s a → Method.Runs D t role may (f a) () s (fun b _ s' => Q s' b) fun _ _ _ => True)
    (xs : List γ) {s : Site} (inv : D.Inv s) (all : ∀ a ∈ xs, K s a) :
    Method.Runs D t role may (each f xs) () s (fun bs _ s' => ∀ b ∈ bs, Q s' b) fun _ _ _ => True := by
  induction xs generalizing s with
  | nil => exact Method.runs_pure fun _ _ _ b member => nomatch member
  | cons a rest ih =>
    refine Method.runs_bind_since trans step others inv (item s a inv (all a List.mem_cons_self)) fun b _ s₁ inv₁ moved₁ first => ?_
    refine Method.runs_bind_since trans step others inv₁
      (ih inv₁ fun c member => kept _ _ _ moved₁ (all c (List.mem_cons_of_mem _ member))) fun bs _ s₂ inv₂ moved₂ later => ?_
    refine Method.runs_pure fun s₃ rely inv₃ c member => ?_
    rcases List.mem_cons.mp member with rfl | member
    · exact lasts _ _ _ (trans _ _ _ moved₂ (others _ _ rely)) first
    · exact lasts _ _ _ (others _ _ rely) (later c member)

theorem sends_answered {α : Type} (reply : Except RuntimeError α) : Method.Sends sent (answered reply : Handler cfg α) := by
  cases reply with
  | ok a => exact Method.sends_pure a
  | error e => exact Method.sends_throw e.http

/-- A method of the runtime that answers or raises. -/
theorem sends_method {α : Type} {c : SiteCommand} (h : sent c) (f : c.Reply → Except RuntimeError α) :
    Method.Sends sent (step c >>= fun reply => answered (f reply) : Handler cfg α) :=
  Method.sends_bind (sends_step h) fun reply => sends_answered (f reply)

theorem aside_readSnapshot : Method.Sends SiteCommand.Aside (readSnapshot : Handler cfg _) := by
  refine Method.sends_bind (sends_attempted trivial) fun reply => ?_
  cases reply with
  | some snapshot => exact Method.sends_bind (sends_step trivial) fun _ => Method.sends_pure _
  | none => exact Method.sends_bind (sends_step trivial) fun _ => Method.sends_pure _

theorem aside_updateContextStore (patch : Members) :
    Method.Sends SiteCommand.Aside (updateContextStore patch : Handler cfg Unit) :=
  Method.sends_bind (sends_attempted trivial) fun _ =>
    Method.sends_ite (Method.sends_bind aside_readSnapshot fun _ => Method.sends_pure _) (Method.sends_pure _)

theorem aside_withStopLock {α : Type} (ticket : Nat) {body : Handler cfg α} (h : Method.Sends SiteCommand.Aside body) :
    Method.Sends SiteCommand.Aside (withStopLock ticket body) := by
  refine Method.sends_bind (sends_step trivial) fun _ => Method.sends_bind (Method.sends_tryCatch h fun e => ?_) fun _ => ?_
  · exact Method.sends_bind (sends_step trivial) fun _ => Method.sends_throw e
  · exact Method.sends_bind (sends_step trivial) fun _ => Method.sends_pure _

theorem aside_initStopEpoch (key : Str) : Method.Sends SiteCommand.Aside (initStopEpoch key : Handler cfg Bool) := by
  refine Method.sends_bind aside_readSnapshot fun read => Method.sends_ite ?_ (Method.sends_pure _)
  split
  · exact Method.sends_throw _
  · exact Method.sends_pure _
  · exact Method.sends_bind (aside_updateContextStore _) fun _ => Method.sends_pure _

theorem aside_fenceIntent (ticket : Nat) (ref : Ref) : Method.Sends SiteCommand.Aside (fenceIntent ticket ref : Handler cfg Unit) := by
  refine Method.sends_bind (sends_step trivial) fun cls => Method.sends_ite (Method.sends_pure _) ?_
  refine Method.sends_bind (sends_step trivial) fun i => ?_
  refine Method.sends_bind (aside_withStopLock ticket (aside_initStopEpoch _)) fun trusted => ?_
  refine Method.sends_ite (Method.sends_bind (sends_step trivial) fun i => sends_step trivial) (Method.sends_pure _)

theorem aside_recordStop (ticket : Nat) (ref : Ref) (id : Str) (record : IntentRecord) :
    Method.Sends SiteCommand.Aside (recordStop ticket ref id record : Handler cfg Unit) := by
  refine Method.sends_bind (sends_step trivial) fun now => Method.sends_ite (Method.sends_pure _) ?_
  refine Method.sends_bind (sends_step trivial) fun i => ?_
  refine Method.sends_bind (aside_withStopLock ticket ?_) fun _ => ?_
  · exact Method.sends_bind (sends_step trivial) fun time => aside_updateContextStore _
  · exact Method.sends_bind (sends_attempted (by exact rfl)) fun _ => Method.sends_pure _

theorem aside_registeredSnapshot (exprs : List Str) :
    Method.Sends SiteCommand.Aside (registeredSnapshot exprs : Handler cfg SnapshotDoc) := by
  refine Method.sends_bind (sends_attempted trivial) fun reply => ?_
  cases reply with
  | some doc => exact Method.sends_ite (Method.sends_throw _) (Method.sends_pure doc)
  | none => exact Method.sends_bind (sends_step trivial) fun _ => Method.sends_pure _

theorem aside_answer (id : Str) (record : IntentRecord) (duplicate : Bool) (context : Option Members) :
    Method.Sends SiteCommand.Aside (answer id record duplicate context : Handler cfg SubmitAnswer) :=
  Method.sends_bind (sends_step trivial) fun _ =>
    Method.sends_ite (Method.sends_bind (sends_step trivial) fun _ => Method.sends_pure _) (Method.sends_pure _)

section

variable {α : Type} {m : Handler cfg α}

theorem plain_of_aside (h : Method.Sends SiteCommand.Aside m) : Method.Sends SiteCommand.Plain m :=
  h.imp fun _ aside => aside.plain

end

theorem sends_readSnapshot : Method.Sends SiteCommand.Plain (readSnapshot : Handler cfg _) := plain_of_aside aside_readSnapshot

theorem sends_updateContextStore (patch : Members) :
    Method.Sends SiteCommand.Plain (updateContextStore patch : Handler cfg Unit) :=
  plain_of_aside (aside_updateContextStore patch)

theorem sends_fenceIntent (ticket : Nat) (ref : Ref) : Method.Sends SiteCommand.Plain (fenceIntent ticket ref : Handler cfg Unit) :=
  plain_of_aside (aside_fenceIntent ticket ref)

theorem sends_recordStop (ticket : Nat) (ref : Ref) (id : Str) (record : IntentRecord) :
    Method.Sends SiteCommand.Plain (recordStop ticket ref id record : Handler cfg Unit) :=
  plain_of_aside (aside_recordStop ticket ref id record)

theorem sends_registeredSnapshot (exprs : List Str) :
    Method.Sends SiteCommand.Plain (registeredSnapshot exprs : Handler cfg SnapshotDoc) :=
  plain_of_aside (aside_registeredSnapshot exprs)

theorem sends_answer (id : Str) (record : IntentRecord) (duplicate : Bool) (context : Option Members) :
    Method.Sends SiteCommand.Plain (answer id record duplicate context : Handler cfg SubmitAnswer) :=
  plain_of_aside (aside_answer id record duplicate context)

theorem sends_withdraw (id : Str) (reason : String) :
    Method.Sends SiteCommand.Routine (withdraw id reason : Handler cfg IntentRecord) :=
  Method.sends_bind (sends_step (routine_withdraw id _ _)) fun reply => sends_answered reply

theorem sends_storedCommit (req : CommitRequest) :
    Method.Sends SiteCommand.Routine (storedCommit req : Handler cfg CommitResult) := by
  refine Method.sends_bind (sends_attempted trivial) fun reply => ?_
  cases reply with
  | some result => exact Method.sends_pure result
  | none => exact Method.sends_bind (sends_step trivial) fun _ => Method.sends_pure _

theorem sends_commitIntent (id : Str) (scope : Scope) (marginMs : ℚ) :
    Method.Sends SiteCommand.Routine (commitIntent id scope marginMs : Handler cfg CommitAnswer) := by
  refine Method.sends_ite (Method.sends_throw _) (Method.sends_bind (sends_step trivial) fun found => ?_)
  cases found with
  | none => exact Method.sends_throw _
  | some record =>
    refine Method.sends_ite ?_ (Method.sends_throw _)
    refine Method.sends_bind (sends_step trivial) fun now => Method.sends_bind (sends_step trivial) fun i => ?_
    refine Method.sends_ite ?_ ?_
    · refine Method.sends_bind (sends_step trivial) fun reply => ?_
      exact Method.sends_bind (sends_answered _) fun _ => Method.sends_pure _
    · refine Method.sends_bind (sends_storedCommit _) fun result => Method.sends_bind (sends_step trivial) fun reply => ?_
      exact Method.sends_bind (sends_answered _) fun _ => Method.sends_pure _

theorem sends_effectReport (id : Str) (status : EffectStatus) (detail : Str) :
    Method.Sends SiteCommand.Routine (effectReport id status detail : Handler cfg IntentRecord) :=
  Method.sends_bind (sends_step trivial) fun reply => sends_answered reply

theorem sends_releaseReport (id : Str) (released : Bool) (reason : Str) (contextVersion readSetVersion : Option Int)
    (effect : Option (EffectStatus × Str)) :
    Method.Sends SiteCommand.Routine
      (releaseReport id released reason contextVersion readSetVersion effect : Handler cfg IntentRecord) := by
  refine Method.sends_bind (sends_step trivial) fun reply => Method.sends_bind (sends_answered reply) fun record => ?_
  cases effect with
  | none => exact Method.sends_pure _
  | some observed => exact Method.sends_ite (sends_effectReport _ _ _) (Method.sends_pure _)

theorem sends_withheldReport (id reason : Str) (append : Fate) :
    Method.Sends SiteCommand.Routine (withheldReport id reason append : Handler cfg IntentRecord) :=
  Method.sends_bind (sends_step trivial) fun reply => sends_answered reply

theorem sends_snapshotDocument (exprs : Option (List Str)) :
    Method.Sends SiteCommand.Plain (snapshotDocument exprs : Handler cfg SnapshotDoc) := by
  cases exprs with
  | none => exact Method.sends_bind sends_readSnapshot fun _ => Method.sends_pure _
  | some exprs =>
    refine Method.sends_bind (sends_attempted trivial) fun reply => ?_
    cases reply with
    | none => exact Method.sends_bind (sends_step trivial) fun _ => Method.sends_pure _
    | some doc => exact Method.sends_ite (Method.sends_bind (sends_step trivial) fun _ => Method.sends_pure _) (Method.sends_pure _)

theorem sends_contextSnapshot (exprs : Option (List Str)) (id : Option Str) :
    Method.Sends SiteCommand.Plain (contextSnapshot exprs id : Handler cfg _) := by
  refine Method.sends_bind (sends_snapshotDocument exprs) fun doc => ?_
  cases id with
  | none => exact Method.sends_pure _
  | some id => exact Method.sends_bind (sends_step trivial) fun _ => Method.sends_pure _

/-- A request that submits nothing. -/
def Request.Submits : Request → Prop
  | submit _ _ => True
  | batch _ _ => True
  | _ => False

theorem Request.sends_handle (ticket : Nat) {request : Request} (other : ¬request.Submits) :
    Method.Sends SiteCommand.Routine (request.handle cfg ticket) := by
  cases request with
  | submit body timedOut => exact absurd trivial other
  | batch bodies timedOut => exact absurd trivial other
  | commit id scope marginMs => exact Method.sends_bind (sends_commitIntent id scope marginMs) fun _ => Method.sends_pure _
  | release id released reason cv rv observed =>
    exact Method.sends_bind (sends_releaseReport id released reason cv rv observed) fun _ => Method.sends_pure _
  | effect id status detail => exact Method.sends_bind (sends_effectReport id status detail) fun _ => Method.sends_pure _
  | withheld id reason append => exact Method.sends_bind (sends_withheldReport id reason append) fun _ => Method.sends_pure _
  | revoke id =>
    exact Method.sends_bind (Method.sends_bind (sends_step trivial) fun reply => sends_answered reply) fun _ => Method.sends_pure _
  | update patch => exact Method.sends_bind ((sends_updateContextStore patch).imp fun _ plain => plain.routine) fun _ => Method.sends_pure _
  | snapshot exprs id => exact Method.sends_bind ((sends_contextSnapshot exprs id).imp fun _ plain => plain.routine) fun _ => Method.sends_pure _
  | policy installed => exact Method.sends_bind (sends_step trivial) fun _ => Method.sends_pure _

/-! ### What requests send -/

theorem sends_processNow (ticket : Nat) (ref : Ref) (call : ProcessCall) :
    Method.Sends SiteCommand.Served (processNow ticket ref call : Handler cfg IntentRecord) :=
  Method.sends_bind (sends_step trivial) fun reply => sends_answered reply

theorem sends_validateNow (ticket : Nat) (ref : Ref) (id : Str) (call : (Nat → Bool) → ProcessCall)
    (timedOut : Nat → Nat → Bool) :
    Method.Sends SiteCommand.Served (validateNow ticket ref id call timedOut : Handler cfg IntentRecord) := by
  refine Method.sends_bind (sends_processNow ticket ref _) fun record => ?_
  refine Method.sends_bind (sends_step (c := .current id record) trivial) fun now => ?_
  exact Method.sends_ite (sends_processNow ticket _ _) (Method.sends_pure _)

section

variable {α : Type} {m : Handler cfg α}

theorem served_of_plain (h : Method.Sends SiteCommand.Plain m) : Method.Sends SiteCommand.Served m :=
  h.imp fun _ plain => plain.routine.served

theorem served_of_routine (h : Method.Sends SiteCommand.Routine m) : Method.Sends SiteCommand.Served m :=
  h.imp fun _ routine => routine.served

end

variable (cfg) in
theorem sends_validateFresh (ticket : Nat) (ref : Ref) (id : Str) (timedOut : Nat → Nat → Bool) :
    Method.Sends SiteCommand.Served (validateFresh ticket ref id timedOut : Handler cfg SubmitAnswer) := by
  refine Method.sends_bind (served_of_plain (sends_fenceIntent ticket ref)) fun _ => ?_
  refine Method.sends_bind (sends_step (c := .prepare ref) trivial) fun exprs => ?_
  refine Method.sends_bind (served_of_plain (sends_registeredSnapshot exprs)) fun doc => Method.sends_ite ?_ ?_
  · have validated : Method.Sends SiteCommand.Served (do
        let record ← validateNow ticket ref id (snapshotCall doc) timedOut
        answer id record false (some doc.snapshot.context) : Handler cfg SubmitAnswer) :=
      Method.sends_bind (sends_validateNow ticket ref id _ _) fun record => served_of_plain (sends_answer _ _ _ _)
    exact Method.sends_ite (Method.sends_bind (sends_step trivial) fun _ => validated) validated
  · exact Method.sends_bind (served_of_routine (sends_withdraw id _)) fun _ => Method.sends_pure _

theorem sends_submitAdmitted (ticket : Nat) (ref : Ref) (id : Str) (firstAdmission : Bool) (timedOut : Nat → Nat → Bool) :
    Method.Sends SiteCommand.Served (submitAdmitted ticket ref id firstAdmission timedOut : Handler cfg SubmitAnswer) := by
  have fresh := sends_validateFresh cfg ticket ref id timedOut
  refine Method.sends_bind (sends_step (c := .actionClass ref) trivial) fun cls => Method.sends_ite ?_ (Method.sends_ite ?_ fresh)
  · refine Method.sends_bind (sends_validateNow ticket ref id _ _) fun record => ?_
    exact served_of_plain (Method.sends_bind (sends_recordStop _ _ _ _) fun _ => sends_answer _ _ _ _)
  · refine Method.sends_bind (sends_attempted trivial) fun claimed => Method.sends_ite fresh ?_
    exact Method.sends_bind (served_of_routine (sends_withdraw id _)) fun _ => Method.sends_pure _

theorem sends_submitIntent (ticket : Nat) (body : Option ActionIntent) (timedOut : Nat → Nat → Bool) :
    Method.Sends SiteCommand.Served (submitIntent ticket body timedOut : Handler cfg SubmitAnswer) := by
  cases body with
  | none => exact Method.sends_bind (served_of_plain sends_readSnapshot) fun _ => Method.sends_pure _
  | some i =>
    refine Method.sends_bind (sends_step (c := .create _) trivial) fun ref => ?_
    refine Method.sends_bind (sends_step (c := .admitIntent ref) trivial) fun reply => ?_
    refine Method.sends_bind (sends_answered reply) fun a => Method.sends_ite ?_ (sends_submitAdmitted _ _ _ _ _)
    refine Method.sends_bind (sends_step (c := .current i.id _) trivial) fun now => ?_
    exact Method.sends_ite (sends_submitAdmitted _ _ _ _ _) (served_of_plain (sends_answer _ _ _ _))

theorem aside_itemResult (item : Item) (record : IntentRecord) :
    Method.Sends SiteCommand.Aside (itemResult item record : Handler cfg BatchResult) :=
  Method.sends_bind (sends_step (c := .current item.2.id record) trivial) fun _ => Method.sends_pure _

theorem sends_itemResult (item : Item) (record : IntentRecord) :
    Method.Sends SiteCommand.Plain (itemResult item record : Handler cfg BatchResult) :=
  plain_of_aside (aside_itemResult item record)

theorem sends_each {α β : Type} {f : α → Handler cfg β} (h : ∀ a, Method.Sends sent (f a)) (xs : List α) :
    Method.Sends sent (each f xs) := by
  induction xs with
  | nil => exact Method.sends_pure _
  | cons a rest ih => exact Method.sends_bind (h a) fun _ => Method.sends_bind ih fun _ => Method.sends_pure _

theorem sends_sortItem (trusted : Bool) (body : Except BatchResult ActionIntent) :
    Method.Sends SiteCommand.Served (sortItem trusted body : Handler cfg Sorted) := by
  cases body with
  | error result => exact Method.sends_pure _
  | ok i =>
    refine Method.sends_bind (sends_step (c := .create _) trivial) fun ref => ?_
    refine Method.sends_bind (sends_step (c := .actionClass ref) trivial) fun cls => ?_
    exact Method.sends_ite (Method.sends_pure _) (Method.sends_ite (Method.sends_pure _) (Method.sends_pure _))

theorem sends_admitItem (item : Item) :
    Method.Sends SiteCommand.Served (admitItem item : Handler cfg (IntentRecord × Bool)) :=
  Method.sends_bind (sends_step (c := .admitIntent item.1) trivial) fun reply => sends_answered reply

theorem sends_batchStop (ticket : Nat) (timedOut : Ref → Nat → Nat → Bool) (item : Item) :
    Method.Sends SiteCommand.Served (batchStop ticket timedOut item : Handler cfg BatchResult) := by
  refine Method.sends_bind (sends_admitItem item) fun a => ?_
  refine Method.sends_bind (sends_step (c := .current item.2.id a.1) trivial) fun now => Method.sends_ite ?_ ?_
  · refine Method.sends_bind (sends_validateNow _ _ _ _ _) fun record => ?_
    exact served_of_plain (Method.sends_bind (sends_recordStop _ _ _ _) fun _ => sends_itemResult _ _)
  · exact served_of_plain (sends_itemResult _ _)

theorem sends_batchLoser (reason : String) (item : Item) :
    Method.Sends SiteCommand.Served (batchLoser reason item : Handler cfg BatchResult) := by
  refine Method.sends_bind (sends_admitItem item) fun a => Method.sends_ite (served_of_plain (sends_itemResult _ _)) ?_
  exact Method.sends_bind (served_of_routine (sends_withdraw _ _)) fun _ => served_of_plain (sends_itemResult _ _)

theorem sends_batchWinner (ticket : Nat) (timedOut : Ref → Nat → Nat → Bool) (item : Item) :
    Method.Sends SiteCommand.Served (batchWinner ticket timedOut item : Handler cfg BatchResult) := by
  refine Method.sends_bind (sends_admitItem item) fun a => Method.sends_ite (served_of_plain (sends_itemResult _ _)) ?_
  refine Method.sends_bind (served_of_plain (sends_fenceIntent ticket item.1)) fun _ => ?_
  refine Method.sends_bind (served_of_plain sends_readSnapshot) fun read => ?_
  refine Method.sends_bind (sends_validateNow _ _ _ _ _) fun record => served_of_plain ?_
  refine Method.sends_bind (sends_step (c := .current item.2.id record) trivial) fun now => ?_
  exact Method.sends_ite (Method.sends_bind (sends_step (c := .releaseTarget now) trivial) fun _ => sends_itemResult _ _)
    (sends_itemResult _ _)

theorem sends_submitIntentBatch (ticket : Nat) (bodies : List (Except BatchResult ActionIntent))
    (timedOut : Ref → Nat → Nat → Bool) :
    Method.Sends SiteCommand.Served (submitIntentBatch ticket bodies timedOut : Handler cfg (List BatchResult)) := by
  refine Method.sends_bind (served_of_plain sends_readSnapshot) fun read => ?_
  refine Method.sends_bind (sends_each (sends_sortItem _) _) fun sorted => ?_
  refine Method.sends_bind (sends_each (sends_batchStop _ _) _) fun stops => ?_
  refine Method.sends_bind (sends_each (sends_batchLoser _) _) fun preempted => ?_
  refine Method.sends_bind (sends_each (sends_batchLoser _) _) fun losers => ?_
  exact Method.sends_bind (sends_each (sends_batchWinner _ _) _) fun winners => Method.sends_pure _

theorem Request.sends_served (ticket : Nat) (request : Request) : Method.Sends SiteCommand.Served (request.handle cfg ticket) := by
  by_cases submits : request.Submits
  · cases request with
    | submit body timedOut => exact Method.sends_bind (sends_submitIntent ticket body timedOut) fun _ => Method.sends_pure _
    | batch bodies timedOut =>
      exact Method.sends_bind (sends_submitIntentBatch ticket bodies timedOut) fun _ => Method.sends_pure _
    | _ => exact submits.elim
  · exact served_of_routine (Request.sends_handle ticket submits)

end

end Xair
