import Xair.Gateway.Reports
import Xair.Server.Admissions
import Xair.Server.Naming

/-!
# One call per id

A gateway run starts a call when its submission is answered with `EXECUTE` and not as a
duplicate. Within a retention window an id is authorized once. Two submissions of one
`DELAYED` id can both be answered so: the second pass finds the record that the first has
authorized, and returns it.
-/

namespace Xair

open Library

namespace Site

/-- A pass of the request with this ticket has authorized the id. -/
def AuthorizedBy (x : Str) (t : Nat) (s : Site) : Prop := ∃ a ∈ s.authorizations, a.id = x ∧ a.ticket = t

instance (x : Str) (t : Nat) (s : Site) : Decidable (s.AuthorizedBy x t) := inferInstanceAs (Decidable (∃ a ∈ _, _))

/-- The calls that have been started for the id. -/
def startsOf (x : Str) (s : Site) : List (Nat × Str) := s.starts.filter fun start => decide (start.2 = x)

/-- Whoever has started a call for the id has authorized it, and there is one such call. -/
structure Counted (x : Str) (s : Site) : Prop where
  named : s.Named
  starters : ∀ t, (t, x) ∈ s.starts → s.AuthorizedBy x t
  once : (s.startsOf x).length ≤ 1

/-- Intents keep their ids, nothing leaves the histories, and only these runs start calls. -/
structure Onward (x : Str) (starters : Nat → Prop) (s s' : Site) : Prop where
  grows : s.Grows s'
  authorized : ∀ t, s.AuthorizedBy x t → s'.AuthorizedBy x t
  passes : ∀ pass ∈ s.passes, pass ∈ s'.passes
  starts : ∀ start ∈ s'.starts, start ∈ s.starts ∨ starters start.1

variable {x : Str} {starters starters' : Nat → Prop} {s s' s'' : Site}

theorem Onward.refl (x : Str) (starters : Nat → Prop) (s : Site) : s.Onward x starters s :=
  ⟨.refl s, fun _ h => h, fun _ h => h, fun _ => Or.inl⟩

theorem Onward.trans (first : s.Onward x starters s') (second : s'.Onward x starters s'') : s.Onward x starters s'' :=
  ⟨first.grows.trans second.grows, fun t h => second.authorized t (first.authorized t h),
    fun pass h => second.passes pass (first.passes pass h),
    fun start h => (second.starts start h).elim (first.starts start) Or.inr⟩

theorem Onward.imp (moved : s.Onward x starters s') (weaker : ∀ t, starters t → starters' t) : s.Onward x starters' s' :=
  ⟨moved.grows, moved.authorized, moved.passes, fun start h => (moved.starts start h).imp_right (weaker start.1)⟩

/-- The run with this ticket has started no call. -/
def Unstarted (t : Nat) (s : Site) : Prop := ∀ y, (t, y) ∉ s.starts

theorem Unstarted.onward {t : Nat} (h : s.Unstarted t) (moved : s.Onward x (· ≠ t) s') : s'.Unstarted t :=
  fun y started => (moved.starts _ started).elim (h y) fun ne => ne rfl

/-- A step that starts no call and takes nothing out of the histories. -/
theorem Counted.still (h : s.Counted x) (named : s'.Named) (grows : s.Grows s') (starts : s'.starts = s.starts)
    (authorizations : s.authorizations <+: s'.authorizations) (passes : s.passes <+: s'.passes) :
    s'.Counted x ∧ ∀ starters, s.Onward x starters s' := by
  have authorized : ∀ t, s.AuthorizedBy x t → s'.AuthorizedBy x t := fun t ⟨a, member, its⟩ =>
    ⟨a, authorizations.subset member, its⟩
  refine ⟨⟨named, fun t started => authorized t (h.starters t (starts ▸ started)), ?_⟩,
    fun _ => ⟨grows, authorized, fun pass member => passes.subset member, fun start member => Or.inl (starts ▸ member)⟩⟩
  rw [startsOf, starts]
  exact h.once

theorem Reported.counted {reach : Str → IntentState → Prop} (moved : s.Reported reach s') (starts : s'.starts = s.starts)
    (h : s.Counted x) : s'.Counted x ∧ ∀ starters, s.Onward x starters s' :=
  h.still (moved.named h.named) moved.grows starts (by rw [moved.authorizations]) (by rw [moved.passes])

/-- An id that has been authorized once has been authorized by one request. -/
theorem AuthorizedBy.unique {t t' : Nat} (once : (s.authorizationsOf x).length ≤ 1) (h : s.AuthorizedBy x t)
    (h' : s.AuthorizedBy x t') : t = t' := by
  obtain ⟨a, member, its, rfl⟩ := h
  obtain ⟨a', member', its', rfl⟩ := h'
  have one := mem_authorizationsOf.mpr ⟨member, its⟩
  have other := mem_authorizationsOf.mpr ⟨member', its'⟩
  revert one other once
  cases s.authorizationsOf x with
  | nil => exact fun _ none => nomatch none
  | cons first rest =>
    intro once one other
    obtain rfl : rest = [] := List.length_eq_zero_iff.mp (by simpa using once)
    rw [List.mem_singleton.mp one, List.mem_singleton.mp other]

/-- A call that is started by a run which has authorized the id, and has started none. -/
theorem Counted.startCall {t : Nat} {id : Str} (h : s.Counted x) (once : (s.authorizationsOf x).length ≤ 1) (idle : s.Unstarted t)
    (authorized : id = x → s.AuthorizedBy x t) :
    Counted x { s with starts := s.starts ++ [(t, id)] } ∧ s.Onward x (· = t) { s with starts := s.starts ++ [(t, id)] } := by
  refine ⟨⟨h.named, fun t' started => ?_, ?_⟩, ⟨Nat.le_refl _, fun _ _ => rfl⟩, fun _ h => h, fun _ h => h, fun start member => ?_⟩
  · rcases List.mem_append.mp started with old | new
    · exact h.starters t' old
    · obtain ⟨rfl, own⟩ := Prod.mk.inj (List.mem_singleton.mp new)
      exact authorized own.symm
  · rw [startsOf, List.filter_append, List.length_append]
    by_cases own : id = x
    · -- an earlier start would be one of this run
      have none : s.starts.filter (fun start => decide (start.2 = x)) = [] := by
        refine List.filter_eq_nil_iff.mpr fun start member its => ?_
        obtain ⟨t', id'⟩ := start
        obtain rfl : id' = x := of_decide_eq_true its
        obtain rfl := (h.starters t' member).unique once (authorized own)
        exact idle id' member
      rw [none, List.length_nil, Nat.zero_add]
      exact List.length_filter_le _ [(t, id)]
    · have foreign : [(t, id)].filter (fun start => decide (start.2 = x)) = [] := by
        refine List.filter_eq_nil_iff.mpr fun start member its => ?_
        rw [List.mem_singleton.mp member] at its
        exact own (of_decide_eq_true its)
      rw [foreign]
      exact h.once
  · exact (List.mem_append.mp member).imp_right fun new => congrArg Prod.fst (List.mem_singleton.mp new)

end Site

/-! ### The discipline -/

/-- A run that has submitted may start a call for what it has authorized itself. -/
def starting [PyText] (cfg : SiteConfig) (x : Str) : Discipline (site cfg) DeploymentJob where
  Inv := Site.Counted x
  Step t _ s s' := s.Onward x (· = t) s'
  Rely t s s' := s.Onward x (· ≠ t) s'
  step_refl t _ s := .refl x (· = t) s
  rely_refl t s := .refl x (· ≠ t) s
  rely_trans _ _ _ _ first second := first.trans second
  rely_of_step _ _ _ _ _ ne step := step.imp fun _ its same => ne (its.symm.trans same)

/-- The record that a pass over `x`, or a reading of it after the pass, finds with the outcome `EXECUTE` is one that the
request has authorized itself. -/
def SoleVerdict (x : Str) (t : Nat) (s : Site) : SiteCommand → Prop
  | .process _ ref _ => (s.runtime.heap ref).id = x →
    (s.runtime.records.get x).bind IntentRecord.outcome = some .execute → s.AuthorizedBy x t
  | .current id held => id = x → (t, x) ∈ s.passes → (s.current x held).outcome = some .execute → s.AuthorizedBy x t
  | _ => True

instance (x : Str) (t : Nat) (s : Site) (c : SiteCommand) : Decidable (SoleVerdict x t s c) := by
  rcases c <;> dsimp only [SoleVerdict] <;> infer_instance

section

variable [PyText] {cfg : SiteConfig} {x : Str} {s : Site}

/-- Requests take nothing out of the histories. -/
theorem Site.histories_exec {c : SiteCommand} (served : c.Served) (s : Site) :
    s.authorizations <+: (Site.exec cfg c s).2.authorizations ∧ s.passes <+: (Site.exec cfg c s).2.passes := by
  have routine : c.Routine → s.authorizations <+: (Site.exec cfg c s).2.authorizations ∧ s.passes <+: (Site.exec cfg c s).2.passes := by
    intro routine
    have moved : s.Reported _ (Site.exec cfg c s).2 := Site.reported_exec routine s
    rw [moved.authorizations, moved.passes]
    exact ⟨List.prefix_refl _, List.prefix_refl _⟩
  cases c with
  | admitIntent ref =>
    simp only [Site.exec, Site.runs]
    split <;> exact ⟨List.prefix_refl _, List.prefix_refl _⟩
  | process ticket ref call =>
    have processed := Site.processed_process cfg ticket ref call s
    change s.authorizations <+: (s.process cfg ticket ref call).2.authorizations ∧ s.passes <+: (s.process cfg ticket ref call).2.passes
    rw [processed.passes]
    refine ⟨?_, List.prefix_append _ _⟩
    rcases processed.authorizations with ⟨same, _⟩ | ⟨a, appended, _⟩
    · rw [same]
    · rw [appended]
      exact List.prefix_append _ _
  | _ => exact routine served

variable (cfg) in
/-- Requests start no call. -/
theorem Site.Counted.served {c : SiteCommand} (served : c.Served) (h : s.Counted x) (named : (Site.exec cfg c s).2.Named)
    (grows : s.Grows (Site.exec cfg c s).2) :
    (Site.exec cfg c s).2.Counted x ∧ ∀ starters, s.Onward x starters (Site.exec cfg c s).2 := by
  have starts := (show s.SameOutside (Site.exec cfg c s).2 from Site.sameOutside_exec served s).starts
  obtain ⟨authorizations, passes⟩ := (show _ ∧ s.passes <+: (Site.exec cfg c s).2.passes from Site.histories_exec served s)
  exact h.still named grows starts authorizations passes

/-- A pass that ends with `EXECUTE` has authorized the intent, or has found its record so. -/
theorem Site.process_execute {ticket : Nat} {ref : Ref} {call : ProcessCall} {a : IntentRecord}
    (answered : (s.process cfg ticket ref call).1 = .ok a) (executes : a.outcome = some .execute) :
    s.runtime.records.get (s.runtime.heap ref).id = some a ∨
      (s.process cfg ticket ref call).2.AuthorizedBy (s.runtime.heap ref).id ticket := by
  have processed := Site.processed_process cfg ticket ref call s
  have verdict : s.runtime.records.get (s.runtime.heap ref).id = some a ∨
      s.runtime.Open (s.runtime.heap ref).id ∧ a.state = .authorized := by
    have ends := ends_processIntent cfg.config { call with now := s.clock, requeue := false } s.runtime ref
    simp only [Site.process, Site.runs] at answered
    cases run : processIntent cfg.config { call with now := s.clock, requeue := false } ref s.runtime with
    | error e rt => rw [run] at answered; cases answered
    | ok b rt =>
      rw [run] at answered
      obtain rfl := Except.ok.inj answered
      cases (ends.of_run_ok run).2 with
      | kept present closed same => exact Or.inl present
      | stopped opened stored state cls policy locks => exact Or.inr ⟨opened, state⟩
      | refused opened stored state outcome locks =>
        obtain ⟨o, its, ne⟩ := outcome
        exact absurd (Option.some.inj (its.symm.trans executes)) ne
      | authorized opened stored granted locks => exact Or.inr ⟨opened, granted.state⟩
  refine verdict.imp_right fun decided => ?_
  obtain ⟨opened, state⟩ := decided
  have now : (s.process cfg ticket ref call).2.state (s.runtime.heap ref).id = some .authorized := by
    rw [Site.state, processed.answered a answered, Option.map_some, state]
  rcases processed.authorizations with ⟨_, before⟩ | ⟨new, appended, its, _, own, _⟩
  · obtain ⟨r, stored, was⟩ := Option.map_eq_some_iff.mp (before now)
    have validatable := opened r stored
    rw [was] at validatable
    cases validatable
  · exact ⟨new, by rw [appended]; exact List.mem_append_right _ List.mem_cons_self, own, its⟩

variable {t : Nat} {role : DeploymentJob} {may : SiteCommand → Site → Fate → Prop} {id : Str}

variable (cfg) in
theorem counted_routine {c : SiteCommand} (routine : c.Routine) (inv : s.Counted x) :
    (Site.exec cfg c s).2.Counted x ∧ ∀ starters, s.Onward x starters (Site.exec cfg c s).2 :=
  have moved : s.Reported _ (Site.exec cfg c s).2 := Site.reported_exec routine s
  inv.served cfg routine.served (moved.named inv.named) moved.grows

/-- What a run knows of its own submission. -/
def startCourse (cfg : SiteConfig) (x : Str) (t : Nat) (role : DeploymentJob) (id : Str)
    (may : SiteCommand → Site → Fate → Prop) (sole : id = x → ∀ c s fate, may c s fate → SoleVerdict x t s c) :
    Course (starting cfg x) t role may t id where
  Moves := Site.Onward x (· ≠ t)
  Keeps := Site.Onward x (· ≠ t)
  Ready ref := Site.Names ref id
  Source _ _ := True
  Good _ a s := s.Names a.intent id ∧ (t, id) ∈ s.passes ∧ (id = x → a.outcome = some .execute → s.AuthorizedBy x t)
  moves_trans _ _ _ first second := first.trans second
  keeps_refl := Site.Onward.refl x (· ≠ t)
  keeps_trans _ _ _ first second := first.trans second
  moves_of_keeps _ _ moved := moved
  keeps_of_rely _ _ rely := rely
  ready_moves _ _ _ names moved := names.grows moved.grows
  source_moves _ _ _ _ _ := trivial
  good_keeps _ _ _ _ good moved :=
    ⟨good.1.grows moved.grows, moved.passes _ good.2.1, fun own executes => moved.authorized t (good.2.2 own executes)⟩
  ready_of_good _ _ _ _ good := good.1
  plain c s _ plain inv _ :=
    have kept := counted_routine cfg plain.routine inv
    ⟨kept.1, kept.2 _, kept.2 _⟩
  withdrawn outcome reason s _ inv _ :=
    have kept := counted_routine cfg (routine_withdraw id outcome reason) inv
    ⟨kept.1, kept.2 _, kept.2 _⟩
  created i s own _ _ :=
    ⟨Nat.lt_succ_self _, (congrArg ActionIntent.id ((Runtime.heap_putIntent _ _ _ _).trans (if_pos rfl))).trans own⟩
  admission ref s _ inv names _ := by
    obtain ⟨a, s', run, named, grown, _⟩ := Site.Named.admitIntent cfg inv.named names
    have kept := inv.served cfg (c := .admitIntent ref) trivial (by rw [run]; exact named) (by rw [run]; exact grown)
    exact ⟨kept.1, kept.2 _, kept.2 _⟩
  admitted ref s a inv names _ same := by
    obtain ⟨b, s', run, _, _, its⟩ := Site.Named.admitIntent cfg inv.named names
    have answer : Except.ok a = Except.ok b := same.symm.trans (congrArg Prod.fst run)
    rw [run, Except.ok.inj answer]
    exact its
  registered _ _ _ _ _ _ _ := trivial
  process ref call s _ inv names _ _ := by
    obtain ⟨named, grown⟩ := Site.Named.process inv.named names.1 (Site.processed_process cfg t ref call s)
    have kept := inv.served cfg (c := .process t ref call) trivial named grown
    exact ⟨kept.1, kept.2 _, kept.2 _⟩
  processed ref call s a inv names _ allowed same := by
    have processed := Site.processed_process cfg t ref call s
    have stored := processed.answered a same
    have grown := Site.Named.process inv.named names.1 processed
    rw [names.2] at stored
    refine ⟨grown.1 id a stored, ?_, fun own executes => ?_⟩
    · rw [processed.passes, names.2]
      exact List.mem_append_right _ List.mem_cons_self
    · rcases Site.process_execute same executes with found | authorized
      · rw [names.2, own] at found
        have its : s.AuthorizedBy x t := sole own _ s .done allowed (names.2.trans own) (by rw [found, Option.bind_some, executes])
        exact ((inv.served cfg (c := .process t ref call) trivial grown.1 grown.2).2 (· = t)).authorized t its
      · rw [names.2, own] at authorized
        exact authorized
  read _ a s _ good allowed := by
    refine ⟨?_, good.2.1, fun own executes => ?_⟩
    · rw [Site.current_intent]
      exact good.1
    · subst own
      exact sole rfl _ s .done allowed rfl good.2.1 executes

/-! ### A run after its submission -/

/-- The steps that neither admit nor validate an intent, and start no call. -/
def SiteCommand.Idle : SiteCommand → Prop
  | .sendReport _ => True
  | .actuateCell _ _ => True
  | .appendActuation _ => True
  | c => c.Routine

omit [PyText] in
theorem SiteCommand.Routine.idle {c : SiteCommand} (routine : c.Routine) : c.Idle := by
  cases c <;> first | exact routine | exact trivial

omit [PyText] in
theorem SiteCommand.Calls.idle {c : SiteCommand} (calls : c.Calls) : c.Idle := by
  cases c <;> first | exact calls.elim | exact trivial

variable (cfg) in
theorem reported_idle {c : SiteCommand} (idle : c.Idle) (s : Site) :
    (∃ reach, s.Reported reach (Site.exec cfg c s).2) ∧ (Site.exec cfg c s).2.starts = s.starts := by
  have routine : c.Routine → (∃ reach, s.Reported reach (Site.exec cfg c s).2) ∧ (Site.exec cfg c s).2.starts = s.starts :=
    fun routine => ⟨⟨_, Site.reported_exec routine s⟩,
      (show s.SameOutside (Site.exec cfg c s).2 from Site.sameOutside_exec routine.served s).starts⟩
  cases c with
  | sendReport report => exact ⟨⟨fun _ _ => True, .aside rfl rfl rfl rfl rfl⟩, rfl⟩
  | actuateCell ticket command => exact ⟨⟨fun _ _ => True, .aside rfl rfl rfl rfl rfl⟩, rfl⟩
  | appendActuation tombstone => exact ⟨⟨fun _ _ => True, .aside rfl rfl rfl rfl rfl⟩, rfl⟩
  | _ => exact routine idle

/-- The start of the run's call. -/
def SiteCommand.StartsCall (t : Nat) (id : Str) (c : SiteCommand) : Prop := ∃ witness, c = .startCall t id witness

section

variable {α : Type}

/-- What a run may send beside its call: routine steps and reports. -/
structure Beside (sent : SiteCommand → Prop) : Prop where
  routine : ∀ c, c.Routine → sent c
  report : ∀ report, sent (.sendReport report)

namespace Beside

variable {sent : SiteCommand → Prop} (beside : Beside sent)

include beside

theorem sends {m : Handler cfg α} (sends : Method.Sends SiteCommand.Routine m) : Method.Sends sent m := sends.imp beside.routine

theorem http {handler : Handler cfg α} (sends : Method.Sends SiteCommand.Routine handler) : Method.Sends sent (Xair.http handler) :=
  beside.sends (Method.sends_bind (sends_step trivial) fun _ => Method.sends_bind sends fun _ =>
    Method.sends_bind (sends_step trivial) fun _ => Method.sends_pure _)

theorem sendRelease (released : Bool) (reason : Str) (contextVersion readSetVersion : Option Int)
    (effect : Option (EffectStatus × Str)) : Method.Sends sent
      (sendRelease t id released reason contextVersion readSetVersion effect : Handler cfg Unit) :=
  Method.sends_tryCatch (Method.sends_bind (sends_step (beside.report _)) fun _ =>
    Method.sends_bind (beside.http (sends_releaseReport id released reason contextVersion readSetVersion effect))
      fun _ => Method.sends_pure _) fun _ => Method.sends_pure _

theorem sendWithheld (reason : Str) (append : Fate) :
    Method.Sends sent (sendWithheld t id reason append : Handler cfg Unit) :=
  Method.sends_tryCatch (Method.sends_bind (sends_step (beside.report _)) fun _ =>
    Method.sends_bind (beside.http (sends_withheldReport id reason append)) fun _ => Method.sends_pure _)
    fun _ => Method.sends_pure _

theorem pullSnapshot (exprs : Option (List Str)) :
    Method.Sends sent (pullSnapshot exprs id : Handler cfg (SnapshotDoc × Option IntentState)) :=
  Method.sends_tryCatch (beside.http ((sends_contextSnapshot exprs (some id)).imp fun _ plain => plain.routine))
    fun _ => Method.sends_pure _

end Beside

omit [PyText] in
theorem beside_idle : Beside SiteCommand.Idle := ⟨fun _ routine => routine.idle, fun _ => trivial⟩

theorem idle_callActuator (actuator : Actuator) (witness : Option Json) (deadlineMs : ℚ) :
    Method.Sends SiteCommand.Idle (callActuator t id actuator witness deadlineMs : Handler cfg (Option Str × Bool)) :=
  (sends_callActuator id actuator witness deadlineMs).imp fun _ calls => calls.idle

/-- The call is started once, or not at all. -/
abbrev Single (t : Nat) (id : Str) (m : Handler cfg α) : Prop :=
  Method.SendsOnce SiteCommand.Idle (SiteCommand.StartsCall t id) m

theorem single_startCall (witness : Option Json) : Single t id (step (.startCall t id witness) : Handler cfg Unit) :=
  Method.sendsOnce_command ⟨witness, rfl⟩

theorem single_releaseStop : Single t id (releaseStop t id : Handler cfg GatewayResult) := by
  refine (single_startCall none).bind fun _ => ?_
  refine Method.sends_bind (Method.sends_tryCatch (idle_callActuator .middleware none 0) fun _ => Method.sends_pure _) fun called => ?_
  exact Method.sends_bind (beside_idle.sendRelease true _ none none _) fun _ => Method.sends_pure _

theorem single_commitAndCall (q : GatewayQuery) (i : ActionIntent) (result : SubmitAnswer) :
    Single t result.id (commitAndCall t q i result : Handler cfg Release) := by
  refine Method.Sends.bind_once (beside_idle.http (sends_commitIntent result.id _ q.commitMarginMs)) fun act => ?_
  refine Method.sendsOnce_ite ?_ (Method.sends_pure _).once
  refine Method.Sends.bind_once (sends_step trivial) fun now => ?_
  refine Method.sendsOnce_ite ?_ (Method.sends_bind (beside_idle.sendWithheld _ q.append) fun _ => Method.sends_pure _).once
  refine (single_startCall _).bind fun _ => ?_
  exact Method.sends_bind (Method.sends_tryCatch (idle_callActuator q.actuator _ _) fun _ => Method.sends_pure _)
    fun _ => Method.sends_pure _

theorem single_releaseAtomic (q : GatewayQuery) (i : ActionIntent) (result : SubmitAnswer) :
    Single t result.id (releaseAtomic t q i result : Handler cfg GatewayResult) := by
  refine ((single_commitAndCall q i result).tryCatch fun _ => Method.sends_pure _).bind fun release => ?_
  cases release with
  | blocked reason => exact Method.sends_pure _
  | called reason cellResult rosOk =>
    exact Method.sends_bind (beside_idle.sendRelease true reason none none _) fun _ => Method.sends_pure _

theorem single_checkAndCall (q : GatewayQuery) (i : ActionIntent) (result : SubmitAnswer) (doc : SnapshotDoc)
    (state : Option IntentState) (timedOut : Nat → Nat → Bool) :
    Single t result.id (checkAndCall t q i result doc state timedOut : Handler cfg Release) := by
  refine Method.Sends.bind_once (sends_step trivial) fun now => ?_
  cases gateCheck cfg result i q.scope doc state now timedOut with
  | error e => exact (Method.sends_throw _).once
  | ok out =>
    obtain ⟨passed, reason⟩ := out
    cases passed with
    | false => exact (Method.sends_pure _).once
    | true =>
      refine (single_startCall _).bind fun _ => ?_
      exact Method.sends_bind (idle_callActuator q.actuator _ _) fun _ => Method.sends_pure _

theorem single_releaseOptimistic (q : GatewayQuery) (i : ActionIntent) (result : SubmitAnswer) (timedOut : Nat → Nat → Bool) :
    Single t result.id (releaseOptimistic t q i result timedOut : Handler cfg GatewayResult) := by
  refine Method.Sends.bind_once (beside_idle.pullSnapshot _) fun read => ?_
  obtain ⟨doc, state⟩ := read
  refine ((single_checkAndCall q i result doc state timedOut).tryCatch fun _ => Method.sends_pure _).bind fun release => ?_
  cases release with
  | blocked reason => exact Method.sends_bind (beside_idle.sendRelease false reason _ _ none) fun _ => Method.sends_pure _
  | called reason cellResult rosOk =>
    exact Method.sends_bind (beside_idle.sendRelease true reason _ _ _) fun _ => Method.sends_pure _

end

/-! ### Jobs -/

/-- The request that a job makes of a process that is never restarted; of a gateway run, its submission. -/
def DeploymentJob.asks : DeploymentJob → HttpJob
  | .request r => ⟨0, r⟩
  | .gateway _ body timedOut _ => ⟨0, .submit (some body) timedOut⟩

/-- The run the claim is about: it lies within one retention window, the id never belongs to a stop, and what a gateway
run on `x` finds with the outcome `EXECUTE` it has authorized itself. -/
def MayStart (cfg : SiteConfig) (x : Str) (since : ℚ) (t : Nat) (job : DeploymentJob) (c : SiteCommand) (s : Site) : Prop :=
  WithinWindow cfg x since job.asks s ∧ (job.On x → SoleVerdict x t s c)

instance (cfg : SiteConfig) (x : Str) (since : ℚ) (t : Nat) (job : DeploymentJob) (c : SiteCommand) (s : Site) :
    Decidable (MayStart cfg x since t job c s) :=
  inferInstanceAs (Decidable (_ ∧ (_ → _)))

/-- An id is authorized once, and its calls are started by whoever has authorized it. -/
abbrev startsOnce (cfg : SiteConfig) (x : Str) (since : ℚ) : Discipline (site cfg) DeploymentJob :=
  (admissions cfg x since).both DeploymentJob.asks (starting cfg x)

variable {since : ℚ} {job : DeploymentJob}

/-- Without a restart no earlier process has authorized anything. -/
theorem mayOnce_of_mayStart {c : SiteCommand} {s : Site} (inv : s.Once x since) (allowed : MayStart cfg x since t job c s) :
    MayOnce cfg x since job.asks c s := by
  have first : s.life = 0 := allowed.1.alive.trans (by cases job <;> rfl)
  have before : s.NotAuthorizedBefore x := fun a member its => by
    have lives := inv.lives a member its
    omega
  refine ⟨allowed.1, ?_⟩
  cases c with
  | admitIntent ref => exact fun _ _ => before
  | claimIntent id => exact fun _ _ => before
  | _ => exact trivial

variable (cfg) in
/-- A step that leaves the starts alone and moves at most one record on. -/
theorem keeps_idle {c : SiteCommand} (idle : c.Idle) {s : Site} (inv : s.Once x since ∧ s.Counted x) :
    ((Site.exec cfg c s).2.Once x since ∧ (Site.exec cfg c s).2.Counted x) ∧ s.Later x (Site.exec cfg c s).2 ∧
      ∀ starters, s.Onward x starters (Site.exec cfg c s).2 := by
  obtain ⟨⟨reach, moved⟩, starts⟩ := reported_idle cfg idle s
  have counted := moved.counted starts inv.2
  exact ⟨⟨moved.once inv.1, counted.1⟩, moved.later x, counted.2⟩

/-- The judgement for a call of a job. -/
abbrev Starting (cfg : SiteConfig) (x : Str) (since : ℚ) (t : Nat) (job : DeploymentJob) {α : Type} (m : Handler cfg α) (s : Site)
    (ok : α → Site → Prop) : Prop :=
  Method.Runs (startsOnce cfg x since) t job (fun c s _ => MayStart cfg x since t job c s) m () s (fun a _ => ok a) fun _ _ _ => True

/-- What a gateway run may release: what it has authorized itself, while it has started nothing. -/
def Site.Releasable (x : Str) (t : Nat) (id : Str) (s : Site) : Prop := s.Unstarted t ∧ (id = x → s.AuthorizedBy x t)

omit [PyText] in
theorem Site.Releasable.onward {s s' : Site} (h : s.Releasable x t id) (moved : s.Onward x (· ≠ t) s') : s'.Releasable x t id :=
  ⟨h.1.onward moved, fun own => moved.authorized t (h.2 own)⟩

section

variable {q : GatewayQuery} {body : ActionIntent} {timedOut gateTimedOut : Nat → Nat → Bool} {s : Site}

/-- The submission of a gateway run. -/
theorem starting_submission (inv : s.Once x since ∧ s.Counted x) (idle : s.Unstarted t) :
    Starting cfg x since t (.gateway q body timedOut gateTimedOut) (http (submitIntent t (some body) timedOut)) s fun result s' =>
      result.duplicate = true ∨ result.outcome ≠ some .execute ∨ result.id = body.id ∧ s'.Releasable x t body.id := by
  have sole : body.id = x → ∀ c s (fate : Fate), MayStart cfg x since t (.gateway q body timedOut gateTimedOut) c s → SoleVerdict x t s c :=
    fun own c s _ allowed => allowed.2 own
  have judged : Judged cfg x since t (DeploymentJob.asks (.gateway q body timedOut gateTimedOut))
      (http (submitIntent t (some body) timedOut)) s fun _ _ => True :=
    judged_bind inv.1 (judged_plain (sends_step (c := .send) trivial)) fun _ s₁ inv₁ _ _ =>
      judged_bind inv₁ (judged_submitIntent inv₁ (some body) timedOut) fun _ _ _ _ _ =>
        judged_plain (Method.sends_bind (sends_step (c := .send) trivial) fun _ => Method.sends_pure _)
  have both : Method.Runs (startsOnce cfg x since) t (.gateway q body timedOut gateTimedOut)
      (fun c s _ => MayStart cfg x since t (.gateway q body timedOut gateTimedOut) c s) (http (submitIntent t (some body) timedOut)) () s
      (fun result _ s' => True ∧ s.Onward x (· ≠ t) s' ∧ (startCourse cfg x t (.gateway q body timedOut gateTimedOut) body.id _ sole).Answers result s')
      fun _ _ _ => True ∧ True :=
    Method.Runs.both (fun c s _ inv _ allowed => ⟨mayOnce_of_mayStart inv allowed, allowed⟩) judged
      ((startCourse cfg x t (.gateway q body timedOut gateTimedOut) body.id _ sole).leads_http inv.2 rfl timedOut)
  refine both.imp (fun result _ s' _ ends => ?_) fun _ _ _ _ _ => trivial
  obtain ⟨_, moved, answers⟩ := ends
  rcases answers with duplicate | other | ⟨context, record, payload, ⟨_, _, authorized⟩, rfl⟩
  · exact Or.inl duplicate
  · exact Or.inr (Or.inl other)
  · by_cases executes : record.outcome = some .execute
    · exact Or.inr (Or.inr ⟨rfl, idle.onward moved, fun own => authorized own executes⟩)
    · exact Or.inr (Or.inl executes)

/-- The release of what the run has authorized. -/
theorem starting_release {α : Type} {m : Handler cfg α} {id : Str} (single : Single t id m) (start : s.Releasable x t id) :
    Starting cfg x since t job m s fun _ _ => True := by
  refine Method.Runs.of_sendsOnce (K := Site.Releasable x t id) (fun _ _ kept rely => kept.onward rely.2)
    (fun c s' _ idle inv _ => ?_) (fun c s' _ its inv kept _ => ?_) single start
  · obtain ⟨after, later, onward⟩ := keeps_idle cfg idle inv
    exact ⟨after, ⟨later, onward _⟩, fun kept => kept.onward (onward _)⟩
  · obtain ⟨witness, rfl⟩ := its
    have moved : s'.Reported (fun _ _ => True) (Site.exec cfg (.startCall t id witness) s').2 := .aside rfl rfl rfl rfl rfl
    obtain ⟨counted, onward⟩ := inv.2.startCall inv.1.once kept.1 kept.2
    exact ⟨⟨moved.once inv.1, counted⟩, moved.later x, onward⟩

/-- A gateway run. -/
theorem starting_xairPolicy (inv : s.Once x since ∧ s.Counted x) (idle : s.Unstarted t) :
    Starting cfg x since t (.gateway q body timedOut gateTimedOut) (xairPolicy t q body timedOut gateTimedOut) s fun _ _ => True := by
  have submitted : Starting cfg x since t (.gateway q body timedOut gateTimedOut) (tryCatch (do
      let result ← http (submitIntent t (some body) timedOut)
      return some result) fun _ => (pure none : Handler cfg (Option SubmitAnswer))) s fun found s' => ∀ result, found = some result →
      result.duplicate = true ∨ result.outcome ≠ some .execute ∨ result.id = body.id ∧ s'.Releasable x t body.id := by
    refine Method.runs_tryCatch inv (Method.runs_map inv ((starting_submission inv idle).imp (fun _ _ _ _ ends => ends)
      fun _ _ _ _ _ _ => Method.runs_pure fun _ _ _ result none => nomatch none) fun result _ s' _ ends result' same => ?_)
    exact Option.some.inj same ▸ ends
  refine Method.runs_bind inv (submitted.imp (fun found _ s₁ _ ends inv₁ => ?_) fun _ _ _ _ _ => trivial)
  cases found with
  | none => exact Method.runs_pure fun _ _ _ => trivial
  | some result =>
    refine Method.runs_ite (fun _ => Method.runs_pure fun _ _ _ => trivial) fun first => ?_
    refine Method.runs_ite (fun _ => Method.runs_pure fun _ _ _ => trivial) fun executes => ?_
    obtain ⟨own, releasable⟩ := ((ends result rfl).resolve_left first).resolve_left executes
    rw [← own] at releasable
    refine starting_release (Method.sendsOnce_ite single_releaseStop (Method.sendsOnce_ite ?_ ?_)) releasable
    · exact single_releaseAtomic q _ result
    · exact single_releaseOptimistic q _ result gateTimedOut

end

/-- Every job. -/
theorem starting_handle {s : Site} (inv : s.Once x since ∧ s.Counted x) (idle : s.Unstarted t) :
    Starting cfg x since t job (job.handle cfg t) s fun _ _ => True := by
  cases job with
  | gateway q body timedOut gateTimedOut =>
    exact Method.runs_map inv (starting_xairPolicy inv idle) fun _ _ _ _ _ => trivial
  | request request =>
    have named : Naming cfg t ⟨0, request⟩ (request.handle cfg t) s fun _ _ => True := naming_handle inv.2.named
    have counted : Method.Runs (starting cfg x) t (.request request) (fun c s _ => MayStart cfg x since t (.request request) c s)
        (request.handle cfg t) () s (fun _ _ _ => True) fun _ _ _ => True := by
      refine Safe.transfer (fun s inv => Site.Counted.named inv) (fun _ _ rely => Site.Onward.grows rely) (fun _ _ _ _ => trivial)
        (fun c s _ served inv _ named grows => ?_) (request.sends_served t ()) named
      obtain ⟨after, onward⟩ := Site.Counted.served cfg served inv named grows
      exact ⟨after, onward _⟩
    have judged : Judged cfg x since t ⟨0, request⟩ (request.handle cfg t) s fun _ _ => True := judged_handle inv.1
    have both : Method.Runs (startsOnce cfg x since) t (.request request) (fun c s _ => MayStart cfg x since t (.request request) c s)
        (request.handle cfg t) () s (fun _ _ _ => True ∧ True) fun _ _ _ => True ∧ True :=
      Method.Runs.both (fun c s _ inv _ allowed => ⟨mayOnce_of_mayStart inv allowed, allowed⟩) judged counted
    exact Method.runs_map inv (both.imp (fun _ _ _ _ ends => ends) fun _ _ _ _ _ => trivial) fun _ _ _ _ _ => trivial

/-! ### Runs -/

omit [PyText] in
theorem reported_change (change : DeploymentChange) (s : Site) :
    s.Reported (fun _ _ => True) (change.apply s) ∧ (change.apply s).starts = s.starts := by
  cases change with
  | announce =>
    simp only [DeploymentChange.apply, Site.announce]
    split <;> exact ⟨.aside rfl rfl rfl rfl rfl, rfl⟩
  | _ => exact ⟨.aside rfl rfl rfl rfl rfl, rfl⟩

def startContract (cfg : SiteConfig) (x : Str) (since : ℚ) : Contract (site cfg) (deployment cfg) (startsOnce cfg x since) where
  Starts _ := True
  May t job c s _ := MayStart cfg x since t job c s
  LocalOk _ _ := True
  Fresh t s := s.Unstarted t
  Since _ _ _ := True
  Post _ _ _ _ := True
  local_rely _ _ _ _ _ _ _ _ := trivial
  fresh_rely _ _ _ fresh rely := fresh.onward rely.2
  since_fresh _ _ _ _ := trivial
  since_step _ _ _ _ _ _ := trivial
  since_rely _ _ _ _ _ _ := trivial
  env_inv change s inv :=
    have changed := reported_change change s
    ⟨changed.1.once inv.1, (changed.1.counted changed.2 inv.2).1⟩
  env_rely change _ s inv :=
    have changed := reported_change change s
    ⟨changed.1.later x, (changed.1.counted changed.2 inv.2).2 _⟩

/-- Any number of gateway runs and requests without a restart, in any order and interleaved at any step, within one
retention window: as long as no run finds an `EXECUTE` in the record that another has authorized, the middleware or
controller call is started at most once for the id. -/
theorem starts_once (cfg : SiteConfig) (x : Str) (since : ℚ) (heap : Ref → ActionIntent) (context : Members) (policy : Policy)
    (cell : Cell) {events : List (PoolEvent (site cfg) (deployment cfg))}
    (along : Pool.Along (Pool.Allows fun t job c s _ => MayStart cfg x since t job c s)
      (Pool.init (Site.init heap context policy cell) fun _ => ()) events) :
    ((Pool.run (Pool.init (Site.init heap context policy cell) fun _ => ()) events).shared.startsOf x).length ≤ 1 := by
  have start : Pool.Sound (startContract cfg x since) (Pool.init (Site.init heap context policy cell) fun _ => ()) :=
    Pool.sound_init ⟨once_init heap context policy cell, (fun _ _ stored => nomatch stored), (fun _ member => nomatch member), Nat.zero_le 1⟩
      (fun _ => trivial) fun _ _ member => nomatch member
  refine (start.run (fun t job l s _ inv _ fresh => ?_) (along.imp fun e _ P allows => ?_)).inv.2.once
  · exact Safe.imp (starting_handle (t := t) inv fresh) fun _ _ _ _ => ⟨trivial, trivial⟩
  · cases e with
    | start pid job => trivial
    | step pid fate => exact fun t job c next busy => allows.command busy
    | env change => trivial

end

/-! ### Two submissions of a delayed id -/

theorem starts_once_scannedRun : ((reportStart.run (scannedRun .done)).shared.startsOf "a".toList).length ≤ 1 :=
  @starts_once PyText.ascii reportConfig "a".toList 0 (fun _ => plainIntent "" "") .nil .empty (.boot none 0) (scannedRun .done)
    (by decide +kernel)

def holder : DeploymentJob := .request (.submit (some (plainIntent "b" "cell")) fun _ _ => false)

def holderRevoked : DeploymentJob := .request (.revoke "b".toList)

def doneSteps (pid n : Nat) : List ReportEvent := List.replicate n (.step pid .done)

/-- `b` holds the target while `a` is submitted, and is revoked. Two runs then submit `a` again: both are past the check for
duplicates before either validates, and both come to the call. -/
def delayedTwice : List ReportEvent :=
  .start 0 holder :: doneSteps 0 13 ++ .start 1 optimisticRun :: doneSteps 1 14 ++ .start 2 holderRevoked :: doneSteps 2 2 ++
    [.start 3 optimisticRun, .start 4 optimisticRun] ++ doneSteps 3 9 ++ doneSteps 4 9 ++ doneSteps 3 12 ++ doneSteps 4 12

theorem starts_twice : ¬∀ events : List ReportEvent, (∀ e ∈ events, e.Unfailing) →
    Pool.Along (Pool.Meets fun job _ s => @WithinWindow PyText.ascii reportConfig "a".toList 0 (DeploymentJob.asks job) s)
      reportStart events → ((reportStart.run events).shared.startsOf "a".toList).length ≤ 1 := by
  intro claim
  have once := claim delayedTwice (by decide +kernel) (by decide +kernel)
  revert once
  decide +kernel

end Xair
