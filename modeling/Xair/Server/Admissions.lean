import Xair.Runtime.TargetLock
import Xair.Server.Routine

/-!
# One authorization per id

An id that has been authorized is in the memory of the process, and, if it came in a
submission of its own, claimed in the store. A batch claims nothing: after a restart
nothing tells of the ids that it authorized.
-/

namespace Xair

open Library

/-! ### Admission within a retention window -/

theorem expireSeen_of_recent {cfg : Config} {mono : ℚ} {rt : Runtime}
    (recent : ∀ id time, rt.seen.get id = some time → mono - cfg.idempotencyRetentionS ≤ time) :
    expireSeen cfg mono rt = rt := by
  rw [expireSeen]
  cases items : rt.seen.items with
  | nil => rfl
  | cons item rest =>
    obtain ⟨id, time⟩ := item
    have member : (id, time) ∈ rt.seen.items := by rw [items]; exact List.mem_cons_self
    rw [expireItems, if_pos (recent id time (Dict.mem_items.mp member))]

/-- Nothing is forgotten: the id is known, or it gets a record and a place in the seen-table. -/
inductive Admitted (mono : ℚ) (ref : Ref) (rt : Runtime) (a : IntentRecord × Bool) (rt' : Runtime) : Prop
  | known (duplicate : a.2 = true) (seen : rt.seen.contains (rt.heap ref).id = true)
      (stored : rt.records.get (rt.heap ref).id = some a.1) (same : rt' = rt)
  | new (first : a = (.fresh ref, false))
      (unknown : rt.seen.contains (rt.heap ref).id = true → rt.records.get (rt.heap ref).id = none)
      (records : rt'.records = rt.records.insert (rt.heap ref).id (.fresh ref))
      (seen : rt'.seen = rt.seen.insert (rt.heap ref).id mono) (heap : rt'.heap = rt.heap)

theorem ends_admitIntent_recent (cfg : Config) (ref : Ref) {mono : ℚ} {rt : Runtime}
    (recent : ∀ id time, rt.seen.get id = some time → mono - cfg.idempotencyRetentionS ≤ time) :
    Ends (admitIntent cfg ref mono false) rt (fun a rt' => Admitted mono ref rt a rt') fun _ _ => False := by
  rw [admitIntent, ends_bind, ends_modify, ends_bind, ends_get, expireSeen_of_recent recent]
  cases found : if rt.seen.contains (rt.heap ref).id then rt.records.get (rt.heap ref).id else none with
  | some record =>
    simp only [found]
    refine ends_pure.mpr ?_
    split at found
    · rename_i seen
      exact .known rfl seen found rfl
    · cases found
  | none =>
    simp only [found]
    rw [ends_bind, ends_set, ends_pure]
    refine .new rfl (fun seen => ?_) rfl rfl rfl
    rw [if_pos seen] at found
    exact found

/-! ### What is known of an id -/

namespace Site

/-- No earlier process has authorized the id. -/
def NotAuthorizedBefore (x : Str) (s : Site) : Prop := ∀ a ∈ s.authorizations, a.id = x → a.life = s.life

instance (x : Str) (s : Site) : Decidable (s.NotAuthorizedBefore x) :=
  inferInstanceAs (Decidable (∀ a ∈ s.authorizations, a.id = x → a.life = s.life))

/-- The store has a claim on the id that has not expired. -/
def Claimed (cfg : SiteConfig) (x : Str) (s : Site) : Prop :=
  (cfg.redisRequired && (s.claims.get x).any fun expiry => decide (s.clock < expiry)) = true

instance (cfg : SiteConfig) (x : Str) (s : Site) : Decidable (s.Claimed cfg x) := inferInstanceAs (Decidable (_ = true))

/-- The process has admitted the id and keeps its record. -/
def Registered (x : Str) (s : Site) : Prop :=
  s.runtime.seen.contains x = true ∧ ∃ record, s.runtime.records.get x = some record

/-- The process has admitted the id, and no earlier one has authorized it. -/
def Entered (x : Str) (s : Site) : Prop := s.Registered x ∧ s.NotAuthorizedBefore x

/-- How often the id has become `AUTHORIZED`. -/
def authorizationsOf (x : Str) (s : Site) : List Authorization := s.authorizations.filter fun a => decide (a.id = x)

theorem mem_authorizationsOf {x : Str} {s : Site} {a : Authorization} :
    a ∈ s.authorizationsOf x ↔ a ∈ s.authorizations ∧ a.id = x := by
  rw [authorizationsOf, List.mem_filter, decide_eq_true_eq]

/-- The invariant; `since` is where the retention window begins. -/
structure Once (x : Str) (since : ℚ) (s : Site) : Prop where
  refs : ∀ id r, s.runtime.records.get id = some r → r.intent < s.allocated ∧ (s.runtime.heap r.intent).id = id
  seen : ∀ id time, s.runtime.seen.get id = some time → since ≤ time
  lives : ∀ a ∈ s.authorizations, a.id = x → a.life ≤ s.life
  kept : ∀ a ∈ s.authorizations, a.id = x → a.life = s.life →
    s.runtime.seen.contains x = true ∧ ∃ r, s.runtime.records.get x = some r ∧ 1 ≤ r.state.stage
  delayed : ∀ r, s.runtime.records.get x = some r → r.state = .delayed → s.NotAuthorizedBefore x
  once : (s.authorizationsOf x).length ≤ 1

/-- What no step takes back: allocated intents keep their ids, and while the process lives so does what it
knows of the id. -/
structure Later (x : Str) (s s' : Site) : Prop where
  allocated : s.allocated ≤ s'.allocated
  ids : ∀ ref, ref < s.allocated → (s'.runtime.heap ref).id = (s.runtime.heap ref).id
  life : s.life ≤ s'.life
  registered : s'.life = s.life → s.Registered x → s'.Registered x
  before : s'.life = s.life → s.NotAuthorizedBefore x → s'.NotAuthorizedBefore x

theorem Later.refl (x : Str) (s : Site) : s.Later x s :=
  ⟨Nat.le_refl _, fun _ _ => rfl, Nat.le_refl _, fun _ h => h, fun _ h => h⟩

theorem Later.trans {x : Str} {s s' s'' : Site} (first : s.Later x s') (second : s'.Later x s'') : s.Later x s'' := by
  have between : s''.life = s.life → s'.life = s.life ∧ s''.life = s'.life := by
    intro same
    have lower := first.life
    have upper := second.life
    omega
  refine ⟨Nat.le_trans first.allocated second.allocated, fun ref used => ?_, Nat.le_trans first.life second.life,
    fun same h => ?_, fun same h => ?_⟩
  · exact (second.ids ref (Nat.lt_of_lt_of_le used first.allocated)).trans (first.ids ref used)
  · exact second.registered (between same).2 (first.registered (between same).1 h)
  · exact second.before (between same).2 (first.before (between same).1 h)

end Site

/-! ### The discipline -/

/-- Every process may do what keeps the invariant and takes nothing back. -/
def admissions [PyText] (cfg : SiteConfig) (x : Str) (since : ℚ) : Discipline (site cfg) HttpJob where
  Inv := Site.Once x since
  Step _ _ s s' := Site.Later x s s'
  Rely _ s s' := Site.Later x s s'
  step_refl _ _ s := Site.Later.refl x s
  rely_refl _ s := Site.Later.refl x s
  rely_trans _ _ _ _ first second := first.trans second
  rely_of_step _ _ _ _ _ _ step := step

/-- The run the claim is about: requests are served by the process they were sent to, all within one
retention window, and the id never belongs to a stop. -/
structure WithinWindow [PyText] (cfg : SiteConfig) (x : Str) (since : ℚ) (job : HttpJob) (s : Site) : Prop where
  alive : s.life = job.life
  recent : since ≤ s.mono ∧ s.mono ≤ since + cfg.config.idempotencyRetentionS
  neverStop : ∀ ref, ref < s.allocated → (s.runtime.heap ref).id = x →
    s.runtime.policy.actionClass (s.runtime.heap ref) ≠ .stop

instance {_ : PyText} (cfg : SiteConfig) (x : Str) (since : ℚ) (job : HttpJob) (s : Site) :
    Decidable (WithinWindow cfg x since job s) :=
  decidable_of_iff (s.life = job.life ∧ (since ≤ s.mono ∧ s.mono ≤ since + cfg.config.idempotencyRetentionS) ∧
      ∀ ref, ref < s.allocated → (s.runtime.heap ref).id = x →
        s.runtime.policy.actionClass (s.runtime.heap ref) ≠ .stop)
    ⟨fun h => ⟨h.1, h.2.1, h.2.2⟩, fun h => ⟨h.alive, h.recent, h.neverStop⟩⟩

def Request.Batch : Request → Prop
  | batch _ _ => True
  | _ => False

instance : DecidablePred Request.Batch
  | .batch _ _ => .isTrue trivial
  | .submit _ _ | .commit _ _ _ | .release _ _ _ _ _ _ | .effect _ _ _ | .withheld _ _ _ | .revoke _ | .update _
  | .snapshot _ _ | .policy _ => .isFalse fun h => h

/-- An id that an earlier process has authorized is not admitted by a batch, and not claimed as if it were new. -/
def Recorded (cfg : SiteConfig) (x : Str) (job : HttpJob) (s : Site) : SiteCommand → Prop
  | .admitIntent ref => job.request.Batch → (s.runtime.heap ref).id = x → s.NotAuthorizedBefore x
  | .claimIntent id => id = x → ¬s.Claimed cfg x → s.NotAuthorizedBefore x
  | _ => True

instance (cfg : SiteConfig) (x : Str) (job : HttpJob) (s : Site) (c : SiteCommand) : Decidable (Recorded cfg x job s c) := by
  rcases c <;> dsimp only [Recorded] <;> infer_instance

/-- A step of such a run. -/
def MayOnce [PyText] (cfg : SiteConfig) (x : Str) (since : ℚ) (job : HttpJob) (c : SiteCommand) (s : Site) : Prop :=
  WithinWindow cfg x since job s ∧ Recorded cfg x job s c

instance {_ : PyText} (cfg : SiteConfig) (x : Str) (since : ℚ) (job : HttpJob) (c : SiteCommand) (s : Site) :
    Decidable (MayOnce cfg x since job c s) :=
  inferInstanceAs (Decidable (_ ∧ _))

section

variable {x : Str} {since : ℚ} {s s' : Site}

/-! ### One step -/

theorem Moved.stored {before after : Option IntentRecord} (moved : Moved before after) {r : IntentRecord}
    (stored : before = some r) : ∃ r', after = some r' ∧ r'.intent = r.intent ∧ r.state.stage ≤ r'.state.stage := by
  rcases moved with same | ⟨q, r', was, now, further⟩
  · exact ⟨r, same.trans stored, rfl, Nat.le_refl _⟩
  · obtain rfl := Option.some.inj (was.symm.trans stored)
    exact ⟨r', now, further.intent, IntentState.stage_le_of_allowed further.allowed⟩

theorem Moved.origin {before after : Option IntentRecord} (moved : Moved before after) {r' : IntentRecord}
    (now : after = some r') :
    ∃ r, before = some r ∧ r'.intent = r.intent ∧ (r'.state.stage < 2 → r'.state = r.state) := by
  rcases moved with same | ⟨r, q, was, after', further⟩
  · exact ⟨r', same.symm.trans now, rfl, fun _ => rfl⟩
  · obtain rfl := Option.some.inj (after'.symm.trans now)
    exact ⟨r, was, further.intent, fun early => absurd further.late (Nat.not_le_of_lt early)⟩

theorem Site.Reported.later {reach : Str → IntentState → Prop} (moved : s.Reported reach s') (x : Str) : s.Later x s' := by
  refine ⟨moved.allocated, moved.ids, Nat.le_of_eq moved.life.symm, fun _ registered => ?_, fun _ before => ?_⟩
  · obtain ⟨seen, record, stored⟩ := registered
    obtain ⟨r', now, _⟩ := (moved.records x).stored stored
    exact ⟨by rw [moved.seen]; exact seen, r', now⟩
  · rw [Site.NotAuthorizedBefore, moved.authorizations, moved.life]
    exact before

theorem Site.Reported.once {reach : Str → IntentState → Prop} (moved : s.Reported reach s') (h : s.Once x since) : s'.Once x since := by
  refine ⟨fun id r' now => ?_, fun id time stored => ?_, ?_, ?_, fun r' now delayed => ?_, ?_⟩
  · obtain ⟨r, was, intent, _⟩ := (moved.records id).origin now
    obtain ⟨used, own⟩ := h.refs id r was
    rw [intent]
    exact ⟨Nat.lt_of_lt_of_le used moved.allocated, (moved.ids _ used).trans own⟩
  · rw [moved.seen] at stored
    exact h.seen id time stored
  · rw [moved.authorizations, moved.life]
    exact h.lives
  · rw [moved.authorizations, moved.life, moved.seen]
    intro a member its here
    obtain ⟨seen, r, stored, past⟩ := h.kept a member its here
    obtain ⟨r', now, _, further⟩ := (moved.records x).stored stored
    exact ⟨seen, r', now, Nat.le_trans past further⟩
  · obtain ⟨r, was, _, early⟩ := (moved.records x).origin now
    have same := early (by rw [delayed]; decide)
    have before := h.delayed r was (same.symm.trans delayed)
    rw [Site.NotAuthorizedBefore, moved.authorizations, moved.life]
    exact before
  · rw [Site.authorizationsOf, moved.authorizations]
    exact h.once

/-- A pass of a request that has entered the intent. -/
theorem Site.Once.process (h : s.Once x since) {ref : Ref} (used : ref < s.allocated)
    (entered : (s.runtime.heap ref).id = x → s.Entered x) {ticket : Nat} {reply : Except RuntimeError IntentRecord}
    (processed : s.Processed ticket ref reply s') : s'.Once x since ∧ s.Later x s' := by
  obtain ⟨⟨alone, opened, present, intent, _⟩, _, allocated, life, _, authorizations⟩ := processed
  -- what this process has authorized is closed, so a pass leaves it as it is
  have closed : ∀ a ∈ s.authorizations, a.id = x → a.life = s.life → (s.runtime.heap ref).id = x → s'.runtime = s.runtime := by
    intro a member its here own
    obtain ⟨_, r, stored, past⟩ := h.kept a member its here
    refine opened.resolve_right fun isOpen => ?_
    have validatable := isOpen r (own ▸ stored)
    revert past validatable
    cases r.state <;> decide
  have before : s.NotAuthorizedBefore x → s'.NotAuthorizedBefore x := by
    intro none a member its
    rcases authorizations with ⟨same, _⟩ | ⟨new, appended, _, now, _⟩
    · rw [same] at member
      exact (none a member its).trans life.symm
    · rw [appended] at member
      rcases List.mem_append.mp member with old | last
      · exact (none a old its).trans life.symm
      · rw [List.mem_singleton.mp last]
        exact now.trans life.symm
  refine ⟨⟨fun id r' stored => ?_, ?_, fun a member its => ?_, fun a member its here => ?_, fun r' stored delayed => ?_, ?_⟩,
    Nat.le_of_eq allocated.symm, fun r _ => alone.ids r, Nat.le_of_eq life.symm, fun _ registered => ?_, fun _ => before⟩
  · rw [allocated, alone.ids]
    by_cases own : id = (s.runtime.heap ref).id
    · subst own
      rcases intent r' stored with same | ⟨r, was, same⟩
      · rw [same]
        exact ⟨used, rfl⟩
      · rw [same]
        exact h.refs _ r was
    · exact h.refs id r' ((alone.others id own).symm.trans stored)
  · rw [alone.seen]
    exact h.seen
  · rw [life]
    rcases authorizations with ⟨same, _⟩ | ⟨new, appended, _, now, _⟩
    · rw [same] at member
      exact h.lives a member its
    · rw [appended] at member
      rcases List.mem_append.mp member with old | last
      · exact h.lives a old its
      · rw [List.mem_singleton.mp last]
        exact Nat.le_of_eq now
  · rw [life] at here
    have old : a ∈ s.authorizations → s'.runtime.seen.contains x = true ∧
        ∃ r, s'.runtime.records.get x = some r ∧ 1 ≤ r.state.stage := by
      intro member
      obtain ⟨seen, r, stored, past⟩ := h.kept a member its here
      refine ⟨by rw [alone.seen]; exact seen, ?_⟩
      by_cases own : x = (s.runtime.heap ref).id
      · rw [closed a member its here own.symm]
        exact ⟨r, stored, past⟩
      · exact ⟨r, (alone.others x own).trans stored, past⟩
    rcases authorizations with ⟨same, _⟩ | ⟨new, appended, _, _, newId, _, granted⟩
    · rw [same] at member
      exact old member
    · rw [appended] at member
      rcases List.mem_append.mp member with before | last
      · exact old before
      · rw [List.mem_singleton.mp last] at its
        have own : (s.runtime.heap ref).id = x := newId.symm.trans its
        refine ⟨by rw [alone.seen]; exact (entered own).1.1, ?_⟩
        rw [own] at granted present
        obtain ⟨r, stored⟩ := present
        rw [Site.state, stored] at granted
        exact ⟨r, stored, by rw [Option.some.inj granted]; decide⟩
  · by_cases own : x = (s.runtime.heap ref).id
    · exact before (entered own.symm).2
    · exact before (h.delayed r' ((alone.others x own).symm.trans stored) delayed)
  · rcases authorizations with ⟨same, _⟩ | ⟨new, appended, _, _, newId, was, granted⟩
    · rw [Site.authorizationsOf, same]
      exact h.once
    · rw [Site.authorizationsOf, appended, List.filter_append, List.length_append]
      by_cases own : (s.runtime.heap ref).id = x
      · -- no authorization can have been there
        have none : s.authorizations.filter (fun a => decide (a.id = x)) = [] := by
          refine List.filter_eq_nil_iff.mpr fun a member its => ?_
          rw [decide_eq_true_eq] at its
          have same := closed a member its ((entered own).2 a member its) own
          rw [Site.state, same] at granted
          exact was granted
        rw [none, List.length_nil, Nat.zero_add]
        exact List.length_filter_le _ [new]
      · have foreign : [new].filter (fun a => decide (a.id = x)) = [] := by
          refine List.filter_eq_nil_iff.mpr fun a member its => ?_
          rw [List.mem_singleton.mp member, decide_eq_true_eq] at its
          exact own (newId.symm.trans its)
        rw [foreign]
        exact h.once
  · obtain ⟨seen, r, stored⟩ := registered
    refine ⟨by rw [alone.seen]; exact seen, ?_⟩
    by_cases own : x = (s.runtime.heap ref).id
    · rw [own]
      exact present
    · exact ⟨r, (alone.others x own).trans stored⟩

theorem Site.Once.change (h : s.Once x since) (change : SiteChange) :
    (change.apply s).Once x since ∧ s.Later x (change.apply s) := by
  cases change with
  | tick clock mono =>
    exact ⟨⟨h.refs, h.seen, h.lives, h.kept, h.delayed, h.once⟩, Nat.le_refl _, fun _ _ => rfl, Nat.le_refl _, fun _ known => known,
      fun _ known => known⟩
  | restart context policy =>
    have later : s.life < (SiteChange.apply (.restart context policy) s).life := Nat.lt_succ_self _
    refine ⟨⟨(fun _ _ stored => nomatch stored), (fun _ _ stored => nomatch stored), fun a member its => ?_,
      fun a member its here => ?_, (fun _ stored => nomatch stored), h.once⟩, Nat.le_refl _, fun _ _ => rfl, Nat.le_of_lt later,
      fun same => absurd same (Nat.ne_of_gt later), fun same => absurd same (Nat.ne_of_gt later)⟩
    · exact Nat.le_succ_of_le (h.lives a member its)
    · exact absurd here (Nat.ne_of_lt (Nat.lt_of_le_of_lt (h.lives a member its) later))

theorem once_init (heap : Ref → ActionIntent) (context : Members) (policy : Policy) (cell : Cell) :
    (Site.init heap context policy cell).Once x since :=
  ⟨(fun _ _ stored => nomatch stored), (fun _ _ stored => nomatch stored), (fun _ member => nomatch member),
    (fun _ member => nomatch member), (fun _ stored => nomatch stored), Nat.zero_le 1⟩

/-! ### What a request knows -/

variable {job : HttpJob}

/-- What a job knows while it runs, at the process it was sent to. -/
def HttpJob.Knows (job : HttpJob) (P : Site → Prop) (s : Site) : Prop := job.life ≤ s.life ∧ (s.life = job.life → P s)

theorem HttpJob.Knows.later {P : Site → Prop} (h : job.Knows P s) (moved : s.Later x s')
    (lasts : s'.life = s.life → P s → P s') : job.Knows P s' := by
  refine ⟨Nat.le_trans h.1 moved.life, fun here => ?_⟩
  have same : s.life = job.life := Nat.le_antisymm (here ▸ moved.life) h.1
  exact lasts (here.trans same.symm) (h.2 same)

theorem Site.Names.later {ref : Ref} {id : Str} (h : s.Names ref id) (moved : s.Later x s') : s'.Names ref id :=
  ⟨Nat.lt_of_lt_of_le h.1 moved.allocated, (moved.ids ref h.1).trans h.2⟩

/-- The job may validate the intent at `ref`. -/
def Site.Cleared (x : Str) (job : HttpJob) (ref : Ref) (id : Str) (s : Site) : Prop :=
  s.Names ref id ∧ (id = x → job.Knows (Site.Entered x) s)

theorem Site.Cleared.later {ref : Ref} {id : Str} (h : s.Cleared x job ref id) (moved : s.Later x s') :
    s'.Cleared x job ref id :=
  ⟨h.1.later moved, fun own => (h.2 own).later moved fun same entered =>
    ⟨moved.registered same entered.1, moved.before same entered.2⟩⟩

/-- What an admission tells a job. -/
structure Site.Admits (x : Str) (job : HttpJob) (ref : Ref) (id : Str) (a : IntentRecord × Bool) (s : Site) : Prop where
  names : s.Names ref id
  record : s.Names a.1.intent id
  registered : id = x → job.Knows (Site.Registered x) s
  batch : job.request.Batch → id = x → job.Knows (Site.Entered x) s
  delayed : a.1.state = .delayed → id = x → job.Knows (Site.Entered x) s

theorem Site.Admits.later {ref : Ref} {id : Str} {a : IntentRecord × Bool} (h : s.Admits x job ref id a) (moved : s.Later x s') :
    s'.Admits x job ref id a := by
  have entered : job.Knows (Site.Entered x) s → job.Knows (Site.Entered x) s' := fun known =>
    known.later moved fun same e => ⟨moved.registered same e.1, moved.before same e.2⟩
  exact ⟨h.names.later moved, h.record.later moved, fun same => (h.registered same).later moved moved.registered,
    fun batch same => entered (h.batch batch same), fun delayed same => entered (h.delayed delayed same)⟩

/-- A claim that succeeds is one that was not there. -/
theorem Site.not_claimed {cfg : SiteConfig} {id : Str} (h : (s.claimIntent cfg id).1 = true) : ¬s.Claimed cfg id := by
  intro claimed
  rw [Site.Claimed, Bool.and_eq_true] at claimed
  obtain ⟨required, claimed⟩ := claimed
  rw [Site.claimIntent, if_pos required] at h
  cases found : s.claims.get id with
  | none => rw [found] at claimed; cases claimed
  | some expiry =>
    rw [found, Option.any_some, decide_eq_true_eq] at claimed
    simp only [found, if_pos claimed] at h
    cases h

/-- A sorted item: what the batch takes for a stop is not the intent in question. -/
def Site.SortedAs (x : Str) (s : Site) : Sorted → Prop
  | .refused _ => True
  | .stop item => s.NamesItem item ∧ item.2.id ≠ x
  | .other item => s.NamesItem item

theorem Site.SortedAs.later {sorted : Sorted} (h : s.SortedAs x sorted) (moved : s.Later x s') : s'.SortedAs x sorted := by
  cases sorted with
  | refused result => trivial
  | stop item => exact ⟨h.1.later moved, h.2⟩
  | other item => exact Site.Names.later h moved

theorem Site.NamesItem.later {item : Item} (h : s.NamesItem item) (moved : s.Later x s') : s'.NamesItem item :=
  Site.Names.later h moved

variable [PyText] {cfg : SiteConfig}

variable (cfg) in
/-- An admission within the window. -/
theorem Site.Once.admitIntent (h : s.Once x since) {ref : Ref} (used : ref < s.allocated)
    (recent : since ≤ s.mono ∧ s.mono ≤ since + cfg.config.idempotencyRetentionS) :
    ∃ a s', Site.exec cfg (.admitIntent ref) s = (.ok a, s') ∧ s'.Once x since ∧ s.Later x s' ∧
      s'.runtime.records.get (s.runtime.heap ref).id = some a.1 ∧ a.1.intent < s.allocated ∧
      (s.runtime.heap a.1.intent).id = (s.runtime.heap ref).id ∧ s'.runtime.seen.contains (s.runtime.heap ref).id = true ∧
      s'.life = s.life ∧ s'.authorizations = s.authorizations ∧ s'.runtime.heap = s.runtime.heap := by
  have young : ∀ id time, s.runtime.seen.get id = some time → s.mono - cfg.config.idempotencyRetentionS ≤ time := by
    intro id time stored
    have later := h.seen id time stored
    have bound := recent.2
    grind
  have ends := ends_admitIntent_recent cfg.config ref young
  cases run : Xair.admitIntent cfg.config ref s.mono false s.runtime with
  | error e rt => exact (ends.of_run_error run).elim
  | ok a rt =>
    refine ⟨a, { s with runtime := rt }, by simp only [Site.exec, Site.runs, run]; rfl, ?_⟩
    cases ends.of_run_ok run with
    | known duplicate seen stored same =>
      subst same
      obtain ⟨there, own⟩ := h.refs _ _ stored
      exact ⟨h, .refl x s, stored, there, own, seen, rfl, rfl, rfl⟩
    | new first unknown records seen heap =>
      subst first
      have others : ∀ id, id ≠ (s.runtime.heap ref).id → rt.records.get id = s.runtime.records.get id := fun id ne => by
        rw [records, Dict.get_insert_ne _ _ ne]
      have mine : rt.records.get (s.runtime.heap ref).id = some (.fresh ref) := by rw [records, Dict.get_insert_self]
      have known : ∀ id, s.runtime.seen.contains id = true → rt.seen.contains id = true := fun id before => by
        rw [Dict.contains, seen, Dict.get_insert]
        split
        · rfl
        · exact before
      refine ⟨⟨fun id r stored => ?_, fun id time stored => ?_, h.lives, fun a member its here => ?_,
        fun r stored delayed => ?_, h.once⟩, ⟨Nat.le_refl _, fun r _ => by rw [heap], Nat.le_refl _, fun _ registered => ?_,
        fun _ before => before⟩, mine, used, rfl, ?_, rfl, rfl, heap⟩
      · by_cases own : id = (s.runtime.heap ref).id
        · subst own
          obtain rfl := Option.some.inj (mine.symm.trans stored)
          exact ⟨used, by rw [heap]; rfl⟩
        · rw [heap]
          exact h.refs id r ((others id own).symm.trans stored)
      · change rt.seen.get id = some time at stored
        rw [seen, Dict.get_insert] at stored
        split at stored
        · obtain rfl := Option.some.inj stored
          exact recent.1
        · exact h.seen id time stored
      · obtain ⟨there, r, stored, past⟩ := h.kept a member its here
        refine ⟨known x there, r, ?_, past⟩
        by_cases own : x = (s.runtime.heap ref).id
        · -- an authorized id is known, so it is not admitted anew
          rw [own] at there stored
          rw [unknown there] at stored
          cases stored
        · exact (others x own).trans stored
      · by_cases own : x = (s.runtime.heap ref).id
        · subst own
          obtain rfl := Option.some.inj (mine.symm.trans stored)
          cases delayed
        · exact h.delayed r ((others x own).symm.trans stored) delayed
      · obtain ⟨there, r, stored⟩ := registered
        refine ⟨known x there, ?_⟩
        by_cases own : x = (s.runtime.heap ref).id
        · exact ⟨_, own ▸ mine⟩
        · exact ⟨r, (others x own).trans stored⟩
      · change rt.seen.contains _ = true
        rw [Dict.contains, seen, Dict.get_insert_self]
        rfl

/-! ### Submissions -/

variable {t : Nat}

theorem keeps_admissions (c : SiteCommand) (s : Site) (_ : Fate) (routine : c.Routine) (inv : s.Once x since)
    (_ : MayOnce cfg x since job c s) :
    (Site.exec cfg c s).2.Once x since ∧ s.Later x (Site.exec cfg c s).2 :=
  have moved : s.Reported _ (Site.exec cfg c s).2 := Site.reported_exec routine s
  ⟨moved.once inv, moved.later x⟩

/-- The judgement for a call of a request. -/
abbrev Judged (cfg : SiteConfig) (x : Str) (since : ℚ) (t : Nat) (job : HttpJob) {α : Type} (m : Handler cfg α) (s : Site)
    (ok : α → Site → Prop) : Prop :=
  Method.Runs (admissions cfg x since) t job (fun c s _ => MayOnce cfg x since job c s) m () s (fun a _ => ok a) fun _ _ _ => True

variable {α β : Type}

theorem judged_routine {m : Handler cfg α} (sends : Method.Sends SiteCommand.Routine m) :
    Judged cfg x since t job m s fun _ _ => True :=
  (Method.Runs.of_sends keeps_admissions sends).imp (fun _ _ _ _ h => h) fun _ _ _ _ h => h

theorem judged_plain {m : Handler cfg α} (sends : Method.Sends SiteCommand.Plain m) :
    Judged cfg x since t job m s fun _ _ => True :=
  judged_routine (sends.imp fun _ plain => plain.routine)

theorem judged_bind {m : Handler cfg β} {f : β → Handler cfg α} {ok' : β → Site → Prop} {ok : α → Site → Prop}
    (inv : s.Once x since) (h : Judged cfg x since t job m s ok')
    (later : ∀ b (s' : Site), s'.Once x since → s.Later x s' → ok' b s' → Judged cfg x since t job (f b) s' ok) :
    Judged cfg x since t job (m >>= f) s ok :=
  Method.runs_bind_since (fun _ _ _ first second => first.trans second) (fun _ _ h => h) (fun _ _ h => h) inv h
    fun b _ s' => later b s'

theorem judged_done {m : Handler cfg α} {ok : α → Site → Prop} (h : Judged cfg x since t job m s ok) :
    Judged cfg x since t job m s fun _ _ => True :=
  h.imp (fun _ _ _ _ _ => trivial) fun _ _ _ _ _ => trivial

variable {ref : Ref} {id : Str} {ticket : Nat}

theorem judged_processNow (inv : s.Once x since) (cleared : s.Cleared x job ref id) (call : ProcessCall) :
    Judged cfg x since t job (processNow ticket ref call) s fun record s' => s'.Names record.intent id := by
  refine Method.runs_bind inv (Method.runs_guarded (fun s' fate rely inv' may => ?_) fun s' rely inv' may s'' rely' inv'' _ => ?_)
  · obtain ⟨⟨used, own⟩, entered⟩ := cleared.later rely
    exact inv'.process used (fun same => (entered (own.symm.trans same)).2 may.1.alive)
      (Site.processed_process cfg ticket ref call s')
  · obtain ⟨⟨used, own⟩, entered⟩ := cleared.later rely
    have processed := Site.processed_process cfg ticket ref call s'
    obtain ⟨inv₁, moved⟩ := inv'.process used (fun same => (entered (own.symm.trans same)).2 may.1.alive) processed
    change Judged cfg x since t job (answered (s'.process cfg ticket ref call).1) s'' _
    cases reply : (s'.process cfg ticket ref call).1 with
    | error e => exact Method.runs_throw fun _ _ _ => trivial
    | ok record =>
      refine Method.runs_pure fun s₃ rely₃ _ => ?_
      have stored := processed.answered record reply
      rw [own] at stored
      exact Site.Names.later (inv₁.refs id record stored) (rely'.trans rely₃)

/-- A job's own reading of its record. -/
theorem judged_current (record : IntentRecord) : Judged cfg x since t job (step (.current id record)) s fun now s' =>
    IntentRecord.intent now = record.intent ∧ (now = record ∨ ∃ s₁ : Site, s₁.life = job.life ∧ s₁.Later x s' ∧
      s₁.Once x since ∧ s₁.runtime.records.get id = some now) := by
  refine Method.runs_guarded (fun s' fate rely inv' may => ⟨inv', .refl x _⟩) fun s' rely inv' may s'' rely' inv'' => ?_
  refine ⟨Site.current_intent id record s', (Site.current_cases id record s').imp (fun h => h) fun stored => ?_⟩
  exact ⟨s', may.1.alive, rely', inv', stored⟩

/-- `_validate_now`, for an intent that the job may validate. -/
theorem judged_validateNow (inv : s.Once x since) (cleared : s.Cleared x job ref id)
    (call : (Nat → Bool) → ProcessCall) (timedOut : Nat → Nat → Bool) :
    Judged cfg x since t job (validateNow ticket ref id call timedOut) s fun _ _ => True := by
  refine judged_bind inv (judged_processNow inv cleared _) fun record s₁ inv₁ moved₁ named => ?_
  refine judged_bind inv₁ (judged_current record) fun now s₂ inv₂ moved₂ read => ?_
  refine Method.runs_ite (fun degraded => ?_) fun _ => Method.runs_pure fun _ _ _ => trivial
  have cleared₂ : s₂.Cleared x job now.intent id :=
    ⟨read.1 ▸ named.later moved₂, ((cleared.later moved₁).later moved₂).2⟩
  exact judged_done (judged_processNow inv₂ cleared₂ _)

/-- A new intent gets a reference of its own. -/
theorem judged_create (i : ActionIntent) :
    Judged cfg x since t job (step (.create i)) s fun ref s' => s'.Names ref i.id := by
  refine Method.runs_guarded (fun s' fate rely inv' may => keeps_admissions (.create i) s' fate trivial inv' may)
    fun s' rely inv' may s'' rely' inv'' => ?_
  have named : (Site.exec cfg (.create i) s').2.Names s'.allocated i.id :=
    ⟨Nat.lt_succ_self _, congrArg ActionIntent.id ((Runtime.heap_putIntent _ _ _ _).trans (if_pos rfl))⟩
  exact named.later rely'

theorem judged_admitIntent (inv : s.Once x since) (names : s.Names ref id) :
    Judged cfg x since t job (step (.admitIntent ref)) s fun reply s' => ∃ a, reply = .ok a ∧ s'.Admits x job ref id a := by
  refine Method.runs_guarded (fun s' fate rely inv' may => ?_) fun s' rely inv' may s'' rely' inv'' => ?_
  · obtain ⟨used, own⟩ := names.later rely
    obtain ⟨a, s₁, run, inv₁, moved, _⟩ := inv'.admitIntent cfg used may.1.recent
    change ((Site.exec cfg (.admitIntent ref) s').2).Once x since ∧ s'.Later x (Site.exec cfg (.admitIntent ref) s').2
    rw [run]
    exact ⟨inv₁, moved⟩
  · obtain ⟨used, own⟩ := names.later rely
    obtain ⟨a, s₁, run, inv₁, moved, stored, there, its, seen, life, authorizations, heap⟩ :=
      inv'.admitIntent cfg used may.1.recent
    have later : s₁.Later x s'' := by
      have moved₁ : (Site.exec cfg (.admitIntent ref) s').2.Later x s'' := rely'
      rwa [run] at moved₁
    rw [own] at stored its seen
    have here : job.life ≤ s₁.life := Nat.le_of_eq (may.1.alive.symm.trans life.symm)
    have registered : id = x → job.Knows (Site.Registered x) s'' := by
      rintro rfl
      exact HttpJob.Knows.later ⟨here, fun _ => ⟨seen, _, stored⟩⟩ later later.registered
    have entered : id = x → s₁.NotAuthorizedBefore x → job.Knows (Site.Entered x) s'' := by
      rintro rfl before
      exact HttpJob.Knows.later ⟨here, fun _ => ⟨⟨seen, _, stored⟩, before⟩⟩ later fun same known =>
        ⟨later.registered same known.1, later.before same known.2⟩
    refine ⟨a, congrArg Prod.fst run, (names.later rely).later (moved.trans later), ?_, registered, fun batch same => ?_,
      fun delayed same => ?_⟩
    · exact Site.Names.later ⟨there, its⟩ (moved.trans later)
    · refine entered same ?_
      rw [Site.NotAuthorizedBefore, authorizations, life]
      exact may.2 batch (own.trans same)
    · exact entered same (inv₁.delayed a.1 (same ▸ stored) delayed)

/-- A request that has registered an intent and now claims it may validate it. -/
theorem judged_claimIntent (inv : s.Once x since) (names : s.Names ref id) (registered : id = x → job.Knows (Site.Registered x) s) :
    Judged cfg x since t job (attempted (.claimIntent id)) s fun reply s' =>
      reply = some true → s'.Cleared x job ref id := by
  refine runs_attempted inv (Method.runs_guarded (fun s' fate rely inv' may => ?_) fun s' rely inv' may s'' rely' inv'' same => ?_)
    fun _ other => by cases other
  · exact keeps_admissions (.claimIntent id) s' fate trivial inv' may
  · have moved : s'.Later x s'' :=
      ((show s'.Reported _ (Site.exec cfg (.claimIntent id) s').2 from Site.reported_exec (c := .claimIntent id) trivial s').later x).trans rely'
    refine ⟨(names.later rely).later moved, fun own => ?_⟩
    have known := (registered own).later rely fun alive => Site.Later.registered rely alive
    have before : s'.NotAuthorizedBefore x := may.2 own (own ▸ Site.not_claimed (Option.some.inj same))
    exact HttpJob.Knows.later ⟨known.1, fun here => ⟨known.2 here, before⟩⟩ moved fun alive entered =>
      ⟨moved.registered alive entered.1, moved.before alive entered.2⟩

/-- The class of an intent that never is a stop. -/
theorem judged_actionClass (names : s.Names ref id) : Judged cfg x since t job (step (.actionClass ref)) s fun cls _ =>
    ActionClass.riskReducing cls = true → id ≠ x := by
  refine Method.runs_guarded (fun s' fate rely inv' may => ⟨inv', .refl x _⟩) fun s' rely inv' may s'' rely' inv'' stop same => ?_
  obtain ⟨used, own⟩ := names.later rely
  exact may.1.neverStop ref used (own.trans same) (of_decide_eq_true stop)

/-! ### `POST /v1/intents` -/

theorem judged_validateFresh (inv : s.Once x since) (cleared : s.Cleared x job ref id) (timedOut : Nat → Nat → Bool) :
    Judged cfg x since t job (validateFresh ticket ref id timedOut) s fun _ _ => True := by
  refine judged_bind inv (judged_plain (sends_fenceIntent ticket ref)) fun _ s₁ inv₁ moved₁ _ => ?_
  refine judged_bind inv₁ (judged_routine (sends_step (c := .prepare ref) trivial)) fun exprs s₂ inv₂ moved₂ _ => ?_
  refine judged_bind inv₂ (judged_plain (sends_registeredSnapshot exprs)) fun doc s₃ inv₃ moved₃ _ => ?_
  have cleared₃ := ((cleared.later moved₁).later moved₂).later moved₃
  refine Method.runs_ite (fun _ => ?_) fun _ => ?_
  · have validated : ∀ s : Site, s.Once x since → s.Cleared x job ref id →
        Judged cfg x since t job (do
          let record ← validateNow ticket ref id (snapshotCall doc) timedOut
          answer id record false (some doc.snapshot.context)) s fun _ _ => True := fun s inv cleared =>
      judged_bind inv (judged_validateNow inv cleared _ _) fun record _ _ _ _ => judged_plain (sends_answer _ _ _ _)
    refine Method.runs_ite (fun _ => ?_) fun _ => validated s₃ inv₃ cleared₃
    exact judged_bind inv₃ (judged_routine (sends_step (c := .install doc.snapshot) trivial)) fun _ s₄ inv₄ moved₄ _ =>
      validated s₄ inv₄ (cleared₃.later moved₄)
  · exact judged_routine (Method.sends_bind (sends_withdraw id _) fun _ => Method.sends_pure _)

theorem judged_submitAdmitted (inv : s.Once x since) (names : s.Names ref id)
    (registered : id = x → job.Knows (Site.Registered x) s) (firstAdmission : Bool)
    (entered : firstAdmission = false → id = x → job.Knows (Site.Entered x) s) (timedOut : Nat → Nat → Bool) :
    Judged cfg x since t job (submitAdmitted ticket ref id firstAdmission timedOut) s fun _ _ => True := by
  refine judged_bind inv (judged_actionClass names) fun cls s₁ inv₁ moved₁ class_ => ?_
  refine Method.runs_ite (fun stop => ?_) fun _ => Method.runs_ite (fun first => ?_) fun again => ?_
  · have cleared : s₁.Cleared x job ref id := ⟨names.later moved₁, fun own => absurd own (class_ stop)⟩
    refine judged_bind inv₁ (judged_validateNow inv₁ cleared _ _) fun record _ _ _ _ => ?_
    exact judged_plain (Method.sends_bind (sends_recordStop _ _ _ _) fun _ => sends_answer _ _ _ _)
  · have registered₁ : id = x → job.Knows (Site.Registered x) s₁ := fun own =>
      (registered own).later moved₁ moved₁.registered
    refine judged_bind inv₁ (judged_claimIntent inv₁ (names.later moved₁) registered₁) fun claimed s₂ inv₂ moved₂ cleared => ?_
    refine Method.runs_ite (fun won => judged_validateFresh inv₂ (cleared won) timedOut) fun _ => ?_
    exact judged_routine (Method.sends_bind (sends_withdraw id _) fun _ => Method.sends_pure _)
  · refine judged_validateFresh inv₁ ⟨names.later moved₁, fun own => ?_⟩ timedOut
    exact (entered (Bool.eq_false_iff.mpr again) own).later moved₁ fun alive known =>
      ⟨moved₁.registered alive known.1, moved₁.before alive known.2⟩

theorem judged_submitIntent (inv : s.Once x since) (body : Option ActionIntent) (timedOut : Nat → Nat → Bool) :
    Judged cfg x since t job (submitIntent ticket body timedOut) s fun _ _ => True := by
  cases body with
  | none => exact judged_plain (Method.sends_bind sends_readSnapshot fun _ => Method.sends_pure _)
  | some i =>
    refine judged_bind inv (judged_create _) fun ref s₁ inv₁ _ names => ?_
    refine judged_bind inv₁ (judged_admitIntent inv₁ names) fun reply s₂ inv₂ moved₂ admitted => ?_
    obtain ⟨⟨record, duplicate⟩, rfl, admits⟩ := admitted
    change Judged cfg x since t job (if duplicate then _ else _) s₂ _
    refine Method.runs_ite (fun _ => ?_) fun _ => ?_
    · refine judged_bind inv₂ (judged_current record) fun now s₃ inv₃ moved₃ read => ?_
      refine Method.runs_ite (fun delayed => ?_) fun _ => judged_plain (sends_answer _ _ _ _)
      have registered : i.id = x → job.Knows (Site.Registered x) s₃ := fun own =>
        (admits.registered own).later moved₃ moved₃.registered
      refine judged_submitAdmitted inv₃ (read.1 ▸ admits.record.later moved₃) registered false (fun _ own => ?_) timedOut
      rcases read.2 with same | ⟨s₄, alive, moved, inv₄, stored⟩
      · exact (admits.delayed (same ▸ delayed) own).later moved₃ fun here known =>
          ⟨moved₃.registered here known.1, moved₃.before here known.2⟩
      · have before := inv₄.delayed now (own ▸ stored) delayed
        exact ⟨(registered own).1, fun here => ⟨(registered own).2 here, moved.before (here.trans alive.symm) before⟩⟩
    · exact judged_submitAdmitted inv₂ admits.names admits.registered true (fun first => by cases first) timedOut

/-! ### `POST /v1/intents/batch` -/

theorem judged_each {γ δ : Type} {f : γ → Handler cfg δ} {K : Site → γ → Prop} {Q : Site → δ → Prop}
    (kept : ∀ (s s' : Site) a, s.Later x s' → K s a → K s' a) (lasts : ∀ (s s' : Site) b, s.Later x s' → Q s b → Q s' b)
    (item : ∀ (s : Site) a, s.Once x since → K s a → Judged cfg x since t job (f a) s fun b s' => Q s' b) (xs : List γ)
    {s : Site} (inv : s.Once x since) (all : ∀ a ∈ xs, K s a) :
    Judged cfg x since t job (each f xs) s fun bs s' => ∀ b ∈ bs, Q s' b :=
  runs_each (fun _ _ _ first second => first.trans second) (fun _ _ h => h) (fun _ _ h => h) kept lasts item xs inv all

theorem judged_sortItem (inv : s.Once x since) (trusted : Bool) (body : Except BatchResult ActionIntent) :
    Judged cfg x since t job (sortItem trusted body) s fun sorted s' => s'.SortedAs x sorted := by
  cases body with
  | error result => exact Method.runs_pure fun _ _ _ => trivial
  | ok i =>
    refine judged_bind inv (judged_create _) fun ref s₁ inv₁ _ names => ?_
    refine judged_bind inv₁ (judged_actionClass names) fun cls s₂ inv₂ moved₂ class_ => ?_
    refine Method.runs_ite (fun stop => ?_) fun _ => Method.runs_ite (fun _ => ?_) fun _ => ?_
    · exact Method.runs_pure fun s₃ rely _ => ⟨(names.later moved₂).later rely, class_ stop⟩
    · exact Method.runs_pure fun s₃ rely _ => (names.later moved₂).later rely
    · exact Method.runs_pure fun _ _ _ => trivial

theorem judged_admitItem {item : Item} (inv : s.Once x since) (names : s.NamesItem item) :
    Judged cfg x since t job (admitItem item) s fun a s' => s'.Admits x job item.1 item.2.id a := by
  refine judged_bind inv (judged_admitIntent inv names) fun reply s₁ inv₁ moved₁ admitted => ?_
  obtain ⟨a, rfl, admits⟩ := admitted
  exact Method.runs_pure fun s₂ rely _ => admits.later rely

theorem judged_batchStop {item : Item} (inv : s.Once x since) (names : s.NamesItem item) (other : item.2.id ≠ x)
    (timedOut : Ref → Nat → Nat → Bool) :
    Judged cfg x since t job (batchStop ticket timedOut item) s fun _ _ => True := by
  refine judged_bind inv (judged_admitItem inv names) fun a s₁ inv₁ moved₁ admits => ?_
  obtain ⟨record, duplicate⟩ := a
  refine judged_bind inv₁ (judged_current record) fun now s₂ inv₂ moved₂ _ => ?_
  refine Method.runs_ite (fun _ => ?_) fun _ => judged_plain (sends_itemResult item now)
  have cleared : s₂.Cleared x job item.1 item.2.id := ⟨admits.names.later moved₂, fun own => absurd own other⟩
  refine judged_bind inv₂ (judged_validateNow inv₂ cleared _ _) fun record s₃ inv₃ _ _ => ?_
  exact judged_plain (Method.sends_bind (sends_recordStop _ _ _ _) fun _ => sends_itemResult _ _)

theorem judged_batchLoser (reason : String) {item : Item} (inv : s.Once x since) (names : s.NamesItem item) :
    Judged cfg x since t job (batchLoser reason item) s fun _ _ => True := by
  refine judged_bind inv (judged_admitItem inv names) fun a s₁ inv₁ moved₁ _ => ?_
  obtain ⟨record, duplicate⟩ := a
  refine Method.runs_ite (fun _ => judged_plain (sends_itemResult item record)) fun _ => ?_
  exact judged_routine (Method.sends_bind (sends_withdraw _ _) fun _ =>
    (sends_itemResult _ _).imp fun _ plain => plain.routine)

theorem judged_batchWinner (batch : job.request.Batch) {item : Item} (inv : s.Once x since) (names : s.NamesItem item)
    (timedOut : Ref → Nat → Nat → Bool) :
    Judged cfg x since t job (batchWinner ticket timedOut item) s fun _ _ => True := by
  refine judged_bind inv (judged_admitItem inv names) fun a s₁ inv₁ moved₁ admits => ?_
  obtain ⟨record, duplicate⟩ := a
  refine Method.runs_ite (fun _ => judged_plain (sends_itemResult item record)) fun _ => ?_
  have cleared : s₁.Cleared x job item.1 item.2.id := ⟨admits.names, admits.batch batch⟩
  refine judged_bind inv₁ (judged_plain (sends_fenceIntent ticket item.1)) fun _ s₂ inv₂ moved₂ _ => ?_
  refine judged_bind inv₂ (judged_plain sends_readSnapshot) fun read s₃ inv₃ moved₃ _ => ?_
  refine judged_bind inv₃ (judged_validateNow inv₃ ((cleared.later moved₂).later moved₃) _ _) fun record s₄ inv₄ _ _ => ?_
  refine judged_plain (Method.sends_bind (sends_step (c := .current item.2.id record) trivial) fun now => ?_)
  exact Method.sends_ite (Method.sends_bind (sends_step (c := .releaseTarget now) trivial) fun _ => sends_itemResult _ _)
    (sends_itemResult _ _)

theorem judged_submitIntentBatch (batch : job.request.Batch) (inv : s.Once x since)
    (bodies : List (Except BatchResult ActionIntent)) (timedOut : Ref → Nat → Nat → Bool) :
    Judged cfg x since t job (submitIntentBatch ticket bodies timedOut) s fun _ _ => True := by
  refine judged_bind inv (judged_plain sends_readSnapshot) fun read s₁ inv₁ _ _ => ?_
  obtain ⟨_, trusted⟩ := read
  refine judged_bind inv₁ (judged_each (K := fun _ _ => True) (Q := fun s sorted => s.SortedAs x sorted)
    (fun _ _ _ _ h => h) (fun _ _ _ moved h => h.later moved) (fun s body inv _ => judged_sortItem inv trusted body) bodies
    inv₁ fun _ _ => trivial) fun sorted s₂ inv₂ _ sorts => ?_
  have stops : ∀ item ∈ sorted.filterMap Sorted.stopItem, s₂.NamesItem item ∧ item.2.id ≠ x := by
    intro item member
    obtain ⟨place, there, its⟩ := List.mem_filterMap.mp member
    cases place with
    | stop other => exact Option.some.inj its ▸ sorts _ there
    | refused result => cases its
    | other other => cases its
  have others : ∀ item ∈ sorted.filterMap Sorted.otherItem, s₂.NamesItem item := by
    intro item member
    obtain ⟨place, there, its⟩ := List.mem_filterMap.mp member
    cases place with
    | other other => exact Option.some.inj its ▸ sorts _ there
    | refused result => cases its
    | stop other => cases its
  have named : ∀ (s s' : Site) (item : Item), s.Later x s' → s.NamesItem item → s'.NamesItem item :=
    fun _ _ _ moved h => h.later moved
  generalize sorted.filterMap Sorted.stopItem = stops_ at stops
  generalize sorted.filterMap Sorted.otherItem = intents at others
  refine judged_bind inv₂ (judged_each (K := fun s item => s.NamesItem item ∧ item.2.id ≠ x) (Q := fun _ _ => True)
    (fun s s' item moved h => ⟨named s s' item moved h.1, h.2⟩) (fun _ _ _ _ h => h)
    (fun s item inv h => judged_batchStop inv h.1 h.2 timedOut) _ inv₂ stops) fun stopResults s₃ inv₃ moved₃ _ => ?_
  -- the losers that a stop sets aside, those of a conflict, and the winners, each a part of the intents
  refine judged_bind inv₃ (judged_each (Q := fun _ _ => True) named (fun _ _ _ _ h => h)
    (fun s item inv h => judged_batchLoser "preempted_by_stop" inv h) _ inv₃ fun item member =>
      (others item (List.mem_of_mem_filter member)).later moved₃) fun preempted s₄ inv₄ moved₄ _ => ?_
  have ranked : ∀ item, (∃ target, item ∈ (resolveItems ((intents.filter fun item => decide (item.2.target ∉ stops_.map
      fun item => item.2.target)).filter fun item => decide (item.2.target = target))).2 ∨ (resolveItems ((intents.filter
      fun item => decide (item.2.target ∉ stops_.map fun item => item.2.target)).filter
      fun item => decide (item.2.target = target))).1 = some item) → s₄.NamesItem item := by
    rintro item ⟨target, member⟩
    have inside := List.mem_of_mem_filter (List.mem_of_mem_filter (mem_resolveItems member))
    exact ((others item inside).later moved₃).later moved₄
  refine judged_bind inv₄ (judged_each (Q := fun _ _ => True) named (fun _ _ _ _ h => h)
    (fun s item inv h => judged_batchLoser "conflict_loser" inv h) _ inv₄ fun item member => ?_)
    fun losers s₅ inv₅ moved₅ _ => ?_
  · obtain ⟨group, there, its⟩ := List.mem_flatMap.mp member
    obtain ⟨target, _, rfl⟩ := List.mem_map.mp there
    exact ranked item ⟨target, Or.inl its⟩
  · refine judged_bind inv₅ (judged_each (Q := fun _ _ => True) named (fun _ _ _ _ h => h)
      (fun s item inv h => judged_batchWinner batch inv h timedOut) _ inv₅ fun item member => ?_)
      fun winners s₆ _ _ _ => Method.runs_pure fun _ _ _ => trivial
    obtain ⟨group, there, its⟩ := List.mem_filterMap.mp member
    obtain ⟨target, _, rfl⟩ := List.mem_map.mp there
    exact (ranked item ⟨target, Or.inr its⟩).later moved₅

/-- Every request. -/
theorem judged_handle (inv : s.Once x since) : Judged cfg x since t job (job.request.handle cfg t) s fun _ _ => True := by
  obtain ⟨life, request⟩ := job
  by_cases submits : request.Submits
  · cases request with
    | submit body timedOut =>
      exact judged_bind inv (judged_submitIntent inv body timedOut) fun _ _ _ _ _ => Method.runs_pure fun _ _ _ => trivial
    | batch bodies timedOut =>
      exact judged_bind inv (judged_submitIntentBatch (by exact trivial) inv bodies timedOut) fun _ _ _ _ _ =>
        Method.runs_pure fun _ _ _ => trivial
    | _ => exact submits.elim
  · exact judged_routine (Request.sends_handle t submits)

/-! ### Runs -/

def onceContract (cfg : SiteConfig) (x : Str) (since : ℚ) : Contract (site cfg) (endpoints cfg) (admissions cfg x since) where
  Starts _ := True
  May _ job c s _ := MayOnce cfg x since job c s
  LocalOk _ _ := True
  Fresh _ _ := True
  Since _ _ _ := True
  Post _ _ _ _ := True
  local_rely _ _ _ _ _ _ _ _ := trivial
  fresh_rely _ _ _ _ _ := trivial
  since_fresh _ _ _ _ := trivial
  since_step _ _ _ _ _ _ := trivial
  since_rely _ _ _ _ _ _ := trivial
  env_inv change _ inv := (Site.Once.change inv change).1
  env_rely change _ _ inv := (Site.Once.change inv change).2

/-- The history has every authorization: a step that makes the record of an id `AUTHORIZED` is a pass, and is recorded. -/
theorem authorizationsOf_exec {c : SiteCommand}
    (sent : c.Routine ∨ (∃ ref, c = .admitIntent ref) ∨ ∃ ticket ref call, c = .process ticket ref call) {s : Site}
    (before : s.state x ≠ some .authorized) (now : (Site.exec cfg c s).2.state x = some .authorized) :
    ((Site.exec cfg c s).2.authorizationsOf x).length = (s.authorizationsOf x).length + 1 := by
  obtain ⟨r', stored, state⟩ := Option.map_eq_some_iff.mp now
  rcases sent with routine | ⟨ref, rfl⟩ | ⟨ticket, ref, call, rfl⟩
  · obtain ⟨r, was, _, early⟩ := ((show s.Reported _ (Site.exec cfg c s).2 from Site.reported_exec routine s).records x).origin stored
    rw [Site.state, was, Option.map_some, ← early (by rw [state]; decide), state] at before
    exact absurd rfl before
  · have ends := ends_admitIntent cfg.config ref s.mono false s.runtime
    simp only [Site.exec, Site.runs] at stored
    cases run : Xair.admitIntent cfg.config ref s.mono false s.runtime with
    | error e rt => exact (ends.of_run_error run).elim
    | ok a rt =>
      rw [run] at stored
      rcases (ends.of_run_ok run).1.records x r' stored with old | ⟨_, rfl⟩
      · rw [Site.state, old, Option.map_some, state] at before
        exact absurd rfl before
      · cases state
  · have processed := Site.processed_process cfg ticket ref call s
    change (s.process cfg ticket ref call).2.state x = _ at now
    change ((s.process cfg ticket ref call).2.authorizationsOf x).length = _
    by_cases own : x = (s.runtime.heap ref).id
    · subst own
      rcases processed.authorizations with ⟨_, kept⟩ | ⟨a, appended, _, _, its, _, _⟩
      · exact absurd (kept now) before
      · rw [Site.authorizationsOf, appended, List.filter_append, List.length_append, ← its]
        simp [Site.authorizationsOf]
    · refine absurd ?_ before
      rw [Site.state, ← processed.attempt.alone.others x own]
      exact now

end

/-! ### A restart between two requests -/

def onceConfig : SiteConfig := ⟨plainConfig, .document, 3600, false, 1, fun _ => 0, true⟩

abbrev OnceEvent := PoolEvent (@site PyText.ascii onceConfig) (@endpoints PyText.ascii onceConfig)

def onceStart : @Pool (@site PyText.ascii onceConfig) (@endpoints PyText.ascii onceConfig) :=
  Pool.init (Site.init (fun _ => plainIntent "" "") .nil .empty (.boot none 0)) fun _ => ()

def submission : Request := .submit (some (plainIntent "a" "cell")) fun _ _ => false

def batchOfOne : Request := .batch [.ok (plainIntent "a" "cell")] fun _ _ _ => false

/-- A first request to the end, a restart, and a second one. -/
def twoLives (first second : Request) : List OnceEvent :=
  .start 0 ⟨0, first⟩ :: List.replicate 14 (.step 0 .done) ++
    [.env (.restart .nil .empty), .start 1 ⟨1, second⟩] ++ List.replicate 14 (.step 1 .done)

end Xair
