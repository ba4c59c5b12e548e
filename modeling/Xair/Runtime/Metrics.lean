import Xair.Library.Journal
import Xair.Library.Moves
import Xair.Runtime.Runs

/-!
# The counters and the audit log

Operations count by separate statements what the tracker has already logged. An entry of
the log is an arrival if the last entry of its intent has another state; a refused report
is noted with the state it finds.
-/

namespace Xair

open Library

/-- The audit log as a journal. -/
def Runtime.journal (rt : Runtime) : List (Str × IntentState) :=
  (rt.audit.map fun e => (e.intentId, e.state)).reverse

def IntentState.single (t s : IntentState) : Nat := if s = t then 1 else 0

/-- How often an intent has come into this state. -/
def Runtime.entered (rt : Runtime) (state : IntentState) : Nat := Journal.arrivals state.single rt.journal

/-- How many records have been registered. -/
def Runtime.registrations (rt : Runtime) : Nat := rt.audit.countP fun e => decide (e = .registration e.intentId)

/-- The states that a counter of their own counts. -/
def IntentState.counter : IntentState → Option (Metrics → Nat)
  | .authorized => some Metrics.authorized
  | .committed => some Metrics.committed
  | .released => some Metrics.released
  | .withheld => some Metrics.withheld
  | .effectConfirmed => some Metrics.effectConfirmed
  | .failed => some Metrics.effectFailed
  | .unknownEffect => some Metrics.effectUnknown
  | .delayed => some Metrics.delayed
  | .degraded => some Metrics.degraded
  | .created | .pending | .validating | .revoked | .expired => none

/-- The books are closed but for the arrivals that are owed. -/
structure Owing (owed : IntentState → Nat) (rt : Runtime) : Prop where
  lawful : Journal.Lawful (fun s => s = .created) (fun s t => t ∈ s.allowed) rt.journal
  tracked : ∀ id record, rt.records.get id = some record → Journal.last rt.journal id = some record.state
  counted : ∀ s f, s.counter = some f → f rt.metrics + owed s = rt.entered s
  /-- Expiries are counted as revocations; a revocation without a pass is not counted. -/
  expired : rt.entered .expired ≤ rt.metrics.revoked + owed .expired
  revoked : rt.metrics.revoked + owed .revoked + owed .expired ≤ rt.entered .revoked + rt.entered .expired
  created : rt.entered .created ≤ rt.registrations
  received : rt.metrics.intentsReceived ≤ rt.registrations

abbrev Closed (rt : Runtime) : Prop := Owing (fun _ => 0) rt

/-- What keeps the books closed. -/
def KeepsClosed (rt rt' : Runtime) : Prop := Closed rt → Closed rt'

instance : IsPreorder Runtime KeepsClosed where
  refl _ := id
  trans _ _ _ first second := second ∘ first

/-! ### Writes -/

section

variable {rt rt' : Runtime} {owed : IntentState → Nat}

theorem journal_log (rt : Runtime) (entry : AuditEntry) : (rt.log entry).journal = (entry.intentId, entry.state) :: rt.journal := by
  simp [Runtime.journal, Runtime.log]

theorem registrations_log (rt : Runtime) (entry : AuditEntry) :
    (rt.log entry).registrations = rt.registrations + if entry = .registration entry.intentId then 1 else 0 := by
  simp [Runtime.registrations, Runtime.log, List.countP_append, List.countP_cons]

theorem registrations_register (rt : Runtime) (ref : Ref) : (rt.register ref).registrations = rt.registrations + 1 := by
  unfold Runtime.register
  rw [registrations_log, if_pos (by rfl)]
  rfl

theorem entered_log (rt : Runtime) (entry : AuditEntry) (s : IntentState) :
    (rt.log entry).entered s = rt.entered s +
      if Journal.last rt.journal entry.intentId = some entry.state then 0 else s.single entry.state := by
  simp only [Runtime.entered, journal_log, Journal.arrivals]

/-- A write that leaves audit log and counters alone and no record in another state. -/
theorem Owing.aside (h : Owing owed rt) (audit : rt'.audit = rt.audit) (metrics : rt'.metrics = rt.metrics)
    (records : ∀ id record, rt'.records.get id = some record →
      ∃ before, rt.records.get id = some before ∧ before.state = record.state) :
    Owing owed rt' := by
  obtain ⟨lawful, tracked, counted, expired, revoked, created, received⟩ := h
  have journal : rt'.journal = rt.journal := by simp only [Runtime.journal, audit]
  have entered : rt'.entered = rt.entered := by
    funext s
    simp only [Runtime.entered, journal]
  have registrations : rt'.registrations = rt.registrations := by simp only [Runtime.registrations, audit]
  refine ⟨by rwa [journal], fun id record stored => ?_, ?_, ?_, ?_, ?_, ?_⟩
  · obtain ⟨before, found, same⟩ := records id record stored
    rw [journal, tracked _ before found, same]
  · rwa [metrics, entered]
  · rwa [metrics, entered]
  · rwa [metrics, entered]
  · rwa [entered, registrations]
  · rwa [metrics, registrations]

theorem Owing.same (h : Owing owed rt) (audit : rt'.audit = rt.audit) (metrics : rt'.metrics = rt.metrics)
    (records : rt'.records = rt.records) : Owing owed rt' :=
  h.aside audit metrics fun _ record stored => ⟨record, records ▸ stored, rfl⟩

theorem Owing.putRecord (h : Owing owed rt) {id : Str} {record : IntentRecord} (f : IntentRecord → IntentRecord)
    (found : rt.records.get id = some record) (same : (f record).state = record.state) : Owing owed (rt.putRecord id (f record)) := by
  refine h.aside rfl rfl fun _ r stored => ?_
  rw [Runtime.putRecord, Dict.get_insert] at stored
  split at stored
  · rename_i own
    obtain rfl := Option.some.inj stored
    exact ⟨record, own ▸ found, same.symm⟩
  · exact ⟨r, stored, rfl⟩

theorem Owing.noted (h : Owing owed rt) {id : Str} {record : IntentRecord} (reason : Str) (found : rt.records.get id = some record) :
    Owing owed (rt.log ⟨id, record.state, none, reason⟩) := by
  obtain ⟨lawful, tracked, counted, expired, revoked, created, received⟩ := h
  have again := tracked id record found
  have entered : (rt.log ⟨id, record.state, none, reason⟩).entered = rt.entered := by
    funext s
    rw [entered_log, if_pos again, Nat.add_zero]
  have registrations : rt.registrations ≤ (rt.log ⟨id, record.state, none, reason⟩).registrations := by
    rw [registrations_log]
    omega
  refine ⟨?_, fun other r stored => ?_, ?_, ?_, ?_, ?_, Nat.le_trans received registrations⟩
  · rw [journal_log]
    exact ⟨lawful, Or.inl again⟩
  · rw [journal_log, Journal.last]
    split
    · rename_i own
      obtain rfl : id = other := own
      rw [show rt.records.get id = some r from stored] at found
      rw [Option.some.inj found]
    · exact tracked other r stored
  · rwa [entered]
  · rwa [entered]
  · rwa [entered]
  · rw [entered]
    omega

/-- A transition owes the count of its arrival. -/
theorem Closed.move (h : Closed rt) {id : Str} {record : IntentRecord} {state : IntentState} (found : rt.records.get id = some record)
    (allowed : state ∈ record.state.allowed) (outcome : Option DecisionOutcome) (reason : Str) :
    Owing state.single (rt.move id record state outcome reason) := by
  obtain ⟨lawful, tracked, counted, expired, revoked, created, received⟩ := h
  have before := tracked id record found
  obtain ⟨moved, onward⟩ := IntentState.ne_self_of_allowed allowed
  have journal : (rt.move id record state outcome reason).journal = (id, state) :: rt.journal := journal_log _ _
  have entered : ∀ s, (rt.move id record state outcome reason).entered s = rt.entered s + state.single s := by
    intro s
    have arrives : Journal.last rt.journal id ≠ some state := by
      rw [before]
      intro same
      exact moved (Option.some.inj same).symm
    rw [Runtime.entered, journal, Journal.arrivals, if_neg arrives]
    simp only [Runtime.entered, IntentState.single, eq_comm]
  have registrations : rt.registrations ≤ (rt.move id record state outcome reason).registrations := by
    unfold Runtime.move
    rw [registrations_log]
    exact Nat.le_add_right _ _
  refine ⟨?_, fun other r stored => ?_, fun s f counter => ?_, ?_, ?_, ?_, Nat.le_trans received registrations⟩
  · rw [journal]
    exact ⟨lawful, Or.inr (Or.inr ⟨record.state, before, allowed⟩)⟩
  · rw [journal, Journal.last]
    change (rt.records.insert id _).get other = some r at stored
    rw [Dict.get_insert] at stored
    split
    · rename_i own
      obtain rfl : id = other := own
      rw [if_pos rfl] at stored
      rw [← Option.some.inj stored]
      rfl
    · rename_i ne
      rw [if_neg (Ne.symm ne)] at stored
      exact tracked other r stored
  · have balance := counted s f counter
    rw [entered]
    change f rt.metrics + state.single s = _
    omega
  · rw [entered]
    change _ ≤ rt.metrics.revoked + _
    omega
  · rw [entered, entered]
    change rt.metrics.revoked + _ + _ ≤ _
    omega
  · rw [entered, IntentState.single, if_neg (Ne.symm onward)]
    omega

/-- A new record is in the state in which its id starts again. -/
theorem Closed.register (h : Closed rt) (ref : Ref) : Closed (rt.register ref) := by
  obtain ⟨lawful, tracked, counted, expired, revoked, created, received⟩ := h
  have journal : (rt.register ref).journal = ((rt.heap ref).id, .created) :: rt.journal := journal_log _ _
  have entered : ∀ s, s ≠ .created → (rt.register ref).entered s = rt.entered s := by
    intro s other
    rw [Runtime.entered, journal, Journal.arrivals, IntentState.single, if_neg (Ne.symm other), ite_self, Nat.add_zero, Runtime.entered]
  have registrations := registrations_register rt ref
  refine ⟨?_, fun id r stored => ?_, fun s f counter => ?_, ?_, ?_, ?_, ?_⟩
  · rw [journal]
    exact ⟨lawful, Or.inr (Or.inl rfl)⟩
  · rw [journal, Journal.last]
    change (rt.records.insert _ _).get id = some r at stored
    rw [Dict.get_insert] at stored
    split
    · rename_i own
      rw [if_pos own.symm] at stored
      rw [← Option.some.inj stored]
      rfl
    · rename_i ne
      rw [if_neg (Ne.symm ne)] at stored
      exact tracked id r stored
  · rw [entered s (by rintro rfl; cases counter)]
    exact counted s f counter
  · rw [entered _ (by decide)]
    exact expired
  · rw [entered _ (by decide), entered _ (by decide)]
    exact revoked
  · rw [registrations, Runtime.entered, journal, Journal.arrivals]
    change rt.entered .created + _ ≤ _
    split
    · omega
    · exact Nat.add_le_add created (Nat.le_refl 1)
  · rw [registrations]
    exact Nat.le_succ_of_le received

/-- An admission is counted with its registration. -/
theorem Closed.admit (h : Closed rt) (ref : Ref) :
    Closed ((rt.count fun m => { m with intentsReceived := m.intentsReceived + 1 }).register ref) := by
  obtain ⟨lawful, tracked, counted, expired, revoked, created, _⟩ := h.register ref
  refine ⟨lawful, tracked, fun s f counter => ?_, expired, revoked, created, ?_⟩
  · refine Eq.trans ?_ (counted s f counter)
    cases s <;> cases counter <;> rfl
  · have received := h.received
    change rt.metrics.intentsReceived + 1 ≤ (rt.register ref).registrations
    rw [registrations_register]
    omega

/-- The statements that count an arrival in a state. -/
inductive Counts : IntentState → (Metrics → Metrics) → Prop
  | authorized : Counts .authorized fun m => { m with authorized := m.authorized + 1 }
  | committed : Counts .committed fun m => { m with committed := m.committed + 1 }
  | released : Counts .released fun m => { m with released := m.released + 1 }
  | withheld : Counts .withheld fun m => { m with withheld := m.withheld + 1 }
  | effectConfirmed : Counts .effectConfirmed fun m => { m with effectConfirmed := m.effectConfirmed + 1 }
  | effectFailed : Counts .failed fun m => { m with effectFailed := m.effectFailed + 1 }
  | effectUnknown : Counts .unknownEffect fun m => { m with effectUnknown := m.effectUnknown + 1 }
  | delayed : Counts .delayed fun m => { m with delayed := m.delayed + 1 }
  | degraded : Counts .degraded fun m => { m with degraded := m.degraded + 1 }
  | revoked : Counts .revoked fun m => { m with revoked := m.revoked + 1 }
  | expired : Counts .expired fun m => { m with revoked := m.revoked + 1 }

theorem Counts.counted {t : IntentState} {f : Metrics → Metrics} (h : Counts t f) (m : Metrics) {s : IntentState}
    {g : Metrics → Nat} (counter : s.counter = some g) : g (f m) = g m + t.single s := by
  cases h <;> cases s <;> cases counter <;> rfl

theorem Counts.others {t : IntentState} {f : Metrics → Metrics} (h : Counts t f) (m : Metrics) :
    (f m).revoked = m.revoked + t.single .revoked + t.single .expired ∧ (f m).intentsReceived = m.intentsReceived := by
  cases h <;> exact ⟨rfl, rfl⟩

theorem Owing.count {t : IntentState} (h : Owing t.single rt) {f : Metrics → Metrics} (counts : Counts t f) : Closed (rt.count f) := by
  obtain ⟨lawful, tracked, counted, expired, revoked, created, received⟩ := h
  obtain ⟨again, admitted⟩ := counts.others rt.metrics
  refine ⟨lawful, tracked, fun s g counter => ?_, ?_, ?_, created, ?_⟩
  · exact (counts.counted rt.metrics counter).trans (counted s g counter)
  · change rt.entered .expired ≤ (f rt.metrics).revoked + 0
    omega
  · change (f rt.metrics).revoked + 0 + 0 ≤ rt.entered .revoked + rt.entered .expired
    omega
  · exact Nat.le_trans (Nat.le_of_eq admitted) received

/-- An arrival that no counter has to count. -/
theorem Owing.uncounted {t : IntentState} (h : Owing t.single rt) (none : t.counter = none) (live : t ≠ .expired) : Closed rt := by
  obtain ⟨lawful, tracked, counted, expired, revoked, created, received⟩ := h
  refine ⟨lawful, tracked, fun s g counter => ?_, ?_, ?_, created, received⟩
  · have other : s ≠ t := by
      rintro rfl
      rw [none] at counter
      cases counter
    have balance := counted s g counter
    rwa [IntentState.single, if_neg other] at balance
  · rwa [IntentState.single, if_neg (Ne.symm live)] at expired
  · omega

end

/-! ### Operations -/

section

theorem moves_of_closed {α : Type} {m : RuntimeM α} (h : ∀ rt, Closed rt → Ends m rt (fun _ => Closed) fun _ => Closed) :
    Moves KeepsClosed m := by
  intro rt
  by_cases closed : Closed rt
  · exact (h rt closed).imp (fun _ _ after _ => after) fun _ _ after _ => after
  · unfold Ends
    split
    · exact fun h => absurd h closed
    · exact fun h => absurd h closed

theorem owing_transition {rt : Runtime} (h : Closed rt) (id : Str) (state : IntentState) (outcome : Option DecisionOutcome)
    (reason : Str) : Ends (transition id state outcome reason) rt (fun _ => Owing state.single) fun _ => Closed := by
  unfold transition
  rw [ends_bind, ends_get]
  cases found : rt.records.get id with
  | none => exact ends_throw.mpr h
  | some record =>
    simp only
    rw [ends_ite]
    constructor
    · intro allowed
      rw [ends_bind, ends_set, ends_pure]
      exact h.move found allowed outcome reason
    · intro _
      exact ends_throw.mpr h

/-- A transition that is counted at once. -/
theorem closes_counted {β : Type} {id : Str} {state : IntentState} {outcome : Option DecisionOutcome} {reason : Str}
    {f : Metrics → Metrics} (counts : Counts state f) {k : IntentRecord → RuntimeM β} (next : ∀ a, Moves KeepsClosed (k a)) :
    Moves KeepsClosed (do
      let a ← transition id state outcome reason
      modify fun rt => rt.count f
      k a) := by
  apply moves_of_closed
  intro rt h
  rw [ends_bind]
  refine (owing_transition h id state outcome reason).imp ?_ fun _ _ closed => closed
  intro a rt₁ owing
  rw [ends_bind, ends_modify]
  exact (next a _).imp (fun _ _ keeps => keeps (owing.count counts)) fun _ _ keeps => keeps (owing.count counts)

theorem closes_transition {state : IntentState} (none : state.counter = none) (live : state ≠ .expired) (id : Str)
    (outcome : Option DecisionOutcome) (reason : Str) : Moves KeepsClosed (transition id state outcome reason) := by
  apply moves_of_closed
  intro rt h
  exact (owing_transition h id state outcome reason).imp (fun _ _ owing => owing.uncounted none live) fun _ _ closed => closed

theorem closes_assign (id : Str) {f : IntentRecord → IntentRecord} (same : ∀ r, (f r).state = r.state) :
    Moves KeepsClosed (assign id f) := by
  apply moves_modify
  intro rt closed
  cases found : rt.records.get id with
  | none => exact closed
  | some record => exact closed.putRecord f found (same record)

theorem closes_aside {f : Runtime → Runtime} (same : ∀ rt, (f rt).audit = rt.audit ∧ (f rt).metrics = rt.metrics ∧ (f rt).records = rt.records) :
    Moves KeepsClosed (modify f : RuntimeM PUnit) := by
  apply moves_modify
  intro rt closed
  obtain ⟨audit, metrics, records⟩ := same rt
  exact closed.same audit metrics records

theorem closes_requeue (again : Bool) (ref : Ref) :
    Moves KeepsClosed (modify fun rt => if again then rt.submit ref else rt : RuntimeM PUnit) := by
  apply closes_aside
  intro rt
  split
  · exact ⟨rfl, rfl, rfl⟩
  · exact ⟨rfl, rfl, rfl⟩

theorem closes_releaseTarget (record : IntentRecord) : Moves KeepsClosed (releaseTarget record) :=
  closes_aside fun _ => ⟨rfl, rfl, rfl⟩

theorem closes_reject {α : Type} (record : IntentRecord) (requested : IntentState) (reason : Str) :
    Moves KeepsClosed (reject record requested reason : RuntimeM α) := by
  apply moves_get_bind
  intro rt
  refine moves_bind (moves_modify fun rt' closed => ?_) fun _ => moves_throw _
  cases found : rt'.records.get (rt.heap record.intent).id with
  | none => exact closed
  | some r => exact closed.noted _ found

theorem closed_expireItems (horizon : ℚ) (items : List (Str × ℚ)) {rt : Runtime} (h : Closed rt) :
    Closed (expireItems horizon items rt) := by
  induction items generalizing rt with
  | nil => exact h
  | cons item rest ih =>
    simp only [expireItems]
    split
    · exact h
    · apply ih
      split
      · refine h.aside rfl rfl fun other r stored => ?_
        change (rt.records.erase item.1).get other = some r at stored
        rw [Dict.get_erase] at stored
        split at stored
        · cases stored
        · exact ⟨r, stored, rfl⟩
      · exact h.same rfl rfl rfl

theorem closes_admitIntent (cfg : Config) (ref : Ref) (mono : ℚ) (enqueue : Bool) :
    Moves KeepsClosed (admitIntent cfg ref mono enqueue) := by
  apply moves_of_closed
  intro rt h
  unfold admitIntent
  rw [ends_bind, ends_modify, ends_bind, ends_get]
  have expired : Closed (expireSeen cfg mono rt) := closed_expireItems _ _ h
  generalize expireSeen cfg mono rt = rt₁ at *
  cases found : if rt₁.seen.contains (rt₁.heap ref).id then rt₁.records.get (rt₁.heap ref).id else none with
  | some record =>
    simp only [found]
    exact ends_pure.mpr expired
  | none =>
    simp only [found]
    rw [ends_bind, ends_set, ends_pure]
    have registered : Closed ((({ rt₁ with seen := rt₁.seen.insert (rt₁.heap ref).id mono } : Runtime).count fun m =>
        { m with intentsReceived := m.intentsReceived + 1 }).register ref) := by
      have seen : Closed { rt₁ with seen := rt₁.seen.insert (rt₁.heap ref).id mono } := expired.same rfl rfl rfl
      exact seen.admit ref
    split
    · exact registered.same rfl rfl rfl
    · exact registered

/-! ### A validation pass -/

theorem closes_authorizeStop (ref : Ref) (id : Str) (installed : Nat) : Moves KeepsClosed (authorizeStop ref id installed) := by
  unfold authorizeStop
  refine moves_bind (closes_aside fun _ => ⟨rfl, rfl, rfl⟩) fun _ => ?_
  refine moves_bind (closes_assign id fun _ => rfl) fun _ => ?_
  exact closes_counted .authorized moves_pure

theorem closes_revokeStale (id : Str) (installed : Nat) : Moves KeepsClosed (revokeStale id installed) := by
  unfold revokeStale
  refine moves_bind (closes_assign id fun _ => rfl) fun _ => ?_
  exact closes_counted .revoked moves_pure

section

variable [PyText]

theorem closes_conclude (ref : Ref) (id : Str) (again : Bool) (outcome : DecisionOutcome) (reason : Str) :
    Moves KeepsClosed (conclude ref id again outcome reason) := by
  cases outcome with
  | degrade =>
    unfold conclude
    apply moves_get_bind
    intro rt
    split
    · exact moves_throw _
    · refine moves_bind (closes_aside fun _ => ⟨rfl, rfl, rfl⟩) fun _ => ?_
      refine moves_bind (closes_assign id fun _ => rfl) fun _ => ?_
      apply closes_counted .degraded
      intro record
      exact moves_bind (closes_requeue again ref) fun _ => moves_pure record
  | execute =>
    unfold conclude
    refine moves_bind (closes_aside fun _ => ⟨rfl, rfl, rfl⟩) fun _ => ?_
    refine moves_bind (closes_assign id fun _ => rfl) fun _ => ?_
    exact closes_counted .authorized moves_pure
  | delay =>
    unfold conclude
    apply closes_counted .delayed
    intro record
    exact moves_bind (closes_requeue again ref) fun _ => moves_pure record
  | revoke =>
    unfold conclude
    by_cases late : startsWith "deadline".toList reason = true
    · simp only [late, if_true]
      exact closes_counted .expired moves_pure
    · simp only [late]
      exact closes_counted .revoked moves_pure

theorem closes_evaluate (cfg : Config) (call : ProcessCall) (ref : Ref) (id : Str) (snapshot : Members) (version : Nat) :
    Moves KeepsClosed (evaluate cfg call ref id snapshot version) := by
  intro rt
  unfold evaluate
  rw [ends_bind, ends_get]
  refine moves_set ?_ fun closed => closed.same rfl rfl rfl
  refine moves_bind (closes_assign id fun _ => rfl) fun _ => ?_
  apply moves_get_bind
  intro rt'
  split
  · exact moves_throw _
  · refine moves_bind (closes_assign id fun _ => rfl) fun _ => ?_
    exact closes_conclude ref id _ _ _

theorem closes_validationPass (cfg : Config) (call : ProcessCall) (ref : Ref) : Moves KeepsClosed (validationPass cfg call ref) := by
  unfold validationPass
  apply moves_get_bind
  intro rt
  apply moves_bind (closes_transition rfl (by decide) _ _ _)
  intro _
  apply moves_bind (closes_transition rfl (by decide) _ _ _)
  intro _
  refine moves_bind (closes_assign _ fun _ => rfl) fun _ => ?_
  apply moves_ite
  · intro _
    exact closes_authorizeStop _ _ _
  · intro _
    exact moves_ite (fun _ => closes_revokeStale _ _) fun _ => closes_evaluate cfg call ref _ _ _

theorem closes_processIntent (cfg : Config) (call : ProcessCall) (ref : Ref) : Moves KeepsClosed (processIntent cfg call ref) := by
  intro rt
  unfold processIntent
  rw [ends_bind, ends_get]
  cases found : rt.records.get (rt.heap ref).id with
  | none => exact moves_set (closes_validationPass cfg call ref) fun closed => closed.register ref
  | some record => exact moves_ite (fun _ => closes_validationPass cfg call ref) (fun _ => moves_pure record) rt

end

/-! ### Commit, release and effect -/

theorem closes_recordCommit (id : Str) (committed : Bool) (reason : Str) (seq : Option Nat) :
    Moves KeepsClosed (recordCommit id committed reason seq) := by
  unfold recordCommit
  apply moves_get_bind
  intro rt
  split
  · exact moves_throw _
  · rename_i record _
    refine moves_ite (fun _ => moves_pure record) fun _ => moves_ite (fun _ => closes_reject _ _ _) fun _ => ?_
    apply moves_bind (closes_releaseTarget record)
    intro _
    apply moves_ite
    · intro _
      exact moves_bind (closes_assign id fun _ => rfl) fun _ => closes_counted .committed moves_pure
    · intro _
      exact moves_bind (closes_assign id fun _ => rfl) fun _ => closes_counted .withheld moves_pure

theorem closes_reportRelease (cfg : Config) (id : Str) (released : Bool) (reason : Str) (contextVersion readSetVersion : Option Int) :
    Moves KeepsClosed (reportRelease cfg id released reason contextVersion readSetVersion) := by
  unfold reportRelease
  apply moves_get_bind
  intro rt
  split
  · exact moves_throw _
  · rename_i record _
    refine moves_ite (fun _ => moves_pure record) fun _ => moves_ite (fun _ => moves_pure record) fun _ =>
      moves_ite (fun _ => closes_reject _ _ _) fun _ => moves_ite (fun _ => closes_reject _ _ _) fun _ => ?_
    apply moves_bind (closes_releaseTarget record)
    intro _
    apply moves_ite
    · intro _
      refine moves_bind (closes_assign id fun _ => rfl) fun _ => closes_counted .released fun a => ?_
      refine moves_bind (closes_aside fun rt => ?_) fun _ => moves_pure a
      split
      · exact ⟨rfl, rfl, rfl⟩
      · exact ⟨rfl, rfl, rfl⟩
    · intro _
      exact moves_bind (closes_assign id fun _ => rfl) fun _ => closes_counted .withheld moves_pure

theorem closes_reportEffect (id : Str) (status : EffectStatus) (detail : Str) : Moves KeepsClosed (reportEffect id status detail) := by
  unfold reportEffect
  apply moves_get_bind
  intro rt
  split
  · exact moves_throw _
  · rename_i record _
    refine moves_ite (fun _ => moves_pure record) fun _ => moves_ite (fun _ => closes_reject _ _ _) fun _ => ?_
    refine moves_bind (closes_assign id fun _ => rfl) fun _ => ?_
    cases status with
    | confirmed => exact closes_counted .effectConfirmed moves_pure
    | failed => exact closes_counted .effectFailed moves_pure
    | unknown => exact closes_counted .effectUnknown moves_pure

theorem closes_supervisoryRevoke (id : Str) (reason : Str) : Moves KeepsClosed (supervisoryRevoke id reason) := by
  unfold supervisoryRevoke
  apply moves_get_bind
  intro rt
  split
  · exact moves_throw _
  · apply moves_bind (closes_transition rfl (by decide) _ _ _)
    intro record
    exact moves_bind (closes_releaseTarget record) fun _ => moves_pure record

theorem closed_init (heap : Ref → ActionIntent) (context : Members) (policy : Policy) : Closed (.init heap context policy) := by
  refine ⟨trivial, fun id record stored => ?_, fun s f counter => ?_, ?_, ?_, ?_, ?_⟩
  · cases stored
  · cases s <;> cases counter <;> rfl
  all_goals exact Nat.le_refl _

end

/-! ### What the counters say -/

/-- The counters are the arrivals that the audit log shows. -/
structure Runtime.Accounted (rt : Runtime) : Prop where
  authorized : rt.metrics.authorized = rt.entered .authorized
  committed : rt.metrics.committed = rt.entered .committed
  released : rt.metrics.released = rt.entered .released
  withheld : rt.metrics.withheld = rt.entered .withheld
  effectConfirmed : rt.metrics.effectConfirmed = rt.entered .effectConfirmed
  effectFailed : rt.metrics.effectFailed = rt.entered .failed
  effectUnknown : rt.metrics.effectUnknown = rt.entered .unknownEffect
  delayed : rt.metrics.delayed = rt.entered .delayed
  degraded : rt.metrics.degraded = rt.entered .degraded
  expired : rt.entered .expired ≤ rt.metrics.revoked
  revoked : rt.metrics.revoked ≤ rt.entered .revoked + rt.entered .expired
  received : rt.metrics.intentsReceived ≤ rt.registrations

theorem Owing.accounted {rt : Runtime} (h : Closed rt) : rt.Accounted :=
  ⟨h.counted .authorized _ rfl, h.counted .committed _ rfl, h.counted .released _ rfl, h.counted .withheld _ rfl,
    h.counted .effectConfirmed _ rfl, h.counted .failed _ rfl, h.counted .unknownEffect _ rfl, h.counted .delayed _ rfl,
    h.counted .degraded _ rfl, h.expired, h.revoked, h.received⟩

/-- What has become of the intents that were authorized, and of those that were released. -/
structure Metrics.Balanced (m : Metrics) (registrations : Nat) : Prop where
  authorized : m.authorized ≤ registrations + m.delayed + m.degraded
  committed : m.committed ≤ m.authorized
  decided : m.released + m.withheld ≤ m.authorized
  effects : m.effectConfirmed + m.effectFailed ≤ m.released
  unknown : m.effectUnknown ≤ m.released

/-- A flow through the state machine. -/
theorem Owing.flows {rt : Runtime} (h : Closed rt) (into out level : IntentState → Nat)
    (start : out .created + level .created ≤ into .created)
    (step : ∀ s : IntentState, ∀ t ∈ s.allowed, out t + level t ≤ into t + level s) :
    Journal.arrivals out rt.journal ≤ Journal.arrivals into rt.journal := by
  have flow : Journal.Flow (fun s => s = .created) (fun s t => t ∈ s.allowed) into out level := by
    refine ⟨?_, step⟩
    rintro s rfl
    exact start
  exact flow.arrivals_le h.lawful

theorem Owing.balanced {rt : Runtime} (h : Closed rt) : rt.metrics.Balanced rt.registrations := by
  obtain ⟨authorized, committed, released, withheld, confirmed, failed, unknown, delayed, degraded, _, _, _⟩ := h.accounted
  have created := h.created
  -- an intent stays open from its registration, or the pass that put it off, to its authorization
  have opened := h.flows
    (fun s => IntentState.single .created s + (IntentState.single .delayed s + IntentState.single .degraded s))
    (IntentState.single .authorized) (fun s => if s.stage = 0 then 1 else 0) (by decide) (by intro s; cases s <;> decide)
  have commits := h.flows (IntentState.single .authorized) (IntentState.single .committed) (IntentState.single .authorized)
    (by decide) (by intro s; cases s <;> decide)
  have decisions := h.flows (IntentState.single .authorized) (fun s => IntentState.single .released s + IntentState.single .withheld s)
    (fun s => IntentState.single .authorized s + IntentState.single .committed s) (by decide) (by intro s; cases s <;> decide)
  -- a late report can still resolve an unknown effect
  have effects := h.flows (IntentState.single .released)
    (fun s => IntentState.single .effectConfirmed s + IntentState.single .failed s)
    (fun s => IntentState.single .released s + IntentState.single .unknownEffect s) (by decide) (by intro s; cases s <;> decide)
  have unknowns := h.flows (IntentState.single .released) (IntentState.single .unknownEffect) (IntentState.single .released)
    (by decide) (by intro s; cases s <;> decide)
  simp only [Journal.arrivals_add] at opened decisions effects
  unfold Runtime.entered at *
  constructor <;> omega

end Xair
