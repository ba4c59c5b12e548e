import Xair.Runtime.Expiry

/-!
# The collection of settled records

`_expire_seen` drops an id once, whatever state its record has then. A record that is settled
later stays in the tracker, unless its id is admitted again.
-/

namespace Xair

open Library

section

variable [PyText]

/-- The pass ends in a revocation: its snapshot is older than the installed one, or it decides so. -/
def Revokes (cfg : Config) (call : ProcessCall) (rt : Runtime) (ref : Ref) : Prop :=
  rt.Open (rt.heap ref).id ∧ rt.policy.actionClass (rt.heap ref) ≠ .stop ∧
    ((call.contextVersion.any fun v => decide (v < rt.contextVersion)) = true ∨
      ∃ reason, decision cfg call rt (rt.prepared ref) (call.snapshot rt) = .ok (.revoke, reason))

/-- The pass ends so and leaves its record in this state. -/
def RevokesTo (cfg : Config) (call : ProcessCall) (rt : Runtime) (ref : Ref) (state : IntentState) : Prop :=
  rt.Open (rt.heap ref).id ∧ rt.policy.actionClass (rt.heap ref) ≠ .stop ∧
    ((call.contextVersion.any fun v => decide (v < rt.contextVersion)) = true ∧ state = .revoked ∨
      ∃ reason, decision cfg call rt (rt.prepared ref) (call.snapshot rt) = .ok (.revoke, reason) ∧
        state = if startsWith "deadline".toList reason then .expired else .revoked)

theorem RevokesTo.revokes {cfg : Config} {call : ProcessCall} {rt : Runtime} {ref : Ref} {state : IntentState}
    (h : RevokesTo cfg call rt ref state) : Revokes cfg call rt ref :=
  ⟨h.1, h.2.1, h.2.2.imp And.left fun ⟨reason, decided, _⟩ => ⟨reason, decided⟩⟩

/-- The operation moves the record of this id to a settled state. -/
def Operation.Settles (cfg : Config) (rt : Runtime) (id : Str) : Operation → Prop
  | recordCommit own committed _ _ => own = id ∧ committed = false ∧
      ∃ record, rt.records.get id = some record ∧ record.state = .authorized
  | reportRelease own released reason cv rv => own = id ∧ ∃ record, rt.records.get id = some record ∧
      record.releaseDecision = none ∧ (record.state = .authorized ∨ record.state = .committed) ∧
        (gateVersionCheck record released reason cv rv).1 = false
  | reportEffect own _ _ => own = id ∧ ∃ record, rt.records.get id = some record ∧ record.state = .released
  | supervisoryRevoke own _ => own = id ∧ ∃ record, rt.records.get id = some record ∧ .revoked ∈ record.state.allowed
  | op => ∃ call ref, op.pass rt = some (call, ref) ∧ (rt.heap ref).id = id ∧ Revokes cfg call rt ref

/-- The record of this id is there, and settled. -/
def Runtime.SettledAt (rt : Runtime) (id : Str) : Prop := ∃ record, rt.records.get id = some record ∧ record.state.settled = true

/-! ### A pass -/

theorem ends_conclude_unsettled {rt : Runtime} {id : Str} {record : IntentRecord} (found : rt.records.get id = some record)
    (state : record.state = .validating) (ref : Ref) (requeue : Bool) {outcome : DecisionOutcome} (other : outcome ≠ .revoke) (reason : Str) :
    Ends (conclude ref id requeue outcome reason) rt
      (fun a rt' => rt'.records.get id = some a ∧ a.state.settled = false) fun _ rt' => rt' = rt := by
  cases outcome with
  | execute =>
    refine (ends_conclude_execute found state ref requeue reason).imp ?_ fun _ _ none => none.elim
    rintro a rt' ⟨_, stored, rfl, _⟩
    exact ⟨stored, rfl⟩
  | degrade =>
    simp only [conclude]
    rw [ends_bind, ends_get]
    cases degraded : applyDegradation (rt.heap ref) with
    | error e => exact ends_throw.mpr rfl
    | ok i =>
      simp only
      rw [ends_bind, ends_modify]
      refine (ends_assign_transition (by exact found) (by simp [state, IntentState.allowed])).mpr ?_
      rw [ends_bind, ends_modify, ends_bind, ends_modify, ends_pure]
      refine ⟨?_, rfl⟩
      split
      · exact Dict.get_insert_self _ _ _
      · exact Dict.get_insert_self _ _ _
  | delay =>
    simp only [conclude]
    rw [ends_bind]
    refine (ends_transition found (by simp [state, IntentState.allowed])).mpr ?_
    rw [ends_bind, ends_modify, ends_bind, ends_modify, ends_pure]
    refine ⟨?_, rfl⟩
    split
    · exact Dict.get_insert_self _ _ _
    · exact Dict.get_insert_self _ _ _
  | revoke => exact absurd rfl other

theorem ends_conclude_revoke {rt : Runtime} {id : Str} {record : IntentRecord} (found : rt.records.get id = some record)
    (state : record.state = .validating) (ref : Ref) (requeue : Bool) (reason : Str) :
    Ends (conclude ref id requeue .revoke reason) rt
      (fun a rt' => rt'.records.get id = some a ∧ a.state = if startsWith "deadline".toList reason then .expired else .revoked)
      fun _ _ => False := by
  simp only [conclude]
  rw [ends_bind]
  refine (ends_transition found (by rw [state]; split <;> decide)).mpr ?_
  rw [ends_bind, ends_modify, ends_pure]
  exact ⟨Dict.get_insert_self _ _ _, rfl⟩

/-- A pass leaves its record settled only if it revokes. -/
theorem ends_validationPass_settled (cfg : Config) (call : ProcessCall) {rt : Runtime} (ref : Ref) {record : IntentRecord}
    (found : rt.records.get (rt.heap ref).id = some record) (opened : record.state.validatable = true) :
    Ends (validationPass cfg call ref) rt
      (fun _ rt' => ∀ a, rt'.records.get (rt.heap ref).id = some a → a.state.settled = true → RevokesTo cfg call rt ref a.state)
      fun _ rt' => ∀ a, rt'.records.get (rt.heap ref).id = some a → a.state.settled = true → RevokesTo cfg call rt ref a.state := by
  have unsettled : ∀ {rt' : Runtime} {a : IntentRecord}, rt'.records.get (rt.heap ref).id = some a → a.state.settled = false →
      ∀ a', rt'.records.get (rt.heap ref).id = some a' → a'.state.settled = true → RevokesTo cfg call rt ref a'.state := by
    intro rt' a stored live a' stored' settled
    obtain rfl := Option.some.inj (stored.symm.trans stored')
    rw [live] at settled
    cases settled
  apply ends_validationPass_begun cfg call ref found opened
  · intro rt₁ r₁ h _ _
    refine (ends_authorizeStop h.stored h.state _ _).imp ?_ fun _ _ none => none.elim
    rintro a rt' ⟨_, stored, state, _⟩
    exact unsettled stored (by rw [state]; rfl)
  · intro rt₁ r₁ h _ notStop stale
    refine (ends_revokeStale h.stored h.state _).imp ?_ fun _ _ none => none.elim
    rintro a rt' ⟨_, stored, state, _⟩ a' stored' _
    obtain rfl := Option.some.inj (stored.symm.trans stored')
    exact ⟨h.opened, notStop, Or.inl ⟨stale, state⟩⟩
  · intro rt₁ r₁ h _ notStop _
    apply ends_evaluate_decided h
    · intro rt₂ r₂ e _ stored state _ _
      exact unsettled stored (by rw [state]; rfl)
    · intro rt₂ r₂ outcome reason evaluated _
      by_cases revoked : outcome = .revoke
      · subst revoked
        refine (ends_conclude_revoke evaluated.stored evaluated.state ref _ reason).imp ?_ fun _ _ none => none.elim
        rintro a rt' ⟨stored, state⟩ a' stored' _
        obtain rfl := Option.some.inj (stored.symm.trans stored')
        exact ⟨h.opened, notStop, Or.inr ⟨reason, evaluated.decided, state⟩⟩
      · refine (ends_conclude_unsettled evaluated.stored evaluated.state ref _ revoked reason).imp ?_ ?_
        · rintro a rt' ⟨stored, live⟩
          exact unsettled stored live
        · rintro _ rt' rfl
          exact unsettled evaluated.stored (by rw [evaluated.state]; rfl)

/-- The settled record of a pass's intent is the one that it found, or the one that it has revoked. -/
theorem revokesTo_processIntent (cfg : Config) (call : ProcessCall) (rt : Runtime) (ref : Ref) {a : IntentRecord}
    (stored : (finalState (processIntent cfg call ref) rt).records.get (rt.heap ref).id = some a) (settled : a.state.settled = true) :
    rt.records.get (rt.heap ref).id = some a ∨ RevokesTo cfg call rt ref a.state := by
  revert stored
  refine Ends.finalState (P := fun rt' => Dict.get (Runtime.records rt') (rt.heap ref).id = some a → _) ?_
  rw [processIntent, ends_bind, ends_get]
  cases found : rt.records.get (rt.heap ref).id with
  | some record =>
    simp only
    split
    · rename_i opened
      exact (ends_validationPass_settled cfg call ref found opened).imp (fun _ _ h stored => Or.inr (h a stored settled))
        fun _ _ h stored => Or.inr (h a stored settled)
    · exact ends_pure.mpr fun stored => Or.inl (found.symm.trans stored)
  | none =>
    simp only
    rw [ends_bind, ends_set]
    have fresh : (rt.register ref).records.get ((rt.register ref).heap ref).id = some (.fresh ref) := Dict.get_insert_self _ _ _
    -- the registration is no part of what the pass looks at
    have same : RevokesTo cfg call (rt.register ref) ref a.state → RevokesTo cfg call rt ref a.state := by
      rintro ⟨_, notStop, revoked⟩
      exact ⟨fun r present => (by cases found.symm.trans present), notStop, revoked⟩
    exact (ends_validationPass_settled cfg call ref fresh rfl).imp (fun _ _ h stored => Or.inr (same (h a stored settled)))
      fun _ _ h stored => Or.inr (same (h a stored settled))

theorem settled_processIntent (cfg : Config) (call : ProcessCall) (rt : Runtime) (ref : Ref)
    (settled : (finalState (processIntent cfg call ref) rt).SettledAt (rt.heap ref).id) :
    rt.SettledAt (rt.heap ref).id ∨ Revokes cfg call rt ref := by
  obtain ⟨a, stored, final⟩ := settled
  exact (revokesTo_processIntent cfg call rt ref stored final).imp (fun before => ⟨a, before, final⟩) RevokesTo.revokes

/-! ### An operation -/

omit [PyText] in
theorem Noted.settledAt {rt rt' : Runtime} (noted : Noted rt rt') {id : Str} (settled : rt'.SettledAt id) : rt.SettledAt id := by
  rwa [Runtime.SettledAt, noted.records] at settled

omit [PyText] in
/-- What a report leaves settled it has moved, or it was settled before. -/
theorem Settled.settledAt {id other : Str} {rt rt' : Runtime} {record a : IntentRecord} {state : IntentState}
    (moved : Settled id rt record state a rt') (settled : rt'.SettledAt other) : rt.SettledAt other ∨ id = other ∧ state.settled = true := by
  obtain ⟨r, stored, its⟩ := settled
  by_cases same : other = id
  · subst same
    obtain rfl := Option.some.inj (moved.stored.symm.trans stored)
    exact Or.inr ⟨rfl, by rw [← moved.reached]; exact its⟩
  · rw [moved.alone.others other same] at stored
    exact Or.inl ⟨r, stored, its⟩

/-- Only an operation that settles a record adds to the settled ones. -/
theorem settledAt_exec (cfg : Config) (rt : Runtime) {id : Str} {op : Operation} (other : op.admits = false)
    (settled : (op.exec cfg rt).SettledAt id) : rt.SettledAt id ∨ op.Settles cfg rt id := by
  cases pass : op.pass rt with
  | some passed =>
    obtain ⟨call, ref⟩ := passed
    obtain ⟨queue, same⟩ := exec_of_pass cfg pass
    have settles : (rt.heap ref).id = id → Revokes cfg call rt ref → op.Settles cfg rt id := by
      intro own revokes
      cases op with
      | processIntent call' ref' => exact ⟨call, ref, pass, own, revokes⟩
      | processNext call' => exact ⟨call, ref, pass, own, revokes⟩
      | _ => cases pass
    rw [same] at settled
    by_cases own : (rt.heap ref).id = id
    · subst own
      rcases settled_processIntent cfg call { rt with queue := queue } ref settled with before | revokes
      · exact Or.inl before
      · exact Or.inr (settles rfl revokes)
    · refine Or.inl ?_
      have alone : Local (rt.heap ref).id { rt with queue := queue } (finalState (processIntent cfg call ref) { rt with queue := queue }) :=
        Ends.finalState ((ends_processIntent cfg call { rt with queue := queue } ref).imp (fun _ _ h => h.1) fun _ _ h => h.1)
      obtain ⟨record, stored, its⟩ := settled
      rw [alone.others id (Ne.symm own)] at stored
      exact ⟨record, stored, its⟩
  | none =>
    revert settled
    cases op with
    | admitIntent ref mono enqueue => cases other
    | processIntent call ref => cases pass
    | processNext call =>
      have queue : rt.queue = [] := by
        cases queue : rt.queue with
        | nil => rfl
        | cons q rest => rw [Operation.pass, queue] at pass; cases pass
      rw [exec_next_nil cfg call queue]
      exact Or.inl
    | recordCommit own committed reason seq =>
      refine Ends.finalState (P := fun rt' => Runtime.SettledAt rt' id → _) ((ends_recordCommit rt own committed reason seq).imp ?_
        fun _ _ noted settled => Or.inl (noted.settledAt settled))
      rintro a rt' (⟨rfl, _⟩ | ⟨record, authorized, moved, _⟩) settled
      · exact Or.inl settled
      · refine (moved.settledAt settled).imp_right ?_
        rintro ⟨rfl, final⟩
        cases committed with
        | true => cases final
        | false => exact ⟨rfl, rfl, record, moved.found, authorized⟩
    | reportRelease own released reason cv rv =>
      refine Ends.finalState (P := fun rt' => Runtime.SettledAt rt' id → _) ((ends_reportRelease cfg rt own released reason cv rv).imp ?_
        fun _ _ noted settled => Or.inl (noted.settledAt settled))
      rintro a rt' (⟨rfl, _⟩ | ⟨record, state, from_, undecided, reached, moved, _⟩) settled
      · exact Or.inl settled
      · refine (moved.settledAt settled).imp_right ?_
        rintro ⟨rfl, final⟩
        rcases reached with ⟨withheld, _⟩ | ⟨_, _, rfl⟩
        · exact ⟨rfl, record, moved.found, undecided, from_, withheld⟩
        · cases final
    | reportEffect own status detail =>
      refine Ends.finalState (P := fun rt' => Runtime.SettledAt rt' id → _) ((ends_reportEffect rt own status detail).imp ?_
        fun _ _ noted settled => Or.inl (noted.settledAt settled))
      rintro a rt' (⟨rfl, _⟩ | ⟨record, moved, _⟩) settled
      · exact Or.inl settled
      · rcases moved.settledAt settled with before | ⟨rfl, _⟩
        · exact Or.inl before
        · have allowed := moved.allowed
          cases state : record.state with
          | released => exact Or.inr ⟨rfl, record, moved.found, state⟩
          | unknownEffect => exact Or.inl ⟨record, moved.found, by rw [state]; rfl⟩
          | _ =>
            rw [state] at allowed
            cases status <;> cases allowed <;> contradiction
    | supervisoryRevoke own reason =>
      refine Ends.finalState (P := fun rt' => Runtime.SettledAt rt' id → _) ((ends_supervisoryRevoke rt own reason).imp ?_ ?_)
      · rintro a rt' ⟨record, moved, _⟩ settled
        refine (moved.settledAt settled).imp_right ?_
        rintro ⟨rfl, _⟩
        exact ⟨rfl, record, moved.found, moved.allowed⟩
      · rintro _ rt' ⟨rfl, _⟩
        exact Or.inl
    | setPolicy policy => exact Or.inl
    | installContext snapshot version =>
      rw [Operation.exec, installContextSnapshot]
      split
      · exact Or.inl
      · exact Or.inl
    | setPreconditions ref preconditions => exact Or.inl

end

/-! ### Expiry -/

/-- Every settled record belongs to an id of the seen-table. -/
def Runtime.Collected (rt : Runtime) : Prop := ∀ id, rt.SettledAt id → rt.seen.contains id = true

theorem collected_expireItems (horizon : ℚ) (items : List (Str × ℚ)) {rt : Runtime} (h : rt.Collected) :
    (expireItems horizon items rt).Collected := by
  induction items generalizing rt with
  | nil => exact h
  | cons item rest ih =>
    obtain ⟨id, admittedAt⟩ := item
    simp only [expireItems]
    split
    · exact h
    · -- of the records that are left none is both settled and the dropped one
      have dropped : ∀ {rt' : Runtime} {other : Str}, rt'.seen = rt.seen.erase id → rt.SettledAt other → other ≠ id →
          rt'.seen.contains other = true := by
        intro rt' other seen settled ne
        rw [seen, Dict.contains, Dict.get_erase, if_neg ne]
        exact h other settled
      split
      · refine ih fun other settled => ?_
        obtain ⟨record, stored, its⟩ := settled
        rw [Runtime.forget, Dict.get_erase] at stored
        split at stored
        · cases stored
        · rename_i ne
          exact dropped rfl ⟨record, stored, its⟩ ne
      · rename_i unsettled
        refine ih fun other settled => dropped rfl settled ?_
        rintro rfl
        obtain ⟨record, stored, its⟩ := settled
        simp only [show rt.records.get other = some record from stored] at unsettled
        exact unsettled its

namespace Clocked

variable (cfg : Config)

section

variable [PyText]

/-- The call settles no record whose id has left the seen-table. -/
def Timely (c : Clocked) : TimedCall → Prop
  | .operation op _ => ∀ id, op.Settles cfg c.runtime id → c.runtime.seen.contains id = true
  | _ => True

variable {cfg} {c : Clocked}

theorem collected_exec (h : c.runtime.Collected) {call : TimedCall} (timely : c.Timely cfg call) :
    (c.exec cfg call).runtime.Collected := by
  cases call with
  | admission ref checked stamped enqueue =>
    have expired : (expireSeen cfg checked c.runtime).Collected := collected_expireItems _ _ h
    have ends := ends_admitTimed cfg ref checked stamped enqueue c.runtime
    rw [Clocked.exec]
    cases run : (admitTimed cfg ref checked stamped enqueue).run c.runtime with
    | error e rt => exact (ends.of_run_error run).elim
    | ok a rt =>
      obtain ⟨record, duplicate⟩ := a
      rcases ends.of_run_ok run with ⟨again, _, _, rfl⟩ | ⟨fresh, _, seen, records, _⟩
      · obtain rfl : duplicate = true := again
        exact expired
      · obtain rfl : duplicate = false := fresh
        rintro id ⟨r, stored, settled⟩
        rw [show rt.records.get id = _ by rw [records, Dict.get_insert]] at stored
        rw [show rt.seen.contains id = _ by rw [seen, Dict.contains, Dict.get_insert]]
        split at stored
        · obtain rfl := Option.some.inj stored
          cases settled
        · rename_i ne
          rw [if_neg ne]
          exact expired id ⟨r, stored, settled⟩
  | isDuplicate id checked => exact collected_expireItems _ _ h
  | prepare ref => exact h
  | updateContext patch => exact h
  | mergeContext snapshot version =>
    rw [Clocked.exec, mergeContextSnapshot]
    split
    · exact h
    · exact h
  | operation op other =>
    intro id settled
    have seen : (op.exec cfg c.runtime).seen = c.runtime.seen := (remains_exec cfg id c.runtime other).seen
    change (op.exec cfg c.runtime).seen.contains id = true
    rw [seen]
    rcases settledAt_exec cfg c.runtime other settled with before | settles
    · exact h id before
    · exact timely id settles

theorem collected_run (h : c.runtime.Collected) {calls : List TimedCall} (timely : Along cfg (Timely cfg) c calls) :
    (c.run cfg calls).runtime.Collected := by
  induction calls generalizing c with
  | nil => exact h
  | cons call calls ih => exact ih (collected_exec h timely.1) timely.2

/-- If no call settles a record whose id has left the seen-table, then after any call of `_expire_seen` every settled
record belongs to an id that is in the table, admitted within its window. -/
theorem settled_collected (heap : Ref → ActionIntent) (context : Members) (policy : Policy) (now : ℚ) {calls : List TimedCall}
    (forward : Along cfg Forward (init heap context policy now) calls)
    (timely : Along cfg (Timely cfg) (init heap context policy now) calls) (checked : ℚ) :
    let rt := expireSeen cfg checked ((init heap context policy now).run cfg calls).runtime
    ∀ id record, rt.records.get id = some record → record.state.settled = true →
      ∃ time, rt.seen.get id = some time ∧ checked - time ≤ cfg.idempotencyRetentionS := by
  intro rt id record stored settled
  have inv := (inv_init cfg heap context policy now).run forward
  have collected : rt.Collected := collected_expireItems _ _
    (collected_run (c := init heap context policy now) (fun _ ⟨_, present, _⟩ => nomatch present) timely)
  obtain ⟨time, held⟩ := Option.isSome_iff_exists.mp (collected id ⟨record, stored, settled⟩)
  exact ⟨time, held, sub_le_comm.mp ((get_expireSeen inv.sorted).mp held).2⟩

end

/-- A pass is on an intent that has been admitted. -/
def Entered (c : Clocked) : TimedCall → Prop
  | .operation op _ => ∀ call ref, op.pass c.runtime = some (call, ref) → ∃ a ∈ c.admissions, a.id = (c.runtime.heap ref).id
  | _ => True

/-- No intent has been admitted yet. -/
def threeOutside : Clocked := init threeIntents .nil .empty 0

/-- `a` is withheld within its window. -/
def withheldOnce : List TimedCall :=
  [.admission 0 0 0 false, plainPass, .operation (.recordCommit "a".toList false [] none) rfl]

theorem settled_collected_withheldOnce :
    let rt := expireSeen plainConfig 3600 (@run PyText.ascii plainConfig threeOutside withheldOnce).runtime
    ∀ id record, rt.records.get id = some record → record.state.settled = true →
      ∃ time, rt.seen.get id = some time ∧ 3600 - time ≤ plainConfig.idempotencyRetentionS := by
  refine @settled_collected plainConfig PyText.ascii threeIntents .nil .empty 0 withheldOnce ?_ ?_ 3600
  · exact ⟨⟨le_refl 0, le_refl 0⟩, trivial, trivial, trivial⟩
  · refine ⟨trivial, ?_, ?_, trivial⟩
    · rintro id ⟨call, ref, pass, rfl, _⟩
      obtain ⟨rfl, rfl⟩ := Prod.mk.inj (Option.some.inj pass)
      decide +kernel
    · rintro id ⟨rfl, _⟩
      decide +kernel

/-- `a` is authorized within its window, and withheld after its id has left the seen-table. -/
def withheldLate : List TimedCall :=
  [.admission 0 0 0 false, plainPass, .isDuplicate "a".toList 3601,
    .operation (.recordCommit "a".toList false [] none) rfl]

theorem withheldLate_stays :
    ¬∀ calls : List TimedCall, @Along PyText.ascii plainConfig Forward threeOutside calls →
      @Along PyText.ascii plainConfig Entered threeOutside calls →
      ∀ checked, (@run PyText.ascii plainConfig threeOutside calls).now ≤ checked →
        let rt := expireSeen plainConfig checked (@run PyText.ascii plainConfig threeOutside calls).runtime
        ∀ id record, rt.records.get id = some record → record.state.settled = true → rt.seen.contains id = true := by
  intro collected
  have forward : @Along PyText.ascii plainConfig Forward threeOutside withheldLate :=
    ⟨⟨le_refl 0, le_refl 0⟩, trivial, show (0 : ℚ) ≤ 3601 by decide +kernel, trivial, trivial⟩
  have entered : @Along PyText.ascii plainConfig Entered threeOutside withheldLate := by
    refine ⟨trivial, ?_, trivial, ?_, trivial⟩
    · intro call ref pass
      obtain ⟨rfl, rfl⟩ := Prod.mk.inj (Option.some.inj pass)
      exact ⟨⟨"a".toList, 0, 0⟩, by decide +kernel, rfl⟩
    · rintro call ref ⟨⟩
  have kept := collected withheldLate forward entered 7202 (by decide +kernel) "a".toList
  have stored : ((expireSeen plainConfig 7202 (@run PyText.ascii plainConfig threeOutside withheldLate).runtime).records.get
      "a".toList).any (fun record => record.state.settled) = true := by decide +kernel
  obtain ⟨record, there, settled⟩ := Option.any_eq_true _ _ |>.mp stored
  have seen := kept record there settled
  have gone : (expireSeen plainConfig 7202 (@run PyText.ascii plainConfig threeOutside withheldLate).runtime).seen.contains
      "a".toList = false := by decide +kernel
  rw [gone] at seen
  cases seen

end Clocked

end Xair
