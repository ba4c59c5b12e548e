import Xair.Runtime.Records

/-!
# Replays

A report that was accepted is repeated. The record already tells of it, unless the version check has
turned the reported release into its opposite.
-/

namespace Xair

open Library

/-- What a gateway reports about an intent. -/
inductive Report where
  | commit (id : Str) (committed : Bool) (reason : Str) (seq : Option Nat)
  | release (id : Str) (released : Bool) (reason : Str) (contextVersion readSetVersion : Option Int)
  | effect (id : Str) (status : EffectStatus) (detail : Str)

namespace Report

def id : Report → Str
  | commit id _ _ _ | release id _ _ _ _ | effect id _ _ => id

def call (cfg : Config) : Report → RuntimeM IntentRecord
  | commit id committed reason seq => recordCommit id committed reason seq
  | release id released reason contextVersion readSetVersion => reportRelease cfg id released reason contextVersion readSetVersion
  | effect id status detail => reportEffect id status detail

/-- The report is accepted in this state, answered with this record, and changes nothing. -/
def Replays (cfg : Config) (report : Report) (record : IntentRecord) (rt : Runtime) : Prop :=
  ∃ rt', (report.call cfg).run rt = .ok record rt' ∧ rt'.records = rt.records ∧ rt'.activeTargets = rt.activeTargets ∧
    rt'.metrics = rt.metrics ∧ rt'.actuated = rt.actuated

end Report

/-- The reported versions are not those of the record. -/
def VersionChanged (record : IntentRecord) : Option Int → Option Int → Prop
  | _, some readSetVersion => readSetVersion ≠ record.readSetVersion
  | some contextVersion, none => contextVersion ≠ record.contextVersion
  | none, none => False

/-- A release is reported for an authorized intent, with other versions than it was authorized on. -/
def Report.Overruled (rt : Runtime) : Report → Prop
  | release id released _ contextVersion readSetVersion => ∃ record, rt.records.get id = some record ∧
      record.state = .authorized ∧ released = true ∧ VersionChanged record contextVersion readSetVersion
  | _ => False

/-! ### The version check -/

theorem gateVersionCheck_iff {record : IntentRecord} {reason : Str} {cv rv : Option Int} :
    (gateVersionCheck record true reason cv rv).1 = false ↔ record.state = .authorized ∧ VersionChanged record cv rv := by
  unfold gateVersionCheck
  by_cases authorized : record.state = .authorized
  · rw [if_pos ⟨authorized, rfl⟩]
    cases rv with
    | some v =>
      dsimp only
      split
      · rename_i differs
        exact iff_of_true rfl ⟨authorized, differs⟩
      · rename_i same
        exact iff_of_false Bool.false_ne_true.symm fun changed => same changed.2
    | none =>
      cases cv with
      | some v =>
        dsimp only
        split
        · rename_i differs
          exact iff_of_true rfl ⟨authorized, differs⟩
        · rename_i same
          exact iff_of_false Bool.false_ne_true.symm fun changed => same changed.2
      | none => exact iff_of_false Bool.false_ne_true.symm fun changed => changed.2
  · rw [if_neg fun both => authorized both.1]
    exact iff_of_false Bool.false_ne_true.symm fun changed => authorized changed.1

/-! ### Calls that find their report recorded -/

section

variable {rt : Runtime} {id : Str} {record : IntentRecord}

theorem ends_recordCommit_recorded (found : rt.records.get id = some record) (consistent : record.Consistent) {committed : Bool}
    (state : record.state = commitState committed) (reason : Str) (seq : Option Nat) :
    Ends (recordCommit id committed reason seq) rt (fun a rt' => a = record ∧ rt' = rt) fun _ _ => False := by
  rw [recordCommit, ends_bind, ends_get]
  simp only [found]
  rw [ends_ite]
  refine ⟨fun _ => ends_pure.mpr ⟨rfl, rfl⟩, fun other => absurd ⟨state, ?_⟩ other⟩
  cases committed with
  | true => exact Or.inl rfl
  | false => exact Or.inr (by rw [consistent.decision, state]; rfl)

theorem ends_reportEffect_recorded (found : rt.records.get id = some record) {status : EffectStatus}
    (state : record.state = status.state) (detail : Str) :
    Ends (reportEffect id status detail) rt (fun a rt' => a = record ∧ rt' = rt) fun _ _ => False := by
  rw [reportEffect, ends_bind, ends_get]
  simp only [found]
  rw [ends_ite]
  exact ⟨fun _ => ends_pure.mpr ⟨rfl, rfl⟩, fun other => absurd state other⟩

/-- The decision that a report asks for. -/
def wantedDecision (released : Bool) : ReleaseDecision := if released then .release else .withhold

theorem ends_reportRelease_recorded (cfg : Config) (found : rt.records.get id = some record) {released : Bool}
    (decided : record.releaseDecision = some (wantedDecision released)) (reason : Str) (cv rv : Option Int) :
    Ends (reportRelease cfg id released reason cv rv) rt (fun a rt' => a = record ∧ rt' = rt) fun _ _ => False := by
  rw [reportRelease, ends_bind, ends_get]
  simp only [found]
  rw [ends_ite]
  refine ⟨fun _ => ends_pure.mpr ⟨rfl, rfl⟩, fun _ => ?_⟩
  rw [ends_ite]
  exact ⟨fun _ => ends_pure.mpr ⟨rfl, rfl⟩, fun other => absurd decided other⟩

/-- A release reported for a withheld intent is refused. -/
theorem ends_reportRelease_withheld (cfg : Config) (found : rt.records.get id = some record)
    (decided : record.releaseDecision = some .withhold) (reason : Str) (cv rv : Option Int) :
    Ends (reportRelease cfg id true reason cv rv) rt (fun _ _ => False) fun _ _ => True := by
  rw [reportRelease, ends_bind, ends_get]
  simp only [found]
  rw [ends_ite]
  refine ⟨(fun revoked => by cases revoked.1), fun _ => ?_⟩
  rw [ends_ite]
  refine ⟨fun same => ?_, fun _ => ?_⟩
  · rw [decided] at same
    cases same
  · rw [ends_ite]
    exact ⟨fun _ => (ends_reject record _ reason _).imp (fun _ _ h => h) fun _ _ _ => trivial,
      fun undecided => absurd (by rw [decided]; rfl) undecided⟩

end

/-! ### Replays -/

section

variable {cfg : Config} {report : Report} {rt rt' : Runtime} {record : IntentRecord}

theorem Report.replays_of_ends (report : Report) (ends : Ends (report.call cfg) rt (fun a rt' => a = record ∧ rt' = rt) fun _ _ => False) :
    report.Replays cfg record rt := by
  cases run : (report.call cfg).run rt with
  | ok a rt' =>
    obtain ⟨rfl, rfl⟩ := ends.of_run_ok run
    exact ⟨rt', run, rfl, rfl, rfl, rfl⟩
  | error e rt' => exact (ends.of_run_error run).elim

theorem Report.not_replays_of_ends (report : Report) (ends : Ends (report.call cfg) rt (fun _ _ => False) fun _ _ => True) :
    ¬report.Replays cfg record rt := by
  rintro ⟨rt', run, _⟩
  exact ends.of_run_ok run

/-- A report that changed nothing is its own replay. -/
theorem Report.replays_self (run : (report.call cfg).run rt = .ok record rt) : report.Replays cfg record rt :=
  ⟨rt, run, rfl, rfl, rfl, rfl⟩

/-- An accepted report replays, unless it was overruled. -/
theorem Report.replays_iff (tracks : Tracks rt) (accepted : (report.call cfg).run rt = .ok record rt') :
    report.Replays cfg record rt' ↔ ¬report.Overruled rt := by
  cases report with
  | commit id committed reason seq =>
    refine iff_of_true ?_ (fun overruled => overruled)
    rcases (ends_recordCommit rt id committed reason seq).of_run_ok accepted with ⟨rfl, _⟩ | ⟨before, _, settled, _⟩
    · exact Report.replays_self accepted
    · exact Report.replays_of_ends (.commit id committed reason seq) (ends_recordCommit_recorded settled.stored
        (settled.consistent (tracks id before settled.found).consistent) settled.reached reason seq)
  | effect id status detail =>
    refine iff_of_true ?_ (fun overruled => overruled)
    rcases (ends_reportEffect rt id status detail).of_run_ok accepted with ⟨rfl, _⟩ | ⟨before, settled, _⟩
    · exact Report.replays_self accepted
    · exact Report.replays_of_ends (.effect id status detail)
        (ends_reportEffect_recorded settled.stored settled.reached detail)
  | release id released reason cv rv =>
    rcases (ends_reportRelease cfg rt id released reason cv rv).of_run_ok accepted with
      ⟨rfl, found, closed⟩ | ⟨before, state, _, _, checked, settled, _⟩
    · refine iff_of_true (Report.replays_self accepted) ?_
      rintro ⟨before, found', authorized, _⟩
      obtain rfl := Option.some.inj (found.symm.trans found')
      rw [(tracks id record found).consistent.decision, authorized] at closed
      exact closed.elim (fun revoked => nomatch revoked) fun decided => decided rfl
    · have decided := (settled.consistent (tracks id before settled.found).consistent).decision
      rw [settled.reached] at decided
      have overruled_iff : (Report.release id released reason cv rv).Overruled rt ↔ released = true ∧ state = .withheld := by
        constructor
        · rintro ⟨before', found', authorized, rfl, changed⟩
          obtain rfl := Option.some.inj (settled.found.symm.trans found')
          have differs : (gateVersionCheck before true reason cv rv).1 = false := gateVersionCheck_iff.mpr ⟨authorized, changed⟩
          rcases checked with ⟨_, withheld⟩ | ⟨_, same, _⟩
          · exact ⟨rfl, withheld⟩
          · rw [differs] at same
            cases same
        · rintro ⟨rfl, rfl⟩
          rcases checked with ⟨differs, _⟩ | ⟨_, _, released⟩
          · obtain ⟨authorized, changed⟩ := gateVersionCheck_iff.mp differs
            exact ⟨before, settled.found, authorized, rfl, changed⟩
          · cases released
      rw [overruled_iff]
      rcases checked with ⟨_, rfl⟩ | ⟨rfl, _, rfl⟩
      · cases released with
        | true => exact iff_of_false (Report.not_replays_of_ends (.release id true reason cv rv)
            (ends_reportRelease_withheld cfg settled.stored decided reason cv rv)) (not_not.mpr ⟨rfl, rfl⟩)
        | false => exact iff_of_true (Report.replays_of_ends (.release id false reason cv rv)
            (ends_reportRelease_recorded cfg settled.stored (show _ = some (wantedDecision false) from decided) reason cv rv)) (fun both => nomatch both.1)
      · exact iff_of_true (Report.replays_of_ends (.release id true reason cv rv)
            (ends_reportRelease_recorded cfg settled.stored (show _ = some (wantedDecision true) from decided) reason cv rv)) (fun both => nomatch both.2)

end

/-- In every state that a run reaches, an accepted report replays exactly if the version check did not
overrule it. -/
theorem replays_runAll [PyText] (cfg : Config) (heap : Ref → ActionIntent) (context : Members) (policy : Policy)
    (ops : List Operation) (report : Report) (record : IntentRecord) (rt' : Runtime)
    (accepted : (report.call cfg).run (runAll cfg ops (.init heap context policy)) = .ok record rt') :
    report.Replays cfg record rt' ↔ ¬report.Overruled (runAll cfg ops (.init heap context policy)) :=
  Report.replays_iff (tracks_runAll cfg heap context policy ops) accepted

/-- `a` is authorized. -/
def authorizedOnce : List Operation := [.admitIntent 0 0 false, .processIntent plainCall 0]

abbrev authorizedRuntime : Runtime := @runAll PyText.ascii plainConfig authorizedOnce (plainRuntime threeIntents)

/-- A release of `a`, at this version of the context. -/
def releaseAt (version : Int) : Report := .release "a".toList true [] (some version) none

theorem releaseAt_accepted (version : Int) (small : version = 0 ∨ version = 1) :
    ∃ record rt', ((releaseAt version).call plainConfig).run authorizedRuntime = .ok record rt' := by
  apply exists_of_returns
  rcases small with rfl | rfl <;> decide +kernel

theorem replays_releaseAt : ∃ record rt', ((releaseAt 0).call plainConfig).run authorizedRuntime = .ok record rt' ∧
    (releaseAt 0).Replays plainConfig record rt' := by
  obtain ⟨record, rt', accepted⟩ := releaseAt_accepted 0 (Or.inl rfl)
  refine ⟨record, rt', accepted, (@replays_runAll PyText.ascii plainConfig threeIntents .nil .empty authorizedOnce (releaseAt 0)
    record rt' accepted).mpr ?_⟩
  rintro ⟨before, found, _, _, changed⟩
  have version : (authorizedRuntime.records.get "a".toList).map IntentRecord.contextVersion = some 0 := by decide +kernel
  rw [show authorizedRuntime.records.get "a".toList = some before from found] at version
  exact changed (by rw [Option.some.inj version]; rfl)

/-- The release is turned into a withhold, and its replay is refused. -/
theorem releaseAt_changed_refused :
    ¬∀ (ops : List Operation) (report : Report) (record : IntentRecord) (rt' : Runtime),
      (report.call plainConfig).run (@runAll PyText.ascii plainConfig ops (plainRuntime threeIntents)) = .ok record rt' →
        report.Replays plainConfig record rt' := by
  intro replays
  obtain ⟨record, rt', accepted⟩ := releaseAt_accepted 1 (Or.inr rfl)
  refine (Report.replays_iff (@tracks_runAll PyText.ascii _ _ _ _ _) accepted).mp (replays authorizedOnce _ _ _ accepted) ?_
  obtain ⟨before, found⟩ : ∃ before, authorizedRuntime.records.get "a".toList = some before :=
    Option.isSome_iff_exists.mp (by decide +kernel)
  have fields : (authorizedRuntime.records.get "a".toList).map (fun r => (r.state, r.contextVersion)) =
    some (.authorized, 0) := by decide +kernel
  rw [found, Option.map_some, Option.some.injEq, Prod.mk.injEq] at fields
  refine ⟨before, found, fields.1, rfl, ?_⟩
  change (1 : Int) ≠ before.contextVersion
  rw [fields.2]
  decide

end Xair
