import Xair.Runtime.Metrics
import Xair.Server.Grounds

/-!
# The counters of a serving process

Requests also move records past the counters: a stop preempts, a batch drops its losers,
a restart finds a duplicate. All of that revokes, so every other counter stays exact.
-/

namespace Xair

open Library

variable [PyText] {cfg : SiteConfig}

namespace Site

omit [PyText] in
theorem closed_runs {α : Type} {m : RuntimeM α} (keeps : Moves KeepsClosed m) {s : Site} (closed : Closed s.runtime) :
    Closed (s.runs m).2.runtime := by
  rw [runtime_runs]
  exact keeps.finalState s.runtime closed

omit [PyText] in
theorem closed_reportWithheld (id reason : Str) (append : Fate) {s : Site} (closed : Closed s.runtime) :
    Closed (s.reportWithheld cfg id reason append).2.runtime := by
  unfold reportWithheld
  split
  · exact closed
  · split
    · exact closed
    · split
      · exact closed
      · split
        · exact closed_runs (closes_reportRelease cfg.config id false reason none none) (s := s.withStore _) closed
        · exact closed
        · exact closed

/-- No step of a request leaves the books open. -/
theorem closed_exec {c : SiteCommand} (served : c.Served) {s : Site} (closed : Closed s.runtime) :
    Closed (exec cfg c s).2.runtime := by
  cases c with
  | create intent => exact closed.same rfl rfl rfl
  | setPreconditions ref preconditions => exact closed.same rfl rfl rfl
  | prepare ref => exact closed.same rfl rfl rfl
  | admitIntent ref => exact closed_runs (closes_admitIntent cfg.config ref s.mono false) closed
  | process ticket ref call =>
    exact closed_runs (closes_processIntent cfg.config { call with now := s.clock, requeue := false } ref) closed
  | transition id state outcome reason =>
    obtain rfl : state = .revoked := served
    exact closed_runs (closes_transition rfl (by decide) id outcome reason) closed
  | install snapshot =>
    simp only [exec, installContextSnapshot]
    split
    · exact closed
    · exact closed.same rfl rfl rfl
  | recordCommit id committed reason seq => exact closed_runs (closes_recordCommit id committed reason seq) closed
  | reportRelease id released reason cv rv => exact closed_runs (closes_reportRelease cfg.config id released reason cv rv) closed
  | reportEffect id status detail => exact closed_runs (closes_reportEffect id status detail) closed
  | supervisoryRevoke id reason => exact closed_runs (closes_supervisoryRevoke id reason) closed
  | releaseTarget record => exact closed_runs (closes_releaseTarget record) closed
  | reportWithheld id reason append => exact closed_reportWithheld id reason append closed
  | setPolicy policy => exact closed.same rfl rfl rfl
  | registerAndSnapshot exprs =>
    simp only [exec]
    split <;> exact closed
  | update patch =>
    simp only [exec]
    split <;> exact closed
  | claimIntent id =>
    simp only [exec, claimIntent]
    split
    · split
      · split <;> exact closed
      · exact closed
    · exact closed
  | _ => exact closed

end Site

theorem closed_run (heap : Ref → ActionIntent) (policy : Policy) (cell : Cell) (events : List (PoolEvent (site cfg) (apiServer cfg))) :
    Closed ((firstStart cfg heap policy cell).run events).shared.runtime := by
  refine Pool.inv_run SiteCommand.Served (fun s : Site => Closed s.runtime) ?_ ?_ ?_ ?_ events
  · intro job t l
    exact Request.sends_served t job.request l
  · intro c s fate served closed
    rcases Service.perform_cases (site cfg) c s fate with same | ⟨_, executed⟩
    · rw [same]
      exact closed
    · rw [executed]
      exact Site.closed_exec served closed
  · intro change s closed
    cases change with
    | tick clock mono => exact closed
    | restart reached policy => cases reached <;> exact closed_init _ _ _
  · exact closed_init heap .nil policy

/-- In every state of every run of the server, whatever requests it serves at once, whichever of them fail half-way and however often
it is restarted: each counter of an outcome is the number of arrivals that the audit log shows, and of the revocations at least the
expiries are counted. -/
theorem counters_match_audit (heap : Ref → ActionIntent) (policy : Policy) (cell : Cell)
    (events : List (PoolEvent (site cfg) (apiServer cfg))) :
    ((firstStart cfg heap policy cell).run events).shared.runtime.Accounted :=
  (closed_run heap policy cell events).accounted

/-- In every state of every run of the server the counters are balanced: no intent is committed, or released or withheld, that was not
authorized, and no effect is known of one that was not released. -/
theorem counters_balanced (heap : Ref → ActionIntent) (policy : Policy) (cell : Cell)
    (events : List (PoolEvent (site cfg) (apiServer cfg))) :
    let rt := ((firstStart cfg heap policy cell).run events).shared.runtime
    rt.metrics.Balanced rt.registrations :=
  (closed_run heap policy cell events).balanced

end Xair
