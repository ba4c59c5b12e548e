import Xair.Gateway.Policy
import Xair.Server.Routine

/-!
# A deployment

Clients and gateways of one XAIR process, with the operator, the scans and the bridge of
the controller they release to. A message of the bridge is an update of the context like
any other: it may be lost, repeated or late.
-/

namespace Xair

open Library

inductive DeploymentJob where
  | request (request : Request)
  | gateway (q : GatewayQuery) (body : ActionIntent) (timedOut gateTimedOut : Nat → Nat → Bool)

inductive DeploymentResult where
  | response (response : Response)
  | gateway (result : GatewayResult)

/-- What happens by itself: the clocks, the operator, the controller and its bridge, and the PLC. -/
inductive DeploymentChange where
  | tick (clock mono : ℚ)
  | setState (value : Str)
  /-- The controller restarts on its state file. -/
  | boot (clockUs : Nat)
  /-- The bridge takes the next state from its queue. -/
  | announce
  /-- The bridge samples the present state. -/
  | sample
  | scan
  | plcAnswer (text : Str)

namespace Site

/-- `bridge_q.get()`. -/
def announce (s : Site) : Site :=
  match s.cell.bridgeQueue with
  | [] => s
  | line :: rest => { s with cell := { s.cell with bridgeQueue := rest }, announced := s.announced ++ [line] }

/-- The bridge with a sampling interval. -/
def sample (s : Site) : Site :=
  { s with cell := { s.cell with bridgeQueue := [] }, announced := s.announced ++ [(s.cell.state, s.cell.version)] }

/-- The command, if the controller executes it, with the line state and the version at this scan. -/
def executed (s : Site) (command : CellCommand) : Option (CellCommand × Str × Int) :=
  match s.cell.answer s.clock command with
  | .executed state version => some (command, state, version)
  | _ => none

/-- One scan of the controller. -/
def scan (s : Site) : Site :=
  { s with
    cell := (s.cell.scan s.clock).1
    answers := s.answers ++ (s.cell.scan s.clock).2
    executions := s.executions ++ s.cell.pending.filterMap s.executed }

end Site

def DeploymentChange.apply : DeploymentChange → Site → Site
  | tick clock mono, s => { s with clock := clock, mono := mono }
  | setState value, s => { s with cell := s.cell.setState value }
  | boot clockUs, s => { s with cell := .boot s.cell.persisted clockUs }
  | announce, s => s.announce
  | sample, s => s.sample
  | scan, s => s.scan
  | plcAnswer text, s => { s with plcAnswer := text }

section

variable [PyText] (cfg : SiteConfig)

def DeploymentJob.handle (ticket : Nat) : DeploymentJob → Handler cfg DeploymentResult
  | request r => do return .response (← r.handle cfg ticket)
  | gateway q body timedOut gateTimedOut => do return .gateway (← xairPolicy ticket q body timedOut gateTimedOut)

abbrev deployment : Workload (site cfg) where
  Job := DeploymentJob
  Local := Unit
  Out := Except HttpError DeploymentResult
  code job ticket l := (job.handle cfg ticket).program l
  Env := DeploymentChange
  env := DeploymentChange.apply

end

/-! ### What lies outside the process -/

/-- The controller, the bridge and the histories of the gateways are as they were. -/
structure Site.SameOutside (s s' : Site) : Prop where
  starts : s'.starts = s.starts
  reports : s'.reports = s.reports
  cell : s'.cell = s.cell
  announced : s'.announced = s.announced
  executions : s'.executions = s.executions

namespace Site

variable {s s' : Site}

theorem SameOutside.refl (s : Site) : s.SameOutside s := ⟨rfl, rfl, rfl, rfl, rfl⟩

theorem sameOutside_runs {α : Type} (m : RuntimeM α) (s : Site) : s.SameOutside (s.runs m).2 := by
  unfold runs
  split <;> exact ⟨rfl, rfl, rfl, rfl, rfl⟩

theorem sameOutside_reportWithheld {cfg : SiteConfig} (id reason : Str) (append : Fate) (s : Site) :
    s.SameOutside (s.reportWithheld cfg id reason append).2 := by
  unfold reportWithheld
  split
  · exact .refl s
  split
  · exact .refl s
  split
  · exact .refl s
  simp only
  split
  · obtain ⟨starts, reports, cell, announced, executions⟩ := sameOutside_runs
      (Xair.reportRelease cfg.config id false reason none none) (s.withStore (s.store.append (withheldTombstone id reason)))
    exact ⟨starts, reports, cell, announced, executions⟩
  · exact ⟨rfl, rfl, rfl, rfl, rfl⟩
  · exact .refl s

/-- Requests touch nothing outside the process. -/
theorem sameOutside_exec [PyText] {cfg : SiteConfig} {c : SiteCommand} (served : c.Served) (s : Site) :
    s.SameOutside (exec cfg c s).2 := by
  cases c with
  | sendReport report => exact served.elim
  | startCall ticket id witness => exact served.elim
  | actuateCell ticket command => exact served.elim
  | admitIntent ref => exact sameOutside_runs _ s
  | process ticket ref call =>
    obtain ⟨starts, reports, cell, announced, executions⟩ :=
      sameOutside_runs (processIntent cfg.config { call with now := s.clock, requeue := false } ref) s
    exact ⟨starts, reports, cell, announced, executions⟩
  | transition id state outcome reason => exact sameOutside_runs _ s
  | recordCommit id committed reason seq => exact sameOutside_runs _ s
  | reportRelease id released reason cv rv => exact sameOutside_runs _ s
  | reportEffect id status detail => exact sameOutside_runs _ s
  | supervisoryRevoke id reason => exact sameOutside_runs _ s
  | releaseTarget record => exact sameOutside_runs (releaseTarget record) s
  | reportWithheld id reason append => exact sameOutside_reportWithheld id reason append s
  | registerAndSnapshot exprs =>
    simp only [exec]
    split <;> exact ⟨rfl, rfl, rfl, rfl, rfl⟩
  | update patch =>
    simp only [exec]
    split <;> exact ⟨rfl, rfl, rfl, rfl, rfl⟩
  | claimIntent id =>
    simp only [exec, claimIntent]
    split
    · split
      · split <;> exact ⟨rfl, rfl, rfl, rfl, rfl⟩
      · exact ⟨rfl, rfl, rfl, rfl, rfl⟩
    · exact ⟨rfl, rfl, rfl, rfl, rfl⟩
  | _ => exact ⟨rfl, rfl, rfl, rfl, rfl⟩

end Site

end Xair
