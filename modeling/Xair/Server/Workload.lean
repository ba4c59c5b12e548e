import Xair.Server.Endpoints

/-!
# Requests to a running site

Any number of requests at once, over the restarts of the process. A restart loses the
memory of the process; the store keeps what it has.
-/

namespace Xair

open Library

inductive Request where
  | submit (body : Option ActionIntent) (timedOut : Nat → Nat → Bool)
  | batch (bodies : List (Except BatchResult ActionIntent)) (timedOut : Ref → Nat → Nat → Bool)
  | commit (id : Str) (scope : Scope) (marginMs : ℚ)
  | release (id : Str) (released : Bool) (reason : Str) (contextVersion readSetVersion : Option Int)
      (effect : Option (EffectStatus × Str))
  | effect (id : Str) (status : EffectStatus) (detail : Str)
  | withheld (id reason : Str) (append : Fate)
  | revoke (id : Str)
  | update (patch : Members)
  | snapshot (exprs : Option (List Str)) (id : Option Str)
  | policy (policy : Policy)

inductive Response where
  | submitted (answer : SubmitAnswer)
  | batch (results : List BatchResult)
  | commit (answer : CommitAnswer)
  | record (record : IntentRecord)
  | snapshot (doc : SnapshotDoc) (state : Option IntentState)
  | done

/-- A request, and which process it was sent to: the first one or the one after so many restarts. -/
structure HttpJob where
  life : Nat
  request : Request

/-- The clocks move, or the process is restarted with the context it finds. -/
inductive SiteChange where
  | tick (clock mono : ℚ)
  | restart (context : Members) (policy : Policy)

namespace Site

/-- What a restart keeps is the store with the claims, and everything outside the process. -/
def restart (context : Members) (policy : Policy) (s : Site) : Site :=
  { s with
    runtime := .init s.runtime.heap context policy
    view := .empty
    stopLock := none
    life := s.life + 1 }

end Site

def SiteChange.apply : SiteChange → Site → Site
  | tick clock mono, s => { s with clock := clock, mono := mono }
  | restart context policy, s => s.restart context policy

/-- A site as it is first started. -/
def Site.init (heap : Ref → ActionIntent) (context : Members) (policy : Policy) (cell : Cell) : Site where
  runtime := .init heap context policy
  allocated := 0
  store := .init
  view := .empty
  claims := Dict.empty
  stopLock := none
  clock := 0
  mono := 0
  cell := cell
  announced := []
  answers := []
  plcAnswer := []
  life := 0
  passes := []
  authorizations := []
  starts := []
  reports := []
  executions := []

section

variable [PyText] (cfg : SiteConfig)

def Request.handle (ticket : Nat) : Request → Handler cfg Response
  | submit body timedOut => do return .submitted (← submitIntent ticket body timedOut)
  | batch bodies timedOut => do return .batch (← submitIntentBatch ticket bodies timedOut)
  | commit id scope marginMs => do return .commit (← commitIntent id scope marginMs)
  | release id released reason contextVersion readSetVersion observed => do
    return .record (← releaseReport id released reason contextVersion readSetVersion observed)
  | effect id status detail => do return .record (← effectReport id status detail)
  | withheld id reason append => do return .record (← withheldReport id reason append)
  | revoke id => do return .record (← revokeIntent id)
  | update patch => do
    updateContextStore patch
    return .done
  | snapshot exprs id => do
    let (doc, state) ← contextSnapshot exprs id
    return .snapshot doc state
  | policy installed => do
    putPolicy installed
    return .done

abbrev endpoints : Workload (site cfg) where
  Job := HttpJob
  Local := Unit
  Out := Except HttpError Response
  code job ticket l := (job.request.handle cfg ticket).program l
  Env := SiteChange
  env := SiteChange.apply

end

end Xair
