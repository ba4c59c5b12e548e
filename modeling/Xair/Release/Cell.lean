import Xair.Data.Number

/-!
# The cell controller

`cell_controller.py`: an operator's writes of the line state, the persisted version,
and the scan that executes queued commands against the state as it is then.
-/

namespace Xair

/-- A queued command, with the number of the call that waits for its answer. -/
structure CellCommand where
  ticket : Nat
  intentId : Str
  expected : Option Int
  deadline : Option ℚ
  needsRun : Bool
  deriving DecidableEq

inductive CellAnswer where
  | versionChanged (version : Int)
  | predicateFalse (version : Int)
  | deadline (version : Int)
  | executed (state : Str) (version : Int)
  deriving DecidableEq

structure Cell where
  state : Str
  version : Int
  running : Bool
  pending : List CellCommand
  bridgeQueue : List (Str × Int)
  effects : Nat
  /-- The version in the state file, if there is one. -/
  persisted : Option Int
  deriving DecidableEq

def runState : Str := "RUN".toList

/-- A deadline of 0 or less is none. -/
def cellDeadline (deadlineMs : ℚ) : Option ℚ := if 0 < deadlineMs then some deadlineMs else none

/-- The method `Resume`. -/
def resume (ticket : Nat) (intentId : Str) : CellCommand := ⟨ticket, intentId, none, none, false⟩

/-- The method `ConditionalResume`. -/
def conditionalResume (ticket : Nat) (intentId : Str) (expected : Int) (deadlineMs : ℚ) : CellCommand :=
  ⟨ticket, intentId, some expected, cellDeadline deadlineMs, false⟩

/-- The method `PredicateResume`. -/
def predicateResume (ticket : Nat) (intentId : Str) (deadlineMs : ℚ) : CellCommand :=
  ⟨ticket, intentId, none, cellDeadline deadlineMs, true⟩

namespace Cell

/-- `__init__` with a state file; a first start takes the version from the clock, in microseconds. -/
def boot (persisted : Option Int) (clockUs : Int) : Cell :=
  let start := match persisted with
    | some version => version + 1
    | none => clockUs
  { state := runState, version := start, running := false, pending := [], bridgeQueue := [(runState, start)],
    effects := 0, persisted := some start }

/-- `set_state`. -/
def setState (c : Cell) (value : Str) : Cell :=
  let moved := if value ≠ c.state then
      { c with
        state := value
        version := c.version + 1
        persisted := some (c.version + 1)
        bridgeQueue := c.bridgeQueue ++ [(value, c.version + 1)] }
    else c
  if value ≠ runState then { moved with running := false } else moved

def enqueue (c : Cell) (command : CellCommand) : Cell := { c with pending := c.pending ++ [command] }

/-- The answer to one command. -/
def answer (c : Cell) (now : ℚ) (command : CellCommand) : CellAnswer :=
  if command.expected.any fun expected => decide (expected ≠ c.version) then .versionChanged c.version
  else if command.needsRun ∧ c.state ≠ runState then .predicateFalse c.version
  else if command.deadline.any fun deadline => decide (deadline < now) then .deadline c.version
  else .executed c.state c.version

/-- The effect of one command. -/
def perform (c : Cell) (now : ℚ) (command : CellCommand) : Cell :=
  match c.answer now command with
  | .executed _ _ => { c with effects := c.effects + 1, running := true }
  | _ => c

/-- `scan`: the cell after it, and the answers with the numbers of the calls. -/
def scan (c : Cell) (now : ℚ) : Cell × List (Nat × CellAnswer) :=
  (c.pending.foldl (fun c command => c.perform now command) { c with pending := [] },
    c.pending.map fun command => (command.ticket, c.answer now command))

/-- A command is executed only in the state that its conditions describe, before its deadline. -/
theorem executed_spec {c : Cell} {now : ℚ} {command : CellCommand} {state : Str} {version : Int}
    (h : c.answer now command = .executed state version) :
    state = c.state ∧ version = c.version ∧ (∀ expected, command.expected = some expected → expected = c.version) ∧
      (command.needsRun = true → c.state = runState) ∧ ∀ deadline, command.deadline = some deadline → now ≤ deadline := by
  unfold answer at h
  split at h
  · cases h
  rename_i matching
  split at h
  · cases h
  rename_i running
  split at h
  · cases h
  rename_i timely
  cases h
  refine ⟨rfl, rfl, fun expected asked => ?_, fun needs => ?_, fun deadline bound => ?_⟩
  · rw [asked] at matching
    simpa using matching
  · by_contra other
    exact running ⟨needs, other⟩
  · rw [bound] at timely
    exact Rat.not_lt.mp (by simpa using timely)

end Cell

end Xair
