import Xair.Release.Cell

/-!
# The controller on a PLC

The Structured Text program `cell_ctl`, one scan at a time on its 16-bit registers, beside
the emulated controller that is fed the same writes.
-/

namespace Xair

/-- The registers of `cell_ctl`, and whether its first scan is over. -/
structure CellCtl where
  lineState : Int16
  version : Int16
  setReq : Int16
  cmdSeq : Int16
  cmdMode : Int16
  cmdExpected : Int16
  cmdDone : Int16
  cmdResult : Int16
  effects : Int16
  conveyor : Int16
  versionEpoch : Int16
  cmdExpectedEpoch : Int16
  booted : Bool
  deriving DecidableEq

namespace CellCtl

/-- Before the first scan every register has the default value of its type. -/
def start : CellCtl := ⟨0, 0, 0, 0, 0, 0, 0, 0, 0, 0, 0, 0, false⟩

def boot (r : CellCtl) : CellCtl :=
  if r.booted then r
  else
    { r with
      lineState := 1
      version := 0
      setReq := -1
      cmdSeq := 0
      cmdDone := 0
      cmdMode := 0
      cmdExpected := -1
      conveyor := 0
      versionEpoch := 0
      cmdExpectedEpoch := -1
      booted := true }

/-- The pair of counter and epoch moves on. -/
def advance (r : CellCtl) : CellCtl :=
  if 32767 ≤ r.version then
    if 32767 ≤ r.versionEpoch then { r with version := 0, versionEpoch := 0 }
    else { r with version := 0, versionEpoch := r.versionEpoch + 1 }
  else { r with version := r.version + 1 }

def moveLine (r : CellCtl) : CellCtl := if r.setReq ≠ r.lineState then advance { r with lineState := r.setReq } else r

def stopConveyor (r : CellCtl) : CellCtl := if r.setReq = 0 then { r with conveyor := 0 } else r

/-- The operator's request. -/
def request (r : CellCtl) : CellCtl := if 0 ≤ r.setReq then { r.moveLine.stopConveyor with setReq := -1 } else r

/-- The command may be executed. -/
def Admits (r : CellCtl) : Prop :=
  r.cmdMode = 0 ∨ r.cmdMode = 2 ∨
    r.cmdMode = 1 ∧ 0 ≤ r.cmdExpected ∧ r.cmdExpected = r.version ∧ r.cmdExpectedEpoch = r.versionEpoch

instance (r : CellCtl) : Decidable r.Admits := inferInstanceAs (Decidable (_ ∨ _ ∨ _))

/-- The effect and the result of a command. -/
def answer (r : CellCtl) : CellCtl :=
  if r.cmdMode = 2 ∧ r.lineState ≠ 1 then { r with cmdResult := 4 }
  else if r.Admits then
    { r with effects := r.effects + 1, conveyor := 1, cmdResult := if r.lineState = 1 then 1 else 2 }
  else { r with cmdResult := 3 }

def command (r : CellCtl) : CellCtl := if r.cmdSeq ≠ r.cmdDone then { r.answer with cmdDone := r.cmdSeq } else r

def scan (r : CellCtl) : CellCtl := r.boot.request.command

end CellCtl

/-! ### What is written before a scan -/

inductive LineMode where
  | run | paused
  deriving DecidableEq

def LineMode.text : LineMode → Str
  | run => runState
  | paused => "PAUSED".toList

def LineMode.register : LineMode → Int16
  | run => 1
  | paused => 0

inductive CtlMode where
  | plain | version | predicate
  deriving DecidableEq

def CtlMode.register : CtlMode → Int16
  | plain => 0
  | version => 1
  | predicate => 2

/-- An expected version and the two registers that carry it. Registers that are not both positive or 0 carry a
value that no version has within 2^30 changes of the line state. -/
structure ExpectedVersion where
  value : Int
  counter : Int16
  epoch : Int16
  carried : 0 ≤ counter → 0 ≤ epoch → value = epoch.toInt * 32768 + counter.toInt
  foreign : counter < 0 ∨ epoch < 0 → value < 0 ∨ 2 ^ 30 ≤ value

theorem split_counter (value : Int) : (Int16.ofInt (value % 32768)).toInt = value % 32768 := by
  rw [Int16.toInt_ofInt, Int.bmod_eq_of_le] <;> simp only [Int16.size] <;> omega

theorem split_epoch {value : Int} (fits : -2 ^ 30 ≤ value ∧ value < 2 ^ 31) :
    (Int16.ofInt (value / 32768)).toInt = if value < 2 ^ 30 then value / 32768 else value / 32768 - 65536 := by
  rw [Int16.toInt_ofInt]
  split
  · rw [Int.bmod_eq_of_le] <;> simp only [Int16.size] <;> omega
  · rw [← Int.sub_bmod_right, Int.bmod_eq_of_le] <;> simp only [Int16.size] <;> omega

/-- `exp, exp_epoch` of `PLC.command`: the remainder and the quotient, cut to 16 bits. -/
def ExpectedVersion.split (value : Int) (fits : -2 ^ 30 ≤ value ∧ value < 2 ^ 31) : ExpectedVersion where
  value := value
  counter := .ofInt (value % 32768)
  epoch := .ofInt (value / 32768)
  carried counter epoch := by
    rw [Int16.le_iff_toInt_le, split_epoch fits] at epoch
    rw [split_counter, split_epoch fits]
    simp only [Int16.toInt_zero] at epoch
    split at epoch <;> rename_i range <;> simp only [range, if_true, if_false] <;> omega
  foreign negative := by
    rw [Int16.lt_iff_toInt_lt, Int16.lt_iff_toInt_lt, split_counter, split_epoch fits] at negative
    simp only [Int16.toInt_zero] at negative
    split at negative <;> omega

/-- A command as a client writes it to the PLC. -/
structure CtlCommand where
  seq : Int16
  mode : CtlMode
  expected : ExpectedVersion
  ticket : Nat
  intentId : Str

/-- The same command as a method of the emulated controller, without a deadline. -/
def CtlCommand.method (c : CtlCommand) : CellCommand :=
  match c.mode with
  | .plain => resume c.ticket c.intentId
  | .version => conditionalResume c.ticket c.intentId c.expected.value 0
  | .predicate => predicateResume c.ticket c.intentId 0

/-- What the clients write before a scan: at most one request of the operator and one command. -/
structure ScanInput where
  request : Option LineMode
  command : Option CtlCommand
  now : ℚ

namespace CellCtl

def writeRequest (r : CellCtl) : Option LineMode → CellCtl
  | none => r
  | some mode => { r with setReq := mode.register }

def writeCommand (r : CellCtl) : Option CtlCommand → CellCtl
  | none => r
  | some c =>
    { r with
      cmdSeq := c.seq
      cmdMode := c.mode.register
      cmdExpected := c.expected.counter
      cmdExpectedEpoch := c.expected.epoch }

/-- A command is new if its sequence number is not that of the last one done. -/
def fresh (r : CellCtl) (command : Option CtlCommand) : Option CtlCommand := command.filter fun c => decide (c.seq ≠ r.cmdDone)

end CellCtl

namespace Cell

/-- `__init__` with a version seed. -/
def seeded (seed : Int) : Cell := .boot none seed

def writeRequest (c : Cell) : Option LineMode → Cell
  | none => c
  | some mode => c.setState mode.text

def writeCommand (c : Cell) : Option CtlCommand → Cell
  | none => c
  | some command => c.enqueue command.method

end Cell

/-- Both controllers, with the results and the answers so far. -/
structure Twin where
  ctl : CellCtl
  cell : Cell
  results : List Int16
  answers : List CellAnswer

namespace Twin

/-- After the boot scan, whatever was written before it. -/
def boot (input : ScanInput) : Twin :=
  ⟨((CellCtl.start.writeRequest input.request).writeCommand input.command).scan, .seeded 0, [], []⟩

/-- One scan of both on the same writes. -/
def scan (t : Twin) (input : ScanInput) : Twin :=
  let command := t.ctl.fresh input.command
  let ctl := ((t.ctl.writeRequest input.request).writeCommand input.command).scan
  let cell := ((t.cell.writeRequest input.request).writeCommand command).scan input.now
  { ctl := ctl
    cell := cell.1
    results := t.results ++ (if command.isSome then [ctl.cmdResult] else [])
    answers := t.answers ++ cell.2.map Prod.snd }

def run (t : Twin) (inputs : List ScanInput) : Twin := inputs.foldl scan t

end Twin

/-- How often the operator changes the line state. -/
def stateChanges : LineMode → List ScanInput → Nat
  | _, [] => 0
  | mode, input :: rest =>
    match input.request with
    | none => stateChanges mode rest
    | some next => (if next ≠ mode then 1 else 0) + stateChanges next rest

/-- The results 1, 2, 3 and 4. -/
def CellAnswer.Result : CellAnswer → Int16 → Prop
  | executed state _, result => state = runState ∧ result = 1 ∨ state = LineMode.paused.text ∧ result = 2
  | versionChanged _, result => result = 3
  | predicateFalse _, result => result = 4
  | deadline _, _ => False

/-! ### One scan -/

/-- The PLC is where the emulated controller is, with nothing left to do. -/
structure CellCtl.Simulates (r : CellCtl) (mode : LineMode) (c : Cell) : Prop where
  booted : r.booted = true
  line : r.lineState = mode.register
  state : c.state = mode.text
  conveyor : r.conveyor = if c.running then 1 else 0
  effects : r.effects.toInt % 65536 = c.effects % 65536
  counter : 0 ≤ r.version.toInt
  epoch : 0 ≤ r.versionEpoch.toInt
  version : c.version = r.versionEpoch.toInt * 32768 + r.version.toInt
  unasked : r.setReq = -1
  done : r.cmdDone = r.cmdSeq
  idle : c.pending = []

namespace CellCtl

variable {r : CellCtl} {mode : LineMode} {c : Cell}

theorem boot_booted (h : r.booted = true) : r.boot = r := if_pos h

theorem advance_spec (counter : 0 ≤ r.version.toInt) (epoch : 0 ≤ r.versionEpoch.toInt)
    (few : r.versionEpoch.toInt * 32768 + r.version.toInt + 1 < 2 ^ 30) :
    ∃ counter' epoch' : Int16, r.advance = { r with version := counter', versionEpoch := epoch' } ∧ 0 ≤ counter'.toInt ∧
      0 ≤ epoch'.toInt ∧ epoch'.toInt * 32768 + counter'.toInt = r.versionEpoch.toInt * 32768 + r.version.toInt + 1 := by
  have bound : (32767 : Int16).toInt = 32767 := by decide
  have least := r.version.toInt_lt
  have least' := r.versionEpoch.toInt_lt
  unfold advance
  by_cases wraps : 32767 ≤ r.version
  · have full : r.version.toInt = 32767 := by
      have := Int16.le_iff_toInt_le.mp wraps
      omega
    have below : ¬32767 ≤ r.versionEpoch := fun last => by
      have := Int16.le_iff_toInt_le.mp last
      omega
    rw [if_pos wraps, if_neg below]
    refine ⟨0, r.versionEpoch + 1, rfl, by decide, ?_, ?_⟩ <;> rw [Int16.toInt_add] <;> simp [Int.bmod] <;> omega
  · rw [if_neg wraps]
    have below : r.version.toInt < 32767 := by
      have := mt Int16.le_iff_toInt_le.mpr wraps
      omega
    refine ⟨r.version + 1, r.versionEpoch, rfl, ?_, epoch, ?_⟩ <;> rw [Int16.toInt_add] <;> simp [Int.bmod] <;> omega

/-! The request reads and writes none of the command's registers. -/

theorem advance_writeCommand (r : CellCtl) (command : Option CtlCommand) :
    (r.writeCommand command).advance = r.advance.writeCommand command := by
  cases command with
  | none => rfl
  | some x =>
    simp only [writeCommand, advance]
    by_cases wraps : 32767 ≤ r.version <;> by_cases last : 32767 ≤ r.versionEpoch <;> simp [wraps, last]

theorem moveLine_writeCommand (r : CellCtl) (command : Option CtlCommand) :
    (r.writeCommand command).moveLine = r.moveLine.writeCommand command := by
  cases command with
  | none => rfl
  | some x =>
    have asks : (r.writeCommand (some x)).setReq ≠ (r.writeCommand (some x)).lineState ↔ r.setReq ≠ r.lineState := Iff.rfl
    by_cases moves : r.setReq ≠ r.lineState
    · rw [moveLine, moveLine, if_pos moves, if_pos (asks.mpr moves)]
      exact advance_writeCommand { r with lineState := r.setReq } (some x)
    · rw [moveLine, moveLine, if_neg moves, if_neg (mt asks.mp moves)]

theorem stopConveyor_writeCommand (r : CellCtl) (command : Option CtlCommand) :
    (r.writeCommand command).stopConveyor = r.stopConveyor.writeCommand command := by
  cases command with
  | none => rfl
  | some x =>
    simp only [writeCommand, stopConveyor]
    by_cases pauses : r.setReq = 0 <;> simp [pauses]

theorem request_writeCommand (r : CellCtl) (command : Option CtlCommand) :
    (r.writeCommand command).request = r.request.writeCommand command := by
  have asked : (r.writeCommand command).setReq = r.setReq := by cases command <;> rfl
  unfold request
  rw [asked, moveLine_writeCommand, stopConveyor_writeCommand]
  split
  · cases command <;> rfl
  · rfl

/-- The line state that is asked for, and the version of the change if it is one. -/
theorem moveLine_spec {next : LineMode} (line : r.lineState = mode.register) (asked : r.setReq = next.register)
    (counter : 0 ≤ r.version.toInt) (epoch : 0 ≤ r.versionEpoch.toInt)
    (few : r.versionEpoch.toInt * 32768 + r.version.toInt + (if next ≠ mode then 1 else 0) < 2 ^ 30) :
    ∃ counter' epoch' : Int16,
      r.moveLine = { r with lineState := next.register, version := counter', versionEpoch := epoch' } ∧
        0 ≤ counter'.toInt ∧ 0 ≤ epoch'.toInt ∧ epoch'.toInt * 32768 + counter'.toInt =
          r.versionEpoch.toInt * 32768 + r.version.toInt + (if next ≠ mode then 1 else 0) := by
  have registers : next.register ≠ mode.register ↔ next ≠ mode := by cases next <;> cases mode <;> decide
  unfold moveLine
  by_cases moves : next ≠ mode
  · rw [if_pos moves] at few ⊢
    rw [if_pos (by rw [asked, line]; exact registers.mpr moves)]
    obtain ⟨counter', epoch', advanced, counted, epochs, total⟩ := advance_spec (r := { r with lineState := r.setReq })
      counter epoch few
    exact ⟨counter', epoch', advanced.trans (by rw [asked]), counted, epochs, total⟩
  · rw [if_neg moves, Int.add_zero]
    rw [if_neg (by rw [asked, line]; exact mt registers.mp moves)]
    obtain rfl := not_not.mp moves
    exact ⟨r.version, r.versionEpoch, by rw [← line], counter, epoch, rfl⟩

/-- The operator's write at the emulated controller. -/
theorem setState_spec (next : LineMode) (state : c.state = mode.text) :
    (c.setState next.text).state = next.text ∧
      (c.setState next.text).version = c.version + (if next ≠ mode then 1 else 0) ∧
      (c.setState next.text).running = (decide (next = .run) && c.running) ∧ (c.setState next.text).effects = c.effects ∧
      (c.setState next.text).pending = c.pending := by
  unfold Cell.setState
  rw [state]
  cases next <;> cases mode <;> simp [LineMode.text, runState, state]

/-- The operator's request, or none, at both controllers. -/
theorem Simulates.request (h : r.Simulates mode c) (asked : Option LineMode)
    (few : c.version + (if asked.getD mode ≠ mode then 1 else 0) < 2 ^ 30) :
    (r.writeRequest asked).request.Simulates (asked.getD mode) (c.writeRequest asked) ∧
      (c.writeRequest asked).version = c.version + (if asked.getD mode ≠ mode then 1 else 0) ∧
      (r.writeRequest asked).request.cmdDone = r.cmdDone := by
  cases asked with
  | none =>
    have same : r.request = r := by
      rw [CellCtl.request, h.unasked]
      exact if_neg (by decide)
    simp only [writeRequest, Cell.writeRequest, Option.getD_none, same]
    exact ⟨h, by simp, trivial⟩
  | some next =>
    have asks : 0 ≤ next.register := by cases next <;> decide
    obtain ⟨state, version, running, effects, pending⟩ := setState_spec next h.state
    rw [Option.getD_some, h.version] at few
    obtain ⟨counter', epoch', moved, counted, epochs, total⟩ := moveLine_spec (r := { r with setReq := next.register })
      h.line rfl h.counter h.epoch few
    rw [Option.getD_some, writeRequest, CellCtl.request, if_pos asks, moved]
    have versions : (c.setState next.text).version = epoch'.toInt * 32768 + counter'.toInt := by rw [version, h.version, total]
    have counts : r.effects.toInt % 65536 = (c.setState next.text).effects % 65536 := by rw [effects, h.effects]
    cases next with
    | run =>
      have conveyor : r.conveyor = if (c.setState LineMode.run.text).running then 1 else 0 := by rw [running, h.conveyor]; rfl
      exact ⟨⟨h.booted, rfl, state, conveyor, counts, counted, epochs, versions, rfl, h.done, pending.trans h.idle⟩, version, rfl⟩
    | paused =>
      have conveyor : (0 : Int16) = if (c.setState LineMode.paused.text).running then 1 else 0 := by rw [running]; rfl
      exact ⟨⟨h.booted, rfl, state, conveyor, counts, counted, epochs, versions, rfl, h.done, pending.trans h.idle⟩, version, rfl⟩

/-- One more effect, in the register and in the count. -/
theorem effects_succ {effects : Int16} {n : Nat} (same : effects.toInt % 65536 = n % 65536) :
    (effects + 1).toInt % 65536 = (n + 1 : Nat) % 65536 := by
  have sum : (effects + 1).toInt = (effects.toInt + 1).bmod 65536 := Int16.toInt_add effects 1
  have wraps : (effects.toInt + 1).bmod 65536 % 65536 = (effects.toInt + 1) % 65536 := Int.bmod_emod
  rw [sum, wraps]
  push_cast
  omega

/-- The registers match the pair of counter and epoch only if the value is the version. -/
theorem Simulates.matches_iff (h : r.Simulates mode c) (few : c.version < 2 ^ 30) (expected : ExpectedVersion) :
    0 ≤ expected.counter ∧ expected.counter = r.version ∧ expected.epoch = r.versionEpoch ↔ expected.value = c.version := by
  have zero : (0 : Int16).toInt = 0 := by decide
  obtain ⟨counter, epoch, version⟩ := And.intro h.counter (And.intro h.epoch h.version)
  have below := r.version.toInt_lt
  have below' := expected.counter.toInt_lt
  constructor
  · rintro ⟨asked, counted, epochs⟩
    rw [version, ← counted, ← epochs]
    exact expected.carried asked (Int16.le_iff_toInt_le.mpr (by rw [epochs, zero]; exact epoch))
  · intro same
    have asked : 0 ≤ expected.counter ∧ 0 ≤ expected.epoch := by
      by_contra negative
      have foreign := expected.foreign (by rwa [not_and_or, Int16.not_le, Int16.not_le] at negative)
      omega
    have carried := expected.carried asked.1 asked.2
    have positive := Int16.le_iff_toInt_le.mp asked.1
    have positive' := Int16.le_iff_toInt_le.mp asked.2
    rw [zero] at positive positive'
    exact ⟨asked.1, Int16.toInt_inj.mp (by omega), Int16.toInt_inj.mp (by omega)⟩

theorem Simulates.refused (h : r.Simulates mode c) (x : CtlCommand) (result : Int16) :
    ({ r.writeCommand (some x) with cmdResult := result, cmdDone := x.seq } : CellCtl).Simulates mode { c with pending := [] } :=
  ⟨h.booted, h.line, h.state, h.conveyor, h.effects, h.counter, h.epoch, h.version, h.unasked, rfl, rfl⟩

theorem Simulates.executed (h : r.Simulates mode c) (x : CtlCommand) (result : Int16) :
    ({ r.writeCommand (some x) with
        effects := r.effects + 1, conveyor := 1, cmdResult := result, cmdDone := x.seq } : CellCtl).Simulates mode
      { c with pending := [], effects := c.effects + 1, running := true } :=
  ⟨h.booted, h.line, h.state, rfl, effects_succ h.effects, h.counter, h.epoch, h.version, h.unasked, rfl, rfl⟩

/-- What the emulated controller answers to a command without a deadline. -/
theorem answer_method (c : Cell) (now : ℚ) (x : CtlCommand) : c.answer now x.method =
    if x.mode = .version ∧ x.expected.value ≠ c.version then .versionChanged c.version
    else if x.mode = .predicate ∧ c.state ≠ runState then .predicateFalse c.version
    else .executed c.state c.version := by
  obtain ⟨seq, asked, expected, ticket, id⟩ := x
  cases asked <;> simp [Cell.answer, CtlCommand.method, resume, conditionalResume, predicateResume, cellDeadline]

theorem perform_executed {now : ℚ} {command : CellCommand} {state : Str} {version : Int}
    (h : c.answer now command = .executed state version) :
    c.perform now command = { c with effects := c.effects + 1, running := true } := by
  rw [Cell.perform, h]

theorem perform_refused {now : ℚ} {command : CellCommand} {answer : CellAnswer} (h : c.answer now command = answer)
    (refuses : ∀ state version, answer ≠ .executed state version) : c.perform now command = c := by
  rw [Cell.perform, h]
  cases answer with
  | executed state version => exact absurd rfl (refuses state version)
  | _ => rfl

theorem perform_version (c : Cell) (now : ℚ) (command : CellCommand) : (c.perform now command).version = c.version := by
  unfold Cell.perform
  split <;> rfl

/-- A scan with one command in the queue. -/
theorem scan_enqueue (idle : c.pending = []) (now : ℚ) (command : CellCommand) :
    (c.enqueue command).scan now = (({ c with pending := [] } : Cell).perform now command, [(command.ticket, c.answer now command)]) := by
  simp only [Cell.scan, Cell.enqueue, idle, List.nil_append, List.foldl_cons, List.foldl_nil, List.map_cons, List.map_nil]
  rfl

/-- A new command is executed by both or refused by both, for the same reason. -/
theorem Simulates.answered (h : r.Simulates mode c) (x : CtlCommand) (new : x.seq ≠ r.cmdDone) (now : ℚ) (few : c.version < 2 ^ 30) :
    (r.writeCommand (some x)).command.Simulates mode (({ c with pending := [] } : Cell).perform now x.method) ∧
      (c.answer now x.method).Result (r.writeCommand (some x)).command.cmdResult := by
  have line : r.lineState = 1 ↔ c.state = runState := by rw [h.line, h.state]; cases mode <;> decide
  have mode_version : x.mode.register = 1 ↔ x.mode = .version := by cases x.mode <;> decide
  have mode_predicate : x.mode.register = 2 ↔ x.mode = .predicate := by cases x.mode <;> decide
  have mode_plain : x.mode.register = 0 ↔ x.mode = .plain := by cases x.mode <;> decide
  have done : (r.writeCommand (some x)).command = { (r.writeCommand (some x)).answer with cmdDone := x.seq } := if_pos new
  have same : ({ c with pending := [] } : Cell).answer now x.method = c.answer now x.method := rfl
  have interlock : (r.writeCommand (some x)).cmdMode = 2 ∧ (r.writeCommand (some x)).lineState ≠ 1 ↔
      x.mode = .predicate ∧ c.state ≠ runState := and_congr mode_predicate (not_congr line)
  have admits : (r.writeCommand (some x)).Admits ↔ x.mode = .plain ∨ x.mode = .predicate ∨ x.mode = .version ∧ x.expected.value = c.version :=
    or_congr mode_plain (or_congr mode_predicate (and_congr mode_version (h.matches_iff few x.expected)))
  have refusal : ∀ result answer, (r.writeCommand (some x)).answer = { r.writeCommand (some x) with cmdResult := result } →
      c.answer now x.method = answer → (∀ state version, answer ≠ .executed state version) → answer.Result result →
      (r.writeCommand (some x)).command.Simulates mode (({ c with pending := [] } : Cell).perform now x.method) ∧
        (c.answer now x.method).Result (r.writeCommand (some x)).command.cmdResult := by
    intro result answer ctl cell refuses agree
    rw [done, ctl, perform_refused (same.trans cell) refuses, cell]
    exact ⟨h.refused x result, agree⟩
  by_cases changed : x.mode = .version ∧ x.expected.value ≠ c.version
  · have inadmissible : ¬(r.writeCommand (some x)).Admits := fun admitted => by
      rcases admits.mp admitted with plain | predicate | ⟨_, matching⟩
      · exact nomatch changed.1.symm.trans plain
      · exact nomatch changed.1.symm.trans predicate
      · exact changed.2 matching
    refine refusal 3 (.versionChanged c.version) ?_ ((answer_method c now x).trans (if_pos changed)) (fun _ _ same => nomatch same) rfl
    exact (if_neg fun held => nomatch changed.1.symm.trans (interlock.mp held).1).trans (if_neg inadmissible)
  by_cases paused : x.mode = .predicate ∧ c.state ≠ runState
  · refine refusal 4 (.predicateFalse c.version) (if_pos (interlock.mpr paused)) ?_ (fun _ _ same => nomatch same) rfl
    exact (answer_method c now x).trans ((if_neg changed).trans (if_pos paused))
  have admitted : (r.writeCommand (some x)).Admits := by
    refine admits.mpr ?_
    cases asked : x.mode with
    | plain => exact Or.inl rfl
    | predicate => exact Or.inr (Or.inl rfl)
    | version => exact Or.inr (Or.inr ⟨rfl, not_not.mp fun differs => changed ⟨asked, differs⟩⟩)
  have cell : c.answer now x.method = .executed c.state c.version :=
    (answer_method c now x).trans ((if_neg changed).trans (if_neg paused))
  have ctl : (r.writeCommand (some x)).answer = { r.writeCommand (some x) with
      effects := r.effects + 1, conveyor := 1, cmdResult := if r.lineState = 1 then 1 else 2 } :=
    (if_neg (mt interlock.mp paused)).trans (if_pos admitted)
  rw [done, ctl, perform_executed (same.trans cell), cell]
  refine ⟨h.executed x _, ?_⟩
  by_cases running : c.state = runState
  · exact Or.inl ⟨running, if_pos (line.mpr running)⟩
  · refine Or.inr ⟨?_, if_neg (mt line.mp running)⟩
    rw [h.state] at running ⊢
    cases mode with
    | run => exact absurd rfl running
    | paused => rfl

/-- The command, if it is new, at both controllers. -/
theorem Simulates.command (h : r.Simulates mode c) (input : Option CtlCommand) (now : ℚ) (few : c.version < 2 ^ 30) :
    (r.writeCommand input).command.Simulates mode ((c.writeCommand (r.fresh input)).scan now).1 ∧
      ((c.writeCommand (r.fresh input)).scan now).1.version = c.version ∧
      List.Forall₂ CellAnswer.Result (((c.writeCommand (r.fresh input)).scan now).2.map Prod.snd)
        (if (r.fresh input).isSome then [(r.writeCommand input).command.cmdResult] else []) := by
  have quiet : ∀ r : CellCtl, r.Simulates mode c → r.command.Simulates mode (c.scan now).1 ∧ (c.scan now).1.version = c.version ∧
      List.Forall₂ CellAnswer.Result ((c.scan now).2.map Prod.snd) [] := by
    intro r h
    have none_new : r.command = r := if_neg (not_not.mpr h.done.symm)
    have scanned : c.scan now = (c, []) := by
      simp only [Cell.scan, h.idle, List.foldl_nil, List.map_nil]
      rw [← h.idle]
    rw [none_new, scanned]
    exact ⟨h, rfl, .nil⟩
  cases input with
  | none => exact quiet r h
  | some x =>
    by_cases new : x.seq ≠ r.cmdDone
    · have taken : r.fresh (some x) = some x := by simp [fresh, new]
      rw [taken, Cell.writeCommand, scan_enqueue h.idle]
      obtain ⟨simulates, result⟩ := h.answered x new now few
      exact ⟨simulates, perform_version _ now x.method, .cons result .nil⟩
    · have ignored : r.fresh (some x) = none := by simp [fresh, not_not.mp new]
      rw [ignored]
      exact quiet (r.writeCommand (some x)) ⟨h.booted, h.line, h.state, h.conveyor, h.effects, h.counter, h.epoch, h.version,
        h.unasked, (not_not.mp new).symm, h.idle⟩

/-- One scan of both. -/
theorem Simulates.scan (h : r.Simulates mode c) (input : ScanInput)
    (few : c.version + (if input.request.getD mode ≠ mode then 1 else 0) < 2 ^ 30) {results : List Int16} {answers : List CellAnswer}
    (agree : List.Forall₂ CellAnswer.Result answers results) :
    let t := Twin.scan ⟨r, c, results, answers⟩ input
    t.ctl.Simulates (input.request.getD mode) t.cell ∧
      t.cell.version = c.version + (if input.request.getD mode ≠ mode then 1 else 0) ∧
      List.Forall₂ CellAnswer.Result t.answers t.results := by
  obtain ⟨requested, version, done⟩ := h.request input.request few
  have taken : r.fresh input.command = (r.writeRequest input.request).request.fresh input.command := by rw [fresh, fresh, done]
  have scanned : ((r.writeRequest input.request).writeCommand input.command).scan =
      ((r.writeRequest input.request).request.writeCommand input.command).command := by
    have booted : ((r.writeRequest input.request).writeCommand input.command).booted = true := by
      cases input.request <;> cases input.command <;> exact h.booted
    rw [CellCtl.scan, boot_booted booted, request_writeCommand]
  obtain ⟨simulates, kept, last⟩ := requested.command input.command input.now (version ▸ few)
  simp only [Twin.scan, scanned, taken]
  exact ⟨simulates, kept.trans version, List.rel_append agree last⟩

end CellCtl

/-! ### Any number of scans -/

theorem Twin.simulates_run {t : Twin} {mode : LineMode} (h : t.ctl.Simulates mode t.cell)
    (agree : List.Forall₂ CellAnswer.Result t.answers t.results) {inputs : List ScanInput}
    (few : t.cell.version + stateChanges mode inputs < 2 ^ 30) :
    ∃ mode', (t.run inputs).ctl.Simulates mode' (t.run inputs).cell ∧
      List.Forall₂ CellAnswer.Result (t.run inputs).answers (t.run inputs).results := by
  induction inputs generalizing t mode with
  | nil => exact ⟨mode, h, agree⟩
  | cons input rest ih =>
    have split : (stateChanges mode (input :: rest) : Int) =
        (if input.request.getD mode ≠ mode then 1 else 0) + stateChanges (input.request.getD mode) rest := by
      rw [stateChanges]
      cases input.request with
      | none => simp
      | some next => by_cases moves : next = mode <;> simp [moves]
    rw [split] at few
    obtain ⟨simulates, version, agree'⟩ := h.scan input (by omega) agree
    exact ih simulates agree' (by rw [show ((t.scan input).cell.version) = _ from version]; omega)

/-- Whatever was written before the boot scan. -/
theorem Twin.simulates_boot (input : ScanInput) : (Twin.boot input).ctl.Simulates .run (Twin.boot input).cell := by
  have zero : (0 : Int16).toInt = 0 := by decide
  have writes : ∀ r : CellCtl, r.booted = false → r.effects = 0 → r.scan.Simulates .run (.seeded 0) := by
    intro r fresh effects
    have boots : r.boot = { r with
        lineState := 1, version := 0, setReq := -1, cmdSeq := 0, cmdDone := 0, cmdMode := 0, cmdExpected := -1,
        conveyor := 0, versionEpoch := 0, cmdExpectedEpoch := -1, booted := true } :=
      if_neg (by rw [fresh]; decide)
    have waits : r.boot.request = r.boot := if_neg (by rw [boots]; exact (by decide : ¬0 ≤ (-1 : Int16)))
    have none_new : r.boot.command = r.boot := if_neg (by rw [boots]; exact not_not.mpr rfl)
    rw [CellCtl.scan, waits, none_new, boots]
    exact ⟨rfl, rfl, rfl, rfl, by rw [effects]; rfl, Int.le_of_eq zero.symm, Int.le_of_eq zero.symm, by rw [zero]; rfl, rfl, rfl, rfl⟩
  apply writes <;> cases input.request <;> cases input.command <;> rfl

/-- A conditional command with the version before a pause, in the scan that sees the pause. -/
def pausedScan : ScanInput :=
  ⟨some .paused, some ⟨1, .version, .split 0 (by decide), 0, "a".toList⟩, 0⟩

end Xair
