import Xair.Gateway.Policy
import Xair.Release.CellCtl

/-!
# The Modbus client of the PLC

`PLC` of `plc_modbus.py`: how it cuts an expected version to two registers, and what the
scan that sees the command makes of them.
-/

namespace Xair

/-! ### Registers -/

/-- `value & 0xFFFF`. -/
def word (value : Int) : Int := value % 65536

/-- A word as the PLC holds it. -/
def register (word : Int) : Int16 := .ofInt word

/-- What is read of a register: its word. -/
def readWord (r : Int16) : Int := r.toInt % 65536

/-- A word as `PLC.regs` returns it. -/
def signedWord (word : Int) : Int := if 32767 < word then word - 65536 else word

theorem signedWord_readWord (r : Int16) : signedWord (readWord r) = r.toInt := by
  have below := r.toInt_lt
  have above := r.le_toInt
  unfold signedWord readWord
  split <;> omega

theorem register_word (value : Int) : (register (word value)).toInt = value.bmod 65536 := by
  rw [register, word, Int16.toInt_ofInt]
  exact Int.emod_bmod value 65536

/-- A register holds a value from 0 to 32767 exactly if the value written to it is that one up to 65536. -/
theorem register_eq_iff (value : Int) {r : Int16} (positive : 0 ≤ r.toInt) :
    register (word value) = r ↔ value % 65536 = r.toInt := by
  have below := r.toInt_lt
  rw [← Int16.toInt_inj, register_word, Int.bmod_def]
  split <;> omega

/-! ### A command -/

def CellMethod.kind : CellMethod → CtlMode
  | plain => .plain
  | conditional => .version
  | predicate => .predicate

/-- `exp, exp_epoch` of `command`. -/
def expectedPair : Option Int → Int × Int
  | none => (-1, -1)
  | some expected => (expected % 32768, expected / 32768)

/-- The next sequence number; the first one follows the last command that the PLC has done. -/
def nextSeq (seq : Option Int) (r : CellCtl) : Int :=
  let last := seq.getD (signedWord (readWord r.cmdDone))
  if last < 32000 then last + 1 else 1

namespace CellCtl

/-- An operator or HMI writes register 2. -/
def writeSetReq (r : CellCtl) : Option Int16 → CellCtl
  | none => r
  | some request => { r with setReq := request }

/-- `write_register(11, …)`. -/
def writeExpectedEpoch (r : CellCtl) (epoch : Int) : CellCtl := { r with cmdExpectedEpoch := register (word epoch) }

/-- `write_registers(3, …)`. -/
def writeSequence (r : CellCtl) (seq : Int) (mode : CtlMode) (expected : Int) : CellCtl :=
  { r with
    cmdSeq := register (word seq)
    cmdMode := mode.register
    cmdExpected := register (word expected) }

/-- Scans between the two writes, each after what the operator writes. -/
def scans (r : CellCtl) (requests : List (Option Int16)) : CellCtl := requests.foldl (fun r request => (r.writeSetReq request).scan) r

/-- The registers at the scan that sees the command. -/
def issued (r : CellCtl) (seq : Int) (mode : CtlMode) (expected : Option Int) (between : List (Option Int16))
    (last : Option Int16) : CellCtl :=
  ((((r.writeExpectedEpoch (expectedPair expected).2).scans between).writeSequence seq mode (expectedPair expected).1).writeSetReq last)

/-- The version as clients see it. -/
def clientVersion (r : CellCtl) : Int := signedWord (readWord r.versionEpoch) * 32768 + signedWord (readWord r.version)

/-- The result string of `command`. -/
def resultText (r : CellCtl) : Str :=
  let version := intText r.clientVersion
  let result := signedWord (readWord r.cmdResult)
  if result = 1 then "executed:RUN:".toList ++ version
  else if result = 2 then "executed:PAUSED:".toList ++ version
  else if result = 3 then "refused:version_changed:".toList ++ version
  else if result = 4 then "refused:predicate_false:".toList ++ version
  else "error:unknown_result_".toList ++ intText result ++ ":".toList ++ version

/-- The scan has executed the command. -/
structure Executed (r r' : CellCtl) : Prop where
  effects : r'.effects = r.effects + 1
  conveyor : r'.conveyor = 1
  result : r'.cmdResult = 1 ∧ r'.lineState = 1 ∨ r'.cmdResult = 2 ∧ r'.lineState ≠ 1

/-- The scan has refused the command because of its version. -/
structure Refused (r r' : CellCtl) : Prop where
  effects : r'.effects = r.effects
  conveyor : r'.conveyor = r.request.conveyor
  result : r'.cmdResult = 3

theorem resultText_executed {r r' : CellCtl} (h : Executed r r') : startsWith "executed:".toList r'.resultText = true := by
  have result : signedWord (readWord r'.cmdResult) = 1 ∨ signedWord (readWord r'.cmdResult) = 2 := by
    rw [signedWord_readWord]
    rcases h.result with ⟨one, _⟩ | ⟨two, _⟩
    · exact Or.inl (by rw [one]; decide)
    · exact Or.inr (by rw [two]; decide)
  unfold resultText
  rcases result with one | two
  · simp only [one, if_true]
    exact startsWith_iff.mpr ⟨"RUN:".toList ++ intText r'.clientVersion, rfl⟩
  · simp only [two, if_true]
    exact startsWith_iff.mpr ⟨"PAUSED:".toList ++ intText r'.clientVersion, rfl⟩

theorem resultText_refused {r r' : CellCtl} (h : Refused r r') :
    r'.resultText = "refused:version_changed:".toList ++ intText r'.clientVersion := by
  have result : signedWord (readWord r'.cmdResult) = 3 := by
    rw [signedWord_readWord, h.result]
    decide
  unfold resultText
  simp only [result]
  rfl

/-- The number after that of the last command done is a new one. -/
theorem nextSeq_new {r : CellCtl} {seq : Option Int} (last : seq.getD (signedWord (readWord r.cmdDone)) = r.cmdDone.toInt) :
    register (word (nextSeq seq r)) ≠ r.cmdDone := by
  have below := r.cmdDone.toInt_lt
  have above := r.cmdDone.le_toInt
  intro same
  have held := congrArg Int16.toInt same
  rw [register_word, nextSeq, last, Int.bmod_def] at held
  split at held <;> split at held <;> omega

/-! ### What the operator's request and the scans leave alone -/

theorem request_frame (r : CellCtl) : ∃ line version epoch conveyor setReq, r.request =
    { r with lineState := line, version := version, versionEpoch := epoch, conveyor := conveyor, setReq := setReq } := by
  have moved : ∃ line version epoch, r.moveLine = { r with lineState := line, version := version, versionEpoch := epoch } := by
    unfold moveLine advance
    split
    · split
      · split
        · exact ⟨_, _, _, rfl⟩
        · exact ⟨_, _, _, rfl⟩
      · exact ⟨_, _, _, rfl⟩
    · exact ⟨_, _, _, rfl⟩
  obtain ⟨line, version, epoch, moved⟩ := moved
  unfold request stopConveyor
  rw [moved]
  split
  · split
    · exact ⟨_, _, _, _, _, rfl⟩
    · exact ⟨_, _, _, _, _, rfl⟩
  · exact ⟨_, _, _, _, _, rfl⟩

theorem command_frame (r : CellCtl) : r.command.booted = r.booted ∧ r.command.cmdExpectedEpoch = r.cmdExpectedEpoch := by
  unfold command answer
  split
  · split
    · exact ⟨rfl, rfl⟩
    · split
      · exact ⟨rfl, rfl⟩
      · exact ⟨rfl, rfl⟩
  · exact ⟨rfl, rfl⟩

/-- No scan after the first one writes register 11. -/
theorem scans_expectedEpoch {r : CellCtl} (booted : r.booted = true) (requests : List (Option Int16)) :
    (r.scans requests).booted = true ∧ (r.scans requests).cmdExpectedEpoch = r.cmdExpectedEpoch := by
  induction requests generalizing r with
  | nil => exact ⟨booted, rfl⟩
  | cons asked rest ih =>
    have kept : (r.writeSetReq asked).booted = true ∧ (r.writeSetReq asked).cmdExpectedEpoch = r.cmdExpectedEpoch := by
      cases asked <;> exact ⟨booted, rfl⟩
    have scanned : (r.writeSetReq asked).scan.booted = true ∧
        (r.writeSetReq asked).scan.cmdExpectedEpoch = r.cmdExpectedEpoch := by
      obtain ⟨line, version, epoch, conveyor, setReq, requested⟩ := request_frame (r.writeSetReq asked)
      rw [scan, boot_booted kept.1, (command_frame _).1, (command_frame _).2, requested]
      exact kept
    obtain ⟨later, same⟩ := ih scanned.1
    exact ⟨later, same.trans scanned.2⟩

/-! ### The scan that sees the command -/

/-- The remainder and the quotient, each cut to 16 bits, are the pair of counter and epoch exactly if the expected version
is that of the PLC up to 2^31. -/
theorem expectedPair_matches_iff (expected : Int) {counter epoch : Int16} (counted : 0 ≤ counter.toInt) (epochs : 0 ≤ epoch.toInt) :
    0 ≤ register (word (expectedPair (some expected)).1) ∧ register (word (expectedPair (some expected)).1) = counter ∧
        register (word (expectedPair (some expected)).2) = epoch ↔
      (2 : Int) ^ 31 ∣ expected - (epoch.toInt * 32768 + counter.toInt) := by
  have below := counter.toInt_lt
  have below' := epoch.toInt_lt
  have zero : (0 : Int16).toInt = 0 := by decide
  have counts := register_eq_iff (expectedPair (some expected)).1 counted
  have same := register_eq_iff (expectedPair (some expected)).2 epochs
  simp only [expectedPair] at counts same ⊢
  constructor
  · rintro ⟨_, counter', epoch'⟩
    have remainder := counts.mp counter'
    have quotient := same.mp epoch'
    omega
  · intro divides
    have counter' := counts.mpr (by omega)
    refine ⟨?_, counter', same.mpr (by omega)⟩
    rw [counter', Int16.le_iff_toInt_le, zero]
    exact counted

theorem clientVersion_eq (r : CellCtl) : r.clientVersion = r.versionEpoch.toInt * 32768 + r.version.toInt := by
  rw [clientVersion, signedWord_readWord, signedWord_readWord]

variable {r : CellCtl} {seq expected : Int} {between : List (Option Int16)} {last : Option Int16}

/-- A conditional command is executed if its registers match the pair of counter and epoch, and refused otherwise. -/
theorem command_conditional (conditional : r.cmdMode = 1) (new : r.cmdSeq ≠ r.cmdDone) :
    (if 0 ≤ r.cmdExpected ∧ r.cmdExpected = r.version ∧ r.cmdExpectedEpoch = r.versionEpoch then
      r.command.effects = r.effects + 1 ∧ r.command.conveyor = 1 ∧ r.command.lineState = r.lineState ∧
        r.command.cmdResult = if r.lineState = 1 then 1 else 2
    else r.command.effects = r.effects ∧ r.command.conveyor = r.conveyor ∧ r.command.cmdResult = 3) := by
  have admits : r.Admits ↔ 0 ≤ r.cmdExpected ∧ r.cmdExpected = r.version ∧ r.cmdExpectedEpoch = r.versionEpoch := by
    unfold Admits
    rw [conditional]
    simp
  have interlock : ¬(r.cmdMode = 2 ∧ r.lineState ≠ 1) := by
    rw [conditional]
    exact fun held => absurd held.1 (by decide)
  rw [command, if_pos new, answer, if_neg interlock]
  by_cases matching : r.Admits
  · rw [if_pos matching, if_pos (admits.mp matching)]
    exact ⟨rfl, rfl, rfl, rfl⟩
  · rw [if_neg matching, if_neg (mt admits.mpr matching)]
    exact ⟨rfl, rfl, rfl⟩

/-- The scan that sees the command executes it if the expected version is that of the PLC up to 2^31, and refuses it
otherwise. -/
theorem issued_scan (booted : r.booted = true) (new : register (word seq) ≠ (r.issued seq .version (some expected) between last).cmdDone)
    (counter : 0 ≤ (r.issued seq .version (some expected) between last).request.version.toInt)
    (epoch : 0 ≤ (r.issued seq .version (some expected) between last).request.versionEpoch.toInt) :
    if (2 : Int) ^ 31 ∣ expected - (r.issued seq .version (some expected) between last).request.clientVersion then
      Executed (r.issued seq .version (some expected) between last) (r.issued seq .version (some expected) between last).scan
    else Refused (r.issued seq .version (some expected) between last) (r.issued seq .version (some expected) between last).scan := by
  obtain ⟨started, carried⟩ := scans_expectedEpoch (r := r.writeExpectedEpoch (expectedPair (some expected)).2) booted between
  have seen : ∃ r' : CellCtl, r.issued seq .version (some expected) between last = r' ∧ r'.booted = true ∧ r'.cmdMode = 1 ∧
      r'.cmdSeq = register (word seq) ∧ r'.cmdExpected = register (word (expectedPair (some expected)).1) ∧
      r'.cmdExpectedEpoch = register (word (expectedPair (some expected)).2) := by
    refine ⟨_, rfl, ?_⟩
    cases last <;> exact ⟨started, rfl, rfl, rfl, carried⟩
  obtain ⟨r', issues, booted', mode, sequence, counts, epochs⟩ := seen
  rw [issues] at new counter epoch ⊢
  obtain ⟨line, version, versionEpoch, conveyor, setReq, requested⟩ := request_frame r'
  have fresh : r'.request.cmdSeq ≠ r'.request.cmdDone := by
    rw [requested, sequence]
    exact new
  have conditional : r'.request.cmdMode = 1 := by
    rw [requested]
    exact mode
  have answered := command_conditional conditional fresh
  rw [clientVersion_eq, scan, boot_booted booted']
  have effects : r'.request.effects = r'.effects := by rw [requested]
  have matching : 0 ≤ r'.request.cmdExpected ∧ r'.request.cmdExpected = r'.request.version ∧
      r'.request.cmdExpectedEpoch = r'.request.versionEpoch ↔
      (2 : Int) ^ 31 ∣ expected - (r'.request.versionEpoch.toInt * 32768 + r'.request.version.toInt) := by
    rw [← expectedPair_matches_iff expected counter epoch, ← counts, ← epochs]
    rw [requested]
  by_cases divides : (2 : Int) ^ 31 ∣ expected - (r'.request.versionEpoch.toInt * 32768 + r'.request.version.toInt)
  · rw [if_pos (matching.mpr divides), effects] at answered
    rw [if_pos divides]
    obtain ⟨counted, runs, state, result⟩ := answered
    refine ⟨counted, runs, ?_⟩
    rw [state, result]
    by_cases running : r'.request.lineState = 1
    · exact Or.inl ⟨if_pos running, running⟩
    · exact Or.inr ⟨if_neg running, running⟩
  · rw [if_neg (mt matching.mp divides), effects] at answered
    rw [if_neg divides]
    exact ⟨answered.1, answered.2.1, answered.2.2⟩

/-- The scan executes the command exactly if the expected version is that of the PLC, and refuses it otherwise. -/
def Exact (r : CellCtl) (expected : Int) : Prop :=
  (Executed r r.scan ↔ expected = r.request.clientVersion) ∧ (expected ≠ r.request.clientVersion → Refused r r.scan)

/-- The conditional command is exact unless the expected version is another one that agrees with that of the PLC up to 2^31,
as the registers hold no more of it. -/
theorem issued_exact_iff (booted : r.booted = true)
    (new : register (word seq) ≠ (r.issued seq .version (some expected) between last).cmdDone)
    (counter : 0 ≤ (r.issued seq .version (some expected) between last).request.version.toInt)
    (epoch : 0 ≤ (r.issued seq .version (some expected) between last).request.versionEpoch.toInt) :
    (r.issued seq .version (some expected) between last).Exact expected ↔
      expected = (r.issued seq .version (some expected) between last).request.clientVersion ∨
        ¬(2 : Int) ^ 31 ∣ expected - (r.issued seq .version (some expected) between last).request.clientVersion := by
  have ended := issued_scan booted new counter epoch
  unfold Exact
  generalize r.issued seq .version (some expected) between last = s at ended ⊢
  have apart : Executed s s.scan → ¬Refused s s.scan := by
    rintro ⟨_, _, result⟩ ⟨_, _, refused⟩
    rw [refused] at result
    rcases result with ⟨one, _⟩ | ⟨two, _⟩
    · exact absurd one (by decide)
    · exact absurd two (by decide)
  by_cases divides : (2 : Int) ^ 31 ∣ expected - s.request.clientVersion
  · rw [if_pos divides] at ended
    constructor
    · rintro ⟨only, _⟩
      exact Or.inl (only.mp ended)
    · rintro (same | differs)
      · exact ⟨iff_of_true ended same, fun other => absurd same other⟩
      · exact absurd divides differs
  · rw [if_neg divides] at ended
    have other : expected ≠ s.request.clientVersion := by
      intro same
      rw [same, Int.sub_self] at divides
      exact divides (Int.dvd_zero _)
    refine iff_of_true ⟨iff_of_false (fun executed => apart executed ended) other, fun _ => ended⟩ (Or.inr divides)

/-- A booted PLC with version 5. -/
def atFive : CellCtl := { start.boot with version := 5 }

theorem issued_exact_atFive : (atFive.issued 1 .version (some 5) [] none).Exact 5 ↔
    (5 : Int) = (atFive.issued 1 .version (some 5) [] none).request.clientVersion ∨
      ¬(2 : Int) ^ 31 ∣ 5 - (atFive.issued 1 .version (some 5) [] none).request.clientVersion :=
  issued_exact_iff (by decide) (by decide) (by decide) (by decide)

/-- The PLC at version 0 executes a command that expects 2^31. -/
theorem issued_beyond_registers : ¬∀ (r : CellCtl) (seq expected : Int) (between : List (Option Int16)) (last : Option Int16),
    r.booted = true →
    register (word seq) ≠ (r.issued seq CellMethod.conditional.kind (some expected) between last).cmdDone →
    0 ≤ (r.issued seq CellMethod.conditional.kind (some expected) between last).request.version.toInt →
    0 ≤ (r.issued seq CellMethod.conditional.kind (some expected) between last).request.versionEpoch.toInt →
    (r.issued seq CellMethod.conditional.kind (some expected) between last).Exact expected := by
  intro always
  have exact := always CellCtl.start.boot 1 (2 ^ 31) [] none rfl (by decide) (by decide) (by decide)
  have refused := exact.2 (by decide)
  exact absurd refused.result (by decide)

end CellCtl

variable [PyText]

/-- The gateway forwards whatever integer is expected. -/
theorem actuatePlc_int (cfg : SiteConfig) (n : Int) (method : CellMethod) :
    actuatePlc method (some (.int n)) = (step (.plcCommand (some n) method) : Handler cfg Str) := rfl

end Xair
