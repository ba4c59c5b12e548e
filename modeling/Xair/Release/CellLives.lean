import Xair.Release.Cell

/-!
# The cell controller over its restarts

One controller after another on the same state file. Its event loop runs one method or
scan at a time, so clients see the line state and the version only between them.
-/

namespace Xair

/-- Where a method or a boot stops: it ends, or the process dies on either side of the replaced state file. -/
inductive Halt where
  | done | beforeReplace | afterReplace
  deriving DecidableEq

inductive CellEvent where
  | boot (clockUs : Int) (halt : Halt)
  | setLineState (value : Str) (halt : Halt)
  | enqueue (command : CellCommand)
  | scan (now : ℚ)
  | crash
  deriving DecidableEq

/-- What a client can learn: the line state, and the version, of which life of the controller. -/
structure Sighting where
  life : Nat
  state : Str
  version : Int
  deriving DecidableEq

/-- The state file, the controller if it runs, and what clients could have seen so far. -/
structure CellHost where
  file : Option Int
  cell : Option Cell
  life : Nat
  seen : List Sighting
  deriving DecidableEq

namespace CellHost

/-- A controller that has never run on this file. -/
def init (file : Option Int) : CellHost := ⟨file, none, 0, []⟩

/-- The event loop is idle: the state file is written and clients are answered. -/
def serve (h : CellHost) (c : Cell) : CellHost :=
  { h with file := c.persisted, cell := some c, seen := h.seen ++ [⟨h.life, c.state, c.version⟩] }

/-- The process dies, with this state file. -/
def die (h : CellHost) (file : Option Int) : CellHost := { h with file := file, cell := none }

/-- The controller becomes `c`, as far as it gets. -/
def become (h : CellHost) (c : Cell) : Halt → CellHost
  | .done => h.serve c
  | .beforeReplace => h.die h.file
  | .afterReplace => h.die c.persisted

def exec (h : CellHost) : CellEvent → CellHost
  | .boot clockUs halt => { h with life := h.life + 1 }.become (.boot h.file clockUs) halt
  | .setLineState value halt => match h.cell with
    | none => h
    | some c => h.become (c.setState value) halt
  | .enqueue command => match h.cell with
    | none => h
    | some c => h.serve (c.enqueue command)
  | .scan now => match h.cell with
    | none => h
    | some c => h.serve (c.scan now).1
  | .crash => h.die h.file

def run (h : CellHost) (events : List CellEvent) : CellHost := events.foldl exec h

/-- Every event of the run happens in a state with `ok`. -/
def Along (ok : CellHost → CellEvent → Prop) : CellHost → List CellEvent → Prop
  | _, [] => True
  | h, e :: events => ok h e ∧ Along ok (h.exec e) events

/-- The version of a running controller is in the file, and no version seen is above that of the file. -/
structure Inv (h : CellHost) : Prop where
  functional : ∀ a ∈ h.seen, ∀ b ∈ h.seen, a.version = b.version → a = b
  below : ∀ a ∈ h.seen, ∃ version, h.file = some version ∧ a.version ≤ version
  running : ∀ c, h.cell = some c → h.file = some c.version ∧ c.persisted = some c.version ∧ ⟨h.life, c.state, c.version⟩ ∈ h.seen

theorem inv_init (file : Option Int) : (init file).Inv :=
  ⟨(fun _ none => nomatch none), (fun _ none => nomatch none), (fun _ none => nomatch none)⟩

variable {h : CellHost} {c : Cell}

theorem Inv.die (inv : h.Inv) {file : Option Int}
    (above : ∀ version, h.file = some version → ∃ version', file = some version' ∧ version ≤ version') : (h.die file).Inv := by
  refine ⟨inv.functional, fun a seen => ?_, fun _ none => nomatch none⟩
  obtain ⟨version, held, le⟩ := inv.below a seen
  obtain ⟨version', replaced, later⟩ := above version held
  exact ⟨version', replaced, Int.le_trans le later⟩

/-- A controller whose version is a new one. -/
theorem Inv.serve_new (inv : h.Inv) (persisted : c.persisted = some c.version)
    (above : ∀ version, h.file = some version → version < c.version) : (h.serve c).Inv := by
  have fresh : ∀ a ∈ h.seen, a.version < c.version := by
    intro a seen
    obtain ⟨version, held, le⟩ := inv.below a seen
    exact Int.lt_of_le_of_lt le (above version held)
  refine ⟨fun a seen b seen' same => ?_, fun a seen => ⟨c.version, persisted, ?_⟩, fun c' same => ?_⟩
  · rcases List.mem_append.mp seen with old | new <;> rcases List.mem_append.mp seen' with old' | new'
    · exact inv.functional a old b old' same
    · obtain rfl := List.mem_singleton.mp new'
      exact absurd same (Int.ne_of_lt (fresh a old))
    · obtain rfl := List.mem_singleton.mp new
      exact absurd same.symm (Int.ne_of_lt (fresh b old'))
    · rw [List.mem_singleton.mp new, List.mem_singleton.mp new']
  · rcases List.mem_append.mp seen with old | new
    · exact Int.le_of_lt (fresh a old)
    · exact Int.le_of_eq (congrArg Sighting.version (List.mem_singleton.mp new))
  · obtain rfl := Option.some.inj same
    exact ⟨persisted, persisted, List.mem_append_right _ (List.mem_singleton.mpr rfl)⟩

/-- A controller whose line state and version are those of the one that runs. -/
theorem Inv.serve_same (inv : h.Inv) {c₀ : Cell} (running : h.cell = some c₀) (state : c.state = c₀.state)
    (version : c.version = c₀.version) (persisted : c.persisted = c₀.persisted) : (h.serve c).Inv := by
  obtain ⟨held, written, seen₀⟩ := inv.running c₀ running
  have sighted : ∀ a ∈ (h.serve c).seen, a ∈ h.seen := by
    intro a seen
    rcases List.mem_append.mp seen with old | new
    · exact old
    · rw [List.mem_singleton.mp new, state, version]
      exact seen₀
  refine ⟨fun a seen b seen' same => inv.functional a (sighted a seen) b (sighted b seen') same, fun a seen => ?_, fun c' same => ?_⟩
  · obtain ⟨v, stored, le⟩ := inv.below a (sighted a seen)
    exact ⟨v, (persisted.trans written).trans (held.symm.trans stored), le⟩
  · obtain rfl := Option.some.inj same
    rw [version]
    exact ⟨persisted.trans written, persisted.trans written, List.mem_append_left _ (by rw [state]; exact seen₀)⟩

theorem setState_same {value : Str} (same : value = c.state) : (c.setState value).state = c.state ∧
    (c.setState value).version = c.version ∧ (c.setState value).persisted = c.persisted := by
  unfold Cell.setState
  rw [if_neg (not_not.mpr same)]
  split <;> exact ⟨rfl, rfl, rfl⟩

theorem setState_moved {value : Str} (moves : value ≠ c.state) : (c.setState value).state = value ∧
    (c.setState value).version = c.version + 1 ∧ (c.setState value).persisted = some (c.version + 1) := by
  unfold Cell.setState
  rw [if_pos moves]
  split <;> exact ⟨rfl, rfl, rfl⟩

theorem perform_frame (c : Cell) (now : ℚ) (command : CellCommand) :
    (c.perform now command).state = c.state ∧ (c.perform now command).version = c.version ∧
      (c.perform now command).persisted = c.persisted ∧ (c.perform now command).pending = c.pending := by
  unfold Cell.perform
  split <;> exact ⟨rfl, rfl, rfl, rfl⟩

theorem performs_frame (now : ℚ) (commands : List CellCommand) (c : Cell) :
    let c' := commands.foldl (fun c command => c.perform now command) c
    c'.state = c.state ∧ c'.version = c.version ∧ c'.persisted = c.persisted ∧ c'.pending = c.pending := by
  induction commands generalizing c with
  | nil => exact ⟨rfl, rfl, rfl, rfl⟩
  | cons command rest ih =>
    obtain ⟨state, version, persisted, pending⟩ := perform_frame c now command
    obtain ⟨state', version', persisted', pending'⟩ := ih (c.perform now command)
    exact ⟨state'.trans state, version'.trans version, persisted'.trans persisted, pending'.trans pending⟩

theorem Inv.become (inv : h.Inv) (persisted : c.persisted = some c.version)
    (above : ∀ version, h.file = some version → version < c.version) (halt : Halt) : (h.become c halt).Inv := by
  cases halt with
  | done => exact inv.serve_new persisted above
  | beforeReplace => exact inv.die fun version held => ⟨version, held, Int.le_refl _⟩
  | afterReplace => exact inv.die fun version held => ⟨c.version, persisted, Int.le_of_lt (above version held)⟩

theorem Inv.setLineState (inv : h.Inv) (running : h.cell = some c) (value : Str) (halt : Halt) :
    (h.become (c.setState value) halt).Inv := by
  obtain ⟨held, written, _⟩ := inv.running c running
  by_cases moves : value ≠ c.state
  · obtain ⟨_, version, persisted⟩ := setState_moved moves
    refine inv.become (persisted.trans (congrArg some version.symm)) (fun v stored => ?_) halt
    obtain rfl := Option.some.inj (stored.symm.trans held)
    rw [version]
    exact Int.lt_succ _
  · obtain ⟨state, version, persisted⟩ := setState_same (not_not.mp moves)
    cases halt with
    | done => exact inv.serve_same running state version persisted
    | beforeReplace => exact inv.die fun v stored => ⟨v, stored, Int.le_refl _⟩
    | afterReplace =>
      exact inv.die fun v stored => ⟨v, (persisted.trans written).trans (held.symm.trans stored), Int.le_refl _⟩

/-- Whatever happens to the controller. -/
theorem Inv.exec (inv : h.Inv) (e : CellEvent) : (h.exec e).Inv := by
  cases e with
  | boot clockUs halt =>
    have started : ({ h with life := h.life + 1, cell := none } : CellHost).Inv :=
      ⟨inv.functional, inv.below, (fun _ none => nomatch none)⟩
    have booted : (({ h with life := h.life + 1, cell := none } : CellHost).become (.boot h.file clockUs) halt).Inv := by
      refine started.become rfl (fun version held => ?_) halt
      unfold Cell.boot
      rw [show h.file = some version from held]
      exact Int.lt_succ _
    cases halt with
    | done => exact booted
    | beforeReplace => exact booted
    | afterReplace => exact booted
  | setLineState value halt =>
    unfold CellHost.exec
    cases running : h.cell with
    | none => exact inv
    | some c => exact inv.setLineState running value halt
  | enqueue command =>
    unfold CellHost.exec
    cases running : h.cell with
    | none => exact inv
    | some c => exact inv.serve_same running rfl rfl rfl
  | scan now =>
    unfold CellHost.exec
    cases running : h.cell with
    | none => exact inv
    | some c =>
      obtain ⟨state, version, persisted, _⟩ := performs_frame now c.pending { c with pending := [] }
      exact inv.serve_same running state version persisted
  | crash => exact inv.die fun version held => ⟨version, held, Int.le_refl _⟩

theorem Inv.run (inv : h.Inv) (events : List CellEvent) : (h.run events).Inv := by
  induction events generalizing h with
  | nil => exact inv
  | cons e events ih => exact ih (inv.exec e)

/-! ### The conveyor -/

/-- A client has seen this version on a line in RUN. -/
def SeenRunning (h : CellHost) (version : Int) : Prop := ∃ a ∈ h.seen, a.state = runState ∧ a.version = version

/-- Only predicate commands are queued, and conditional ones with a version that was seen on a line in RUN. -/
def Guarded (h : CellHost) : CellEvent → Prop
  | .enqueue command =>
    (∃ ticket id deadlineMs, command = predicateResume ticket id deadlineMs) ∨
      ∃ ticket id version deadlineMs, command = conditionalResume ticket id version deadlineMs ∧ h.SeenRunning version
  | _ => True

/-- What is queued can only be executed on a line in RUN. -/
def Awaits (h : CellHost) (command : CellCommand) : Prop :=
  command.needsRun = true ∨ ∃ version, command.expected = some version ∧ h.SeenRunning version

structure Interlocked (h : CellHost) : Prop where
  queued : ∀ c, h.cell = some c → ∀ command ∈ c.pending, h.Awaits command
  conveyor : ∀ c, h.cell = some c → c.running = true → c.state = runState

theorem Awaits.serve {command : CellCommand} (awaits : h.Awaits command) (c : Cell) : (h.serve c).Awaits command := by
  rcases awaits with interlock | ⟨version, expected, a, seen, its⟩
  · exact Or.inl interlock
  · exact Or.inr ⟨version, expected, a, List.mem_append_left _ seen, its⟩

theorem Interlocked.serve (queued : ∀ command ∈ c.pending, h.Awaits command) (conveyor : c.running = true → c.state = runState) :
    (h.serve c).Interlocked := by
  refine ⟨fun c' same command member => ?_, fun c' same running => ?_⟩
  · obtain rfl := Option.some.inj same
    exact (queued command member).serve c
  · obtain rfl := Option.some.inj same
    exact conveyor running

theorem interlocked_die (h : CellHost) (file : Option Int) : (h.die file).Interlocked :=
  ⟨(fun _ none => nomatch none), (fun _ none => nomatch none)⟩

/-- A command that is executed finds the line in RUN: its version determines the state. -/
theorem Inv.executes (inv : h.Inv) (running : h.cell = some c) {command : CellCommand} (awaits : h.Awaits command) {now : ℚ}
    {state : Str} {version : Int} (executed : c.answer now command = .executed state version) : c.state = runState := by
  obtain ⟨_, _, matching, interlock, _⟩ := Cell.executed_spec executed
  rcases awaits with needs | ⟨expected, asked, a, seen, run, its⟩
  · exact interlock needs
  · have here := (inv.running c running).2.2
    have same := inv.functional a seen _ here (its.trans (matching expected asked))
    rw [same] at run
    exact run

/-- Commands that wait for a line in RUN start the conveyor on no other. -/
theorem performs_interlocked {now : ℚ} {commands : List CellCommand} {c : Cell}
    (executes : ∀ command ∈ commands, ∀ state version, c.answer now command = .executed state version → c.state = runState)
    (conveyor : c.running = true → c.state = runState) :
    (commands.foldl (fun c command => c.perform now command) c).running = true → c.state = runState := by
  induction commands generalizing c with
  | nil => exact conveyor
  | cons command rest ih =>
    obtain ⟨state, version, _, _⟩ := perform_frame c now command
    have same : ∀ other, (c.perform now command).answer now other = c.answer now other := by
      intro other
      unfold Cell.answer
      rw [version, state]
    have one : (c.perform now command).running = true → c.state = runState := by
      intro running
      unfold Cell.perform at running
      split at running
      · rename_i s v executed
        exact executes command List.mem_cons_self s v executed
      · exact conveyor running
    rw [← state] at one ⊢
    refine ih (fun other member s v executed => ?_) one
    rw [same] at executed
    rw [state]
    exact executes other (List.mem_cons_of_mem _ member) s v executed

theorem Interlocked.become (queued : ∀ command ∈ c.pending, h.Awaits command) (conveyor : c.running = true → c.state = runState)
    (halt : Halt) : (h.become c halt).Interlocked := by
  cases halt with
  | done => exact .serve queued conveyor
  | beforeReplace => exact interlocked_die h _
  | afterReplace => exact interlocked_die h _

/-- A pause stops the conveyor. -/
theorem setState_conveyor (c : Cell) (value : Str) :
    ((c.setState value).running = true → (c.setState value).state = runState) ∧ (c.setState value).pending = c.pending := by
  unfold Cell.setState
  by_cases pauses : value ≠ runState
  · rw [if_pos pauses]
    refine ⟨(fun running => nomatch running), ?_⟩
    split <;> rfl
  · rw [if_neg pauses]
    obtain rfl := not_not.mp pauses
    split
    · exact ⟨fun _ => rfl, rfl⟩
    · rename_i same
      exact ⟨fun _ => (not_not.mp same).symm, rfl⟩

theorem Interlocked.exec (inv : h.Inv) (interlocked : h.Interlocked) {e : CellEvent} (guarded : h.Guarded e) :
    (h.exec e).Interlocked := by
  cases e with
  | boot clockUs halt => exact .become (fun _ member => absurd member List.not_mem_nil) (fun running => absurd running Bool.false_ne_true) halt
  | setLineState value halt =>
    unfold CellHost.exec
    cases running : h.cell with
    | none => exact interlocked
    | some c =>
      obtain ⟨conveyor, pending⟩ := setState_conveyor c value
      exact .become (by rw [pending]; exact interlocked.queued c running) conveyor halt
  | enqueue command =>
    unfold CellHost.exec
    cases running : h.cell with
    | none => exact interlocked
    | some c =>
      refine .serve (fun other member => ?_) (interlocked.conveyor c running)
      rcases List.mem_append.mp member with old | new
      · exact interlocked.queued c running other old
      · rw [List.mem_singleton.mp new]
        rcases guarded with ⟨ticket, id, deadlineMs, rfl⟩ | ⟨ticket, id, version, deadlineMs, rfl, seen⟩
        · exact Or.inl rfl
        · exact Or.inr ⟨version, rfl, seen⟩
  | scan now =>
    unfold CellHost.exec
    cases running : h.cell with
    | none => exact interlocked
    | some c =>
      obtain ⟨state, _, _, pending⟩ := performs_frame now c.pending { c with pending := [] }
      refine .serve (fun other member => ?_) fun started => ?_
      · rw [show (c.scan now).1.pending = [] from pending] at member
        cases member
      · rw [show (c.scan now).1.state = c.state from state]
        refine performs_interlocked (c := { c with pending := [] }) (fun command member s v executed => ?_)
          (interlocked.conveyor c running) started
        exact inv.executes (c := c) running (interlocked.queued c running command member) executed
  | crash => exact interlocked_die h _

theorem Interlocked.run (inv : h.Inv) (interlocked : h.Interlocked) {events : List CellEvent} (guarded : Along Guarded h events) :
    (h.run events).Interlocked := by
  induction events generalizing h with
  | nil => exact interlocked
  | cons e events ih => exact ih (inv.exec e) (interlocked.exec inv guarded.1) guarded.2

/-- Over all restarts a version stands for one line state of one life of the controller; and if only guarded commands
are queued the conveyor runs on a line in RUN only. -/
theorem versions_identify (file : Option Int) (events : List CellEvent) :
    (∀ a ∈ ((init file).run events).seen, ∀ b ∈ ((init file).run events).seen, a.version = b.version →
        a.state = b.state ∧ a.life = b.life) ∧
      (Along Guarded (init file) events →
        ∀ c, ((init file).run events).cell = some c → c.running = true → c.state = runState) := by
  have inv := (inv_init file).run events
  refine ⟨fun a seen b seen' same => ?_, fun guarded => ?_⟩
  · rw [inv.functional a seen b seen' same]
    exact ⟨rfl, rfl⟩
  · have interlocked : (init file).Interlocked := ⟨(fun _ none => nomatch none), (fun _ none => nomatch none)⟩
    exact (interlocked.run (inv_init file) guarded).conveyor

/-- A pause that is undone, a crash before the file is replaced, and a command with the version of the first life. -/
def undonePause : List CellEvent :=
  [.boot 10 .done, .setLineState "PAUSED".toList .done, .setLineState runState .done, .setLineState "PAUSED".toList .beforeReplace,
    .boot 0 .done, .enqueue (conditionalResume 0 "a".toList 10 0), .scan 0]

example : ((init none).run undonePause).seen.map Sighting.version = [10, 11, 12, 13, 13, 13] := by decide

end CellHost

end Xair
