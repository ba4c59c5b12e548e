import Xair.Library.Dict
import Xair.Release.CellLives

/-!
# A controller with fast variables

`cell_controller_multi.py`: the controller also owns variables that no intent reads. The
scope of its version tells whether they advance it. Its bridge gives XAIR the latest of the
changes that have piled up.
-/

namespace Xair

open Library

/-- `--version-scope`. -/
inductive CellScope where
  | global | line
  deriving DecidableEq

structure MultiCell where
  cell : Cell
  scope : CellScope
  fast : Dict Str PyFloat

/-- The state of a controller, as far as it has a version. -/
structure MultiReading where
  state : Str
  version : Int
  fast : Dict Str PyFloat

/-- `x + 1.0`. -/
def PyFloat.addOne : PyFloat → PyFloat
  | fin q => roundDouble (q + 1)
  | x => x

namespace MultiCell

/-- `__init__`; there is no state file. -/
def init (scope : CellScope) (fastVars : Nat) (clockUs : Int) : MultiCell where
  cell := { Cell.boot none clockUs with persisted := none }
  scope := scope
  fast := Dict.empty.insertAll ((List.range fastVars).map fun i => ('v' :: natText i, .fin 0))

/-- `fast_change`; `none` is a `KeyError`. -/
def fastChange (m : MultiCell) (name : Str) : Option MultiCell :=
  match m.fast.get name with
  | none => none
  | some value =>
    let cell := if m.scope = .global then
        { m.cell with
          version := m.cell.version + 1
          bridgeQueue := m.cell.bridgeQueue ++ [(m.cell.state, m.cell.version + 1)] }
      else m.cell
    some { m with cell := cell, fast := m.fast.insert name value.addOne }

def setState (m : MultiCell) (value : Str) : MultiCell := { m with cell := { m.cell.setState value with persisted := none } }

def reading (m : MultiCell) : MultiReading := ⟨m.cell.state, m.cell.version, m.fast⟩

/-- The commands that a scan at this time executes. -/
def executed (m : MultiCell) (now : ℚ) : List CellCommand :=
  m.cell.pending.filter fun command => match m.cell.answer now command with
    | .executed _ _ => true
    | _ => false

end MultiCell

/-- What becomes of a request of the bridge: XAIR stores it or not, or the bridge gives up on one that is still under way. -/
inductive PostEnd where
  | stored | lost | late
  deriving DecidableEq

inductive StationEvent where
  | setLineState (value : Str)
  | fastChange (name : Str)
  | enqueue (command : CellCommand)
  | scan (now : ℚ)
  /-- The bridge is idle and takes what is queued. -/
  | take
  | post (done : PostEnd)
  /-- A request that was given up is stored after all. -/
  | arrive (index : Nat)
  deriving DecidableEq

def StationEvent.isFast : StationEvent → Bool
  | .fastChange _ => true
  | _ => false

/-- A controller with its bridge, and what XAIR has been given. -/
structure Station where
  controller : MultiCell
  /-- The pair of a line state and a version that the bridge is sending. -/
  posting : Option (Str × Int)
  late : List (Str × Int)
  /-- The pairs XAIR has stored, the last of them last. -/
  stored : List (Str × Int)
  answers : List (Nat × CellAnswer)
  /-- History: what the controller has been like. -/
  seen : List MultiReading
  /-- History: the executed commands, with the controller at the scan. -/
  executions : List (CellCommand × MultiReading)

namespace Station

def init (scope : CellScope) (fastVars : Nat) (clockUs : Int) : Station where
  controller := .init scope fastVars clockUs
  posting := none
  late := []
  stored := []
  answers := []
  seen := [(MultiCell.init scope fastVars clockUs).reading]
  executions := []

/-- The controller's event loop is idle again. -/
def serve (s : Station) (m : MultiCell) : Station := { s with controller := m, seen := s.seen ++ [m.reading] }

def exec (s : Station) : StationEvent → Station
  | .setLineState value => s.serve (s.controller.setState value)
  | .fastChange name => match s.controller.fastChange name with
    | none => s
    | some m => s.serve m
  | .enqueue command => s.serve { s.controller with cell := s.controller.cell.enqueue command }
  | .scan now =>
    let (cell, answers) := s.controller.cell.scan now
    { s.serve { s.controller with cell := cell } with
      answers := s.answers ++ answers
      executions := s.executions ++ (s.controller.executed now).map fun command => (command, s.controller.reading) }
  | .take => match s.posting, s.controller.cell.bridgeQueue.getLast? with
    | none, some pair =>
      { s with
        posting := some pair
        controller := { s.controller with cell := { s.controller.cell with bridgeQueue := [] } } }
    | _, _ => s
  | .post done => match s.posting with
    | none => s
    | some pair => match done with
      | .stored => { s with posting := none, stored := s.stored ++ [pair] }
      | .lost => { s with posting := none }
      | .late => { s with posting := none, late := s.late ++ [pair] }
  | .arrive index => match s.late[index]? with
    | none => s
    | some pair => { s with late := s.late.eraseIdx index, stored := s.stored ++ [pair] }

def run (s : Station) (events : List StationEvent) : Station := events.foldl exec s

/-- Every event of the run happens in a state with `ok`. -/
def Along (ok : Station → StationEvent → Prop) : Station → List StationEvent → Prop
  | _, [] => True
  | s, e :: events => ok s e ∧ Along ok (s.exec e) events

/-! ### What a step can do -/

/-- The pairs that the bridge has, has sent or will send. -/
def Pairs (s : Station) (pair : Str × Int) : Prop :=
  pair ∈ s.controller.cell.bridgeQueue ∨ s.posting = some pair ∨ pair ∈ s.late ∨ pair ∈ s.stored

end Station

/-- What a method or a scan does to the version: it advances, or it still stands for what it stood for. -/
structure MultiCell.Onward (m m' : MultiCell) : Prop where
  scope : m'.scope = m.scope
  version : m.cell.version < m'.cell.version ∨
    m'.cell.version = m.cell.version ∧ m'.cell.state = m.cell.state ∧ (m.scope = .global → m'.fast = m.fast)
  /-- Whatever has a new version is queued for the bridge. -/
  queue : ∃ more, m'.cell.bridgeQueue = m.cell.bridgeQueue ++ more ∧
    (more = [] ∧ m'.cell.state = m.cell.state ∧ m'.cell.version = m.cell.version ∨
      more = [(m'.cell.state, m'.cell.version)] ∧ m.cell.version < m'.cell.version)

namespace MultiCell

variable {m m' : MultiCell}

theorem onward_setState (m : MultiCell) (value : Str) : m.Onward (m.setState value) := by
  by_cases same : value = m.cell.state
  · obtain ⟨state, version, _⟩ := CellHost.setState_same same
    refine ⟨rfl, Or.inr ⟨version, state, fun _ => rfl⟩, [], ?_, Or.inl ⟨rfl, state, version⟩⟩
    unfold setState Cell.setState
    rw [if_neg (not_not.mpr same), List.append_nil]
    split <;> rfl
  · obtain ⟨state, version, _⟩ := CellHost.setState_moved same
    have later : m.cell.version < (m.setState value).cell.version := by
      change _ < (m.cell.setState value).version
      omega
    refine ⟨rfl, Or.inl later, _, ?_, Or.inr ⟨rfl, later⟩⟩
    change (m.cell.setState value).bridgeQueue = m.cell.bridgeQueue ++ [((m.cell.setState value).state, (m.cell.setState value).version)]
    rw [state, version]
    unfold Cell.setState
    rw [if_pos same]
    split <;> rfl

theorem onward_fastChange {name : Str} (changed : m.fastChange name = some m') :
    m.Onward m' ∧ (m.scope = .global → m.cell.version < m'.cell.version) ∧ (m.scope = .line → m'.cell = m.cell) := by
  unfold fastChange at changed
  split at changed
  · cases changed
  · cases scope : m.scope with
    | global =>
      rw [scope, if_pos rfl] at changed
      obtain rfl := Option.some.inj changed
      have later : m.cell.version < m.cell.version + 1 := by omega
      exact ⟨⟨scope.symm, Or.inl later, _, rfl, Or.inr ⟨rfl, later⟩⟩, fun _ => later, by intro h; cases h⟩
    | line =>
      rw [scope, if_neg (by decide)] at changed
      obtain rfl := Option.some.inj changed
      refine ⟨⟨scope.symm, Or.inr ⟨rfl, rfl, ?_⟩, [], (List.append_nil _).symm, Or.inl ⟨rfl, rfl, rfl⟩⟩, ?_, fun _ => rfl⟩
      · intro h
        rw [scope] at h
        cases h
      · intro h
        cases h

theorem fastChange_frame {name : Str} (changed : m.fastChange name = some m') :
    m'.cell.pending = m.cell.pending ∧ m'.cell.running = m.cell.running ∧ m'.cell.state = m.cell.state := by
  unfold fastChange at changed
  split at changed
  · cases changed
  · obtain rfl := Option.some.inj changed
    simp only
    split <;> exact ⟨rfl, rfl, rfl⟩

theorem onward_enqueue (m : MultiCell) (command : CellCommand) : m.Onward { m with cell := m.cell.enqueue command } :=
  ⟨rfl, Or.inr ⟨rfl, rfl, fun _ => rfl⟩, [], (List.append_nil _).symm, Or.inl ⟨rfl, rfl, rfl⟩⟩

theorem performs_queue (now : ℚ) (commands : List CellCommand) (c : Cell) :
    (commands.foldl (fun c command => c.perform now command) c).bridgeQueue = c.bridgeQueue := by
  induction commands generalizing c with
  | nil => rfl
  | cons command rest ih =>
    rw [List.foldl_cons, ih]
    unfold Cell.perform
    split <;> rfl

theorem onward_scan (m : MultiCell) (now : ℚ) : m.Onward { m with cell := (m.cell.scan now).1 } := by
  obtain ⟨state, version, _, _⟩ := CellHost.performs_frame now m.cell.pending { m.cell with pending := [] }
  refine ⟨rfl, Or.inr ⟨version, state, fun _ => rfl⟩, [], ?_, Or.inl ⟨rfl, state, version⟩⟩
  rw [List.append_nil]
  exact performs_queue now m.cell.pending { m.cell with pending := [] }

/-- A command that is executed has the version of the controller, if it has one. -/
theorem expected_of_executed {now : ℚ} {command : CellCommand} (member : command ∈ m.executed now) :
    command ∈ m.cell.pending ∧ (∃ state version, m.cell.answer now command = .executed state version) ∧
      ∀ version, command.expected = some version → version = m.cell.version := by
  obtain ⟨pending, executes⟩ := List.mem_filter.mp member
  cases answer : m.cell.answer now command with
  | executed state version => exact ⟨pending, ⟨state, version, rfl⟩, (Cell.executed_spec answer).2.2.1⟩
  | versionChanged version => rw [answer] at executes; cases executes
  | predicateFalse version => rw [answer] at executes; cases executes
  | deadline version => rw [answer] at executes; cases executes

end MultiCell

namespace Station

variable {s s' : Station} {m : MultiCell} {e : StationEvent}

/-- The pairs in the order in which XAIR has stored, or will store, them. -/
def line (s : Station) : List (Str × Int) := s.stored ++ s.posting.toList ++ s.controller.cell.bridgeQueue

/-- The bridge or XAIR moves pairs on. -/
structure Aside (s s' : Station) (e : StationEvent) : Prop where
  controller : ∃ queue, s'.controller = { s.controller with cell := { s.controller.cell with bridgeQueue := queue } }
  seen : s'.seen = s.seen
  executions : s'.executions = s.executions
  pairs : ∀ pair, s'.Pairs pair → s.Pairs pair
  line : s.late = [] → e ≠ .post .late →
    s'.late = [] ∧ s'.line.Sublist s.line ∧ (e ≠ .post .lost → s'.line.getLast? = s.line.getLast?)

theorem aside_refl : s.Aside s e :=
  ⟨⟨_, rfl⟩, rfl, rfl, fun _ held => held, fun late _ => ⟨late, .refl _, fun _ => rfl⟩⟩

theorem aside_take (s : Station) : s.Aside (s.exec .take) .take := by
  simp only [exec]
  split
  · rename_i pair sending queued
    refine ⟨⟨_, rfl⟩, rfl, rfl, fun other held => ?_, fun late _ => ?_⟩
    · rcases held with queue | posting | late | stored
      · cases queue
      · obtain rfl := Option.some.inj posting
        exact Or.inl (List.mem_of_getLast? queued)
      · exact Or.inr (Or.inr (Or.inl late))
      · exact Or.inr (Or.inr (Or.inr stored))
    · obtain ⟨older, queue⟩ := List.getLast?_eq_some_iff.mp queued
      simp [Station.line, sending, queue, late]
  · exact aside_refl

theorem aside_post (s : Station) (done : PostEnd) : s.Aside (s.exec (.post done)) (.post done) := by
  simp only [exec]
  split
  · exact aside_refl
  · rename_i pair sending
    cases done with
    | stored =>
      refine ⟨⟨_, rfl⟩, rfl, rfl, fun other held => ?_, fun late _ => ?_⟩
      · simp [Pairs, sending] at held ⊢
        tauto
      · simp [Station.line, sending, late]
    | lost =>
      refine ⟨⟨_, rfl⟩, rfl, rfl, fun other held => ?_, fun late _ => ?_⟩
      · simp [Pairs] at held ⊢
        tauto
      · simp [Station.line, sending, late]
    | late =>
      refine ⟨⟨_, rfl⟩, rfl, rfl, fun other held => ?_, fun _ punctual => absurd rfl punctual⟩
      simp [Pairs, sending] at held ⊢
      tauto

theorem aside_arrive (s : Station) (index : Nat) : s.Aside (s.exec (.arrive index)) (.arrive index) := by
  simp only [exec]
  split
  · exact aside_refl
  · rename_i pair found
    refine ⟨⟨_, rfl⟩, rfl, rfl, fun other held => ?_, fun late _ => ?_⟩
    · rcases held with queue | posting | late | stored
      · exact Or.inl queue
      · exact Or.inr (Or.inl posting)
      · exact Or.inr (Or.inr (Or.inl (List.mem_of_mem_eraseIdx late)))
      · rcases List.mem_append.mp stored with old | new
        · exact Or.inr (Or.inr (Or.inr old))
        · obtain rfl := List.mem_singleton.mp new
          exact Or.inr (Or.inr (Or.inl (List.mem_of_getElem? found)))
    · simp [late] at found

/-- What a step does: the event loop serves, or pairs are moved on. -/
theorem exec_cases (s : Station) (e : StationEvent) :
    (∃ m, s.controller.Onward m ∧ ∃ answers executions, s.exec e =
        { s.serve m with answers := s.answers ++ answers, executions := s.executions ++ executions } ∧
      ∀ x ∈ executions, x.2 = s.controller.reading ∧ x.1 ∈ s.controller.cell.pending ∧
        ∀ version, x.1.expected = some version → version = s.controller.cell.version) ∨
    s.Aside (s.exec e) e := by
  cases e with
  | setLineState value =>
    exact Or.inl ⟨_, s.controller.onward_setState value, [], [], by simp [exec, serve], by simp⟩
  | fastChange name =>
    cases changed : s.controller.fastChange name with
    | none =>
      right
      simp only [exec, changed]
      exact aside_refl
    | some m => exact Or.inl ⟨m, (MultiCell.onward_fastChange changed).1, [], [], by simp [exec, changed, serve], by simp⟩
  | enqueue command => exact Or.inl ⟨_, s.controller.onward_enqueue command, [], [], by simp [exec, serve], by simp⟩
  | scan now =>
    refine Or.inl ⟨_, s.controller.onward_scan now, (s.controller.cell.scan now).2,
      (s.controller.executed now).map fun command => (command, s.controller.reading), rfl, ?_⟩
    intro x member
    obtain ⟨command, executed, rfl⟩ := List.mem_map.mp member
    obtain ⟨pending, _, expected⟩ := MultiCell.expected_of_executed executed
    exact ⟨rfl, pending, expected⟩
  | take => exact Or.inr s.aside_take
  | post done => exact Or.inr (s.aside_post done)
  | arrive index => exact Or.inr (s.aside_arrive index)

/-- A version stands for one line state, and in the global scope for one state of the fast variables. -/
structure Inv (s : Station) : Prop where
  here : s.controller.reading ∈ s.seen
  below : ∀ a ∈ s.seen, a.version ≤ s.controller.cell.version
  functional : ∀ a ∈ s.seen, ∀ b ∈ s.seen, a.version = b.version → a.state = b.state ∧ (s.controller.scope = .global → a.fast = b.fast)
  known : ∀ pair, s.Pairs pair → ∃ a ∈ s.seen, (a.state, a.version) = pair
  executed : ∀ x ∈ s.executions, x.2 ∈ s.seen ∧ ∀ version, x.1.expected = some version → version = x.2.version

theorem inv_init (scope : CellScope) (fastVars : Nat) (clockUs : Int) : (init scope fastVars clockUs).Inv := by
  refine ⟨List.mem_singleton.mpr rfl, fun a seen => ?_, fun a seen b seen' _ => ?_, fun pair held => ?_, fun x none => by cases none⟩
  · rw [List.mem_singleton.mp seen]
    exact Int.le_refl _
  · rw [List.mem_singleton.mp seen, List.mem_singleton.mp seen']
    exact ⟨rfl, fun _ => rfl⟩
  · rcases held with queue | sending | late | stored
    · exact ⟨_, List.mem_singleton.mpr rfl, (List.mem_singleton.mp queue).symm⟩
    · cases sending
    · cases late
    · cases stored

theorem Inv.serve (inv : s.Inv) (onward : s.controller.Onward m) : (s.serve m).Inv := by
  obtain ⟨here, below, functional, known, executed⟩ := inv
  obtain ⟨scope, version, more, queue, queued⟩ := onward
  have latest : s.controller.cell.version ≤ m.cell.version := by omega
  refine ⟨List.mem_append_right _ (List.mem_singleton.mpr rfl), fun a seen => ?_, ?_, fun pair held => ?_, fun x member => ?_⟩
  · rcases List.mem_append.mp seen with old | new
    · exact Int.le_trans (below a old) latest
    · rw [List.mem_singleton.mp new]
      exact Int.le_refl _
  · -- the new reading has a new version, or stands for what the last one stood for
    have news : ∀ a ∈ s.seen, a.version = m.cell.version → a.state = m.cell.state ∧ (m.scope = .global → a.fast = m.fast) := by
      intro a old same
      rcases version with later | ⟨version, state, fast⟩
      · have le := below a old
        omega
      · obtain ⟨its, fasts⟩ := functional a old _ here (same.trans version)
        refine ⟨its.trans state.symm, fun wide => ?_⟩
        have wide' : s.controller.scope = .global := scope.symm.trans wide
        exact (fasts wide').trans (fast wide').symm
    intro a seen b seen' same
    rcases List.mem_append.mp seen with old | new
    · rcases List.mem_append.mp seen' with old' | new'
      · obtain ⟨state, fast⟩ := functional a old b old' same
        exact ⟨state, fun wide => fast (scope.symm.trans wide)⟩
      · obtain rfl := List.mem_singleton.mp new'
        exact news a old same
    · obtain rfl := List.mem_singleton.mp new
      rcases List.mem_append.mp seen' with old' | new'
      · obtain ⟨state, fast⟩ := news b old' same.symm
        exact ⟨state.symm, fun wide => (fast wide).symm⟩
      · rw [List.mem_singleton.mp new']
        exact ⟨rfl, fun _ => rfl⟩
  · have old : s.Pairs pair → ∃ a ∈ (s.serve m).seen, (a.state, a.version) = pair := by
      intro held
      obtain ⟨a, seen, its⟩ := known pair held
      exact ⟨a, List.mem_append_left _ seen, its⟩
    rcases held with queue' | rest
    · rw [show (s.serve m).controller.cell.bridgeQueue = _ from queue] at queue'
      rcases List.mem_append.mp queue' with before | new
      · exact old (Or.inl before)
      · rcases queued with ⟨rfl, _, _⟩ | ⟨rfl, _⟩
        · cases new
        · exact ⟨m.reading, List.mem_append_right _ (List.mem_singleton.mpr rfl), (List.mem_singleton.mp new).symm⟩
    · exact old (Or.inr rest)
  · obtain ⟨seen, expected⟩ := executed x member
    exact ⟨List.mem_append_left _ seen, expected⟩

theorem Inv.exec (inv : s.Inv) (e : StationEvent) : (s.exec e).Inv := by
  rcases s.exec_cases e with ⟨m, onward, answers, executions, same, ran⟩ | ⟨⟨queue, controller⟩, seen, executions, pairs, _⟩
  · obtain ⟨here, below, functional, known, executed⟩ := inv.serve onward
    rw [same]
    refine ⟨here, below, functional, known, fun x member => ?_⟩
    rcases List.mem_append.mp member with old | new
    · exact executed x old
    · obtain ⟨its, _, expected⟩ := ran x new
      rw [its]
      exact ⟨List.mem_append_left _ inv.here, expected⟩
  · refine ⟨?_, ?_, ?_, fun pair held => ?_, ?_⟩
    · rw [controller, seen]
      exact inv.here
    · rw [controller, seen]
      exact inv.below
    · rw [controller, seen]
      exact inv.functional
    · rw [seen]
      exact inv.known pair (pairs pair held)
    · rw [seen, executions]
      exact inv.executed

theorem Inv.run (inv : s.Inv) (events : List StationEvent) : (s.run events).Inv := by
  induction events generalizing s with
  | nil => exact inv
  | cons e events ih => exact ih (inv.exec e)

theorem scope_run (s : Station) (events : List StationEvent) : (s.run events).controller.scope = s.controller.scope := by
  induction events generalizing s with
  | nil => rfl
  | cons e events ih =>
    have one : (s.exec e).controller.scope = s.controller.scope := by
      rcases s.exec_cases e with ⟨m, onward, answers, executions, same, _⟩ | aside
      · rw [same]
        exact onward.scope
      · obtain ⟨queue, controller⟩ := aside.controller
        rw [controller]
    exact (ih (s.exec e)).trans one

/-! ### Variables that no intent reads -/

/-- Stations that differ in fast variables only. -/
structure Alike (s s' : Station) : Prop where
  scope : s.controller.scope = .line
  scope' : s'.controller.scope = .line
  cell : s.controller.cell = s'.controller.cell
  posting : s.posting = s'.posting
  late : s.late = s'.late
  stored : s.stored = s'.stored
  answers : s.answers = s'.answers

theorem Alike.serve (alike : s.Alike s') {m m' : MultiCell} (scope : m.scope = .line) (scope' : m'.scope = .line)
    (cell : m.cell = m'.cell) : (s.serve m).Alike (s'.serve m') :=
  ⟨scope, scope', cell, alike.posting, alike.late, alike.stored, alike.answers⟩

theorem Alike.fastChange (alike : s.Alike s') (name : Str) : (s.exec (.fastChange name)).Alike s' := by
  simp only [Station.exec]
  split
  · exact alike
  · rename_i m changed
    obtain ⟨onward, _, unmoved⟩ := MultiCell.onward_fastChange changed
    exact ⟨onward.scope.trans alike.scope, alike.scope', (unmoved alike.scope).trans alike.cell, alike.posting, alike.late,
      alike.stored, alike.answers⟩

theorem Alike.exec (alike : s.Alike s') (slow : e.isFast = false) : (s.exec e).Alike (s'.exec e) := by
  obtain ⟨scope, scope', cell, posting, late, stored, answers⟩ := alike
  have alike : s.Alike s' := ⟨scope, scope', cell, posting, late, stored, answers⟩
  cases e with
  | setLineState value => exact alike.serve scope scope' (by simp [MultiCell.setState, cell])
  | fastChange name => cases slow
  | enqueue command => exact alike.serve scope scope' (by simp [cell])
  | scan now => exact ⟨scope, scope', by simp [Station.exec, Station.serve, cell], posting, late, stored, by simp [Station.exec, cell, answers]⟩
  | take =>
    simp only [Station.exec, ← posting, ← cell]
    split
    · exact ⟨scope, scope', by simp [cell], rfl, late, stored, answers⟩
    · exact alike
  | post done =>
    simp only [Station.exec, ← posting]
    split
    · exact alike
    · cases done with
      | stored => exact ⟨scope, scope', cell, rfl, late, by simp [stored], answers⟩
      | lost => exact ⟨scope, scope', cell, rfl, late, stored, answers⟩
      | late => exact ⟨scope, scope', cell, rfl, by simp [late], stored, answers⟩
  | arrive index =>
    simp only [Station.exec, ← late]
    split
    · exact alike
    · exact ⟨scope, scope', cell, posting, by simp, by simp [stored], answers⟩

theorem Alike.run (alike : s.Alike s') (events : List StationEvent) :
    (s.run events).Alike (s'.run (events.filter fun e => !e.isFast)) := by
  induction events generalizing s s' with
  | nil => exact alike
  | cons e events ih =>
    cases speed : e.isFast with
    | false =>
      rw [List.filter_cons_of_pos (by simp [speed])]
      exact ih (alike.exec speed)
    | true =>
      rw [List.filter_cons_of_neg (by simp [speed])]
      cases e with
      | fastChange name => exact ih (alike.fastChange name)
      | _ => cases speed

/-- In the scope of the line the fast variables are unseen: without them the controller is the same cell, gives the same answers,
and XAIR stores the same. -/
theorem fast_variables_unseen (fastVars : Nat) (clockUs : Int) (events : List StationEvent) :
    let s := (init .line fastVars clockUs).run events
    let s' := (init .line 0 clockUs).run (events.filter fun e => !e.isFast)
    s.controller.cell = s'.controller.cell ∧ s.posting = s'.posting ∧ s.stored = s'.stored ∧ s.answers = s'.answers := by
  have start : (init .line fastVars clockUs).Alike (init .line 0 clockUs) := ⟨rfl, rfl, rfl, rfl, rfl, rfl, rfl⟩
  have alike := start.run events
  exact ⟨alike.cell, alike.posting, alike.stored, alike.answers⟩

end Station

end Xair
