import Xair.Gateway.Witness
import Xair.Release.MultiCell

/-!
# What XAIR knows of a controller

The context that the bridge keeps up to date, the commands that gateways send with the
versions they read there, and when the context shows the controller as it is.
-/

namespace Xair

/-! ### The context -/

/-- The context of XAIR once it has stored these pairs in this order, other updates in between. -/
inductive Members.Mirrors : Members → List (Str × Int) → Prop where
  | start {c : Members} : c.get "line".toList = none → Mirrors c []
  | bridge {c : Members} {lines : List (Str × Int)} (line : Str × Int) :
      Mirrors c lines → Mirrors (deepMerge c (bridgePatch line)) (lines ++ [line])
  | other {c : Members} {lines : List (Str × Int)} (patch : Members) :
      patch.get "line".toList = none → Mirrors c lines → Mirrors (deepMerge c patch) lines

namespace Members

variable {c : Members} {lines : List (Str × Int)}

theorem Mirrors.get (mirrors : c.Mirrors lines) : c.get "line".toList = lines.getLast?.map lineValue := by
  induction mirrors with
  | start absent => exact absent
  | @bridge c lines line _ ih =>
    have wf : (bridgePatch line).WF := ⟨by simp [keys], ⟨by simp [keys], trivial, by simp [keys], trivial, trivial⟩, trivial⟩
    rw [get_deepMerge_of_get_some wf (show (bridgePatch line).get "line".toList = some (lineValue line) from rfl), ih,
      List.getLast?_concat]
    cases lines.getLast? with
    | none => rfl
    | some old => rfl
  | other patch absent _ ih => rw [get_deepMerge_of_get_none absent, ih]

theorem Mirrors.lineOf (mirrors : c.Mirrors lines) : c.LineOf lines := by
  have shown := mirrors.get
  cases last : lines.getLast? with
  | none =>
    rw [last] at shown
    exact Or.inl shown
  | some line =>
    rw [last] at shown
    exact Or.inr ⟨line, List.mem_of_getLast? last, shown⟩

end Members

theorem getPath_state {c : Members} {line : Str × Int} (has : c.get "line".toList = some (lineValue line)) :
    getPath c "line.state".toList = some (.str line.1) := by
  rw [getPath, show "line.state".toList = "line.".toList ++ "state".toList from rfl, segments_line "state" (by decide)]
  simp only [Json.walk, has]
  rfl

/-- The version beside a line state that the precondition is true of. -/
theorem Members.Mirrors.vouches [PyText] {c : Members} {lines : List (Str × Int)} (mirrors : c.Mirrors lines)
    (holds : truth lineRuns c = .ok true) {version : Int} (read : getPath c "line.version".toList = some (.int version)) :
    (runState, version) ∈ lines := by
  obtain ⟨shown, member, has⟩ := mirrors.lineOf.runs holds
  rw [getPath_version has] at read
  cases read
  exact member

namespace Station

variable {s s' : Station} {m : MultiCell} {e : StationEvent}

/-! ### The conveyor -/

section

variable [PyText]

/-- XAIR has had a context with this version in which the precondition was true. -/
def Witnesses (s : Station) (version : Int) : Prop :=
  ∃ (c : Members) (lines : List (Str × Int)), lines <+: s.stored ∧ c.Mirrors lines ∧ truth lineRuns c = .ok true ∧
    getPath c "line.version".toList = some (.int version)

/-- Only predicate commands are queued, and conditional ones with a version that was read beside RUN. -/
def Guarded (s : Station) : StationEvent → Prop
  | .enqueue command =>
    (∃ ticket id deadlineMs, command = predicateResume ticket id deadlineMs) ∨
      ∃ ticket id version deadlineMs, command = conditionalResume ticket id version deadlineMs ∧ s.Witnesses version
  | _ => True

theorem Witnesses.stored {version : Int} (h : s.Witnesses version) : (runState, version) ∈ s.stored := by
  obtain ⟨c, lines, earlier, mirrors, holds, read⟩ := h
  exact earlier.subset (mirrors.vouches holds read)

end

/-- What is queued can only be executed on a line in RUN. -/
def Awaits (s : Station) (command : CellCommand) : Prop :=
  command.needsRun = true ∨ ∃ a ∈ s.seen, a.state = runState ∧ command.expected = some a.version

structure Interlocked (s : Station) : Prop where
  queued : ∀ command ∈ s.controller.cell.pending, s.Awaits command
  conveyor : s.controller.cell.running = true → s.controller.cell.state = runState

theorem Awaits.mono {command : CellCommand} (awaits : s.Awaits command) (seen : ∀ a ∈ s.seen, a ∈ s'.seen) : s'.Awaits command := by
  rcases awaits with needs | ⟨a, old, its⟩
  · exact Or.inl needs
  · exact Or.inr ⟨a, seen a old, its⟩

theorem Interlocked.serve (queued : ∀ command ∈ m.cell.pending, s.Awaits command)
    (conveyor : m.cell.running = true → m.cell.state = runState) : (s.serve m).Interlocked :=
  ⟨fun command member => (queued command member).mono fun _ old => List.mem_append_left _ old, conveyor⟩

theorem Interlocked.aside (interlocked : s.Interlocked) (aside : s.Aside s' e) : s'.Interlocked := by
  obtain ⟨queue, controller⟩ := aside.controller
  refine ⟨fun command member => ?_, ?_⟩
  · rw [controller] at member
    refine (interlocked.queued command member).mono fun a old => ?_
    rw [aside.seen]
    exact old
  · rw [controller]
    exact interlocked.conveyor

/-- A command that is executed finds the line in RUN: its version determines the state. -/
theorem Inv.executes (inv : s.Inv) {command : CellCommand} (awaits : s.Awaits command) {now : ℚ} {state : Str} {version : Int}
    (executed : s.controller.cell.answer now command = .executed state version) : s.controller.cell.state = runState := by
  obtain ⟨_, _, matching, interlock, _⟩ := Cell.executed_spec executed
  rcases awaits with needs | ⟨a, seen, run, expected⟩
  · exact interlock needs
  · have same := (inv.functional a seen _ inv.here (matching _ expected)).1
    rw [← run, same]
    rfl

theorem Interlocked.exec [PyText] (inv : s.Inv) (interlocked : s.Interlocked) (guarded : s.Guarded e) : (s.exec e).Interlocked := by
  cases e with
  | setLineState value =>
    obtain ⟨conveyor, pending⟩ := CellHost.setState_conveyor s.controller.cell value
    refine .serve (fun command member => ?_) conveyor
    rw [show (s.controller.setState value).cell.pending = _ from pending] at member
    exact interlocked.queued command member
  | fastChange name =>
    cases changed : s.controller.fastChange name with
    | none =>
      simp only [Station.exec, changed]
      exact interlocked
    | some m =>
      simp only [Station.exec, changed]
      obtain ⟨pending, running, state⟩ := MultiCell.fastChange_frame changed
      refine .serve ?_ ?_
      · rw [pending]
        exact interlocked.queued
      · rw [running, state]
        exact interlocked.conveyor
  | enqueue command =>
    refine .serve (fun other member => ?_) interlocked.conveyor
    rcases List.mem_append.mp member with old | new
    · exact interlocked.queued other old
    · rw [List.mem_singleton.mp new]
      rcases guarded with ⟨ticket, id, deadlineMs, rfl⟩ | ⟨ticket, id, version, deadlineMs, rfl, read⟩
      · exact Or.inl rfl
      · obtain ⟨a, seen, its⟩ := inv.known _ (Or.inr (Or.inr (Or.inr read.stored)))
        obtain ⟨state, same⟩ := Prod.mk.inj its
        exact Or.inr ⟨a, seen, state, congrArg some same.symm⟩
  | scan now =>
    obtain ⟨state, _, _, pending⟩ := CellHost.performs_frame now s.controller.cell.pending { s.controller.cell with pending := [] }
    have served : (s.serve { s.controller with cell := (s.controller.cell.scan now).1 }).Interlocked := by
      refine .serve (fun command member => ?_) fun started => ?_
      · rw [show (s.controller.cell.scan now).1.pending = [] from pending] at member
        cases member
      · rw [show (s.controller.cell.scan now).1.state = s.controller.cell.state from state]
        refine CellHost.performs_interlocked (c := { s.controller.cell with pending := [] })
          (fun command member s' v executed => ?_) interlocked.conveyor started
        exact inv.executes (interlocked.queued command member) executed
    exact ⟨served.queued, served.conveyor⟩
  | take => exact interlocked.aside s.aside_take
  | post done => exact interlocked.aside (s.aside_post done)
  | arrive index => exact interlocked.aside (s.aside_arrive index)

theorem Interlocked.run [PyText] (inv : s.Inv) (interlocked : s.Interlocked) {events : List StationEvent} (guarded : Along Guarded s events) :
    (s.run events).Interlocked := by
  induction events generalizing s with
  | nil => exact interlocked
  | cons e events ih => exact ih (inv.exec e) (interlocked.exec inv guarded.1) guarded.2

/-- The pairs on the way to XAIR are in the order of their versions. -/
structure Ordered (s : Station) : Prop where
  late : s.late = []
  increasing : s.line.Pairwise fun a b => a.2 < b.2
  below : ∀ pair ∈ s.line, pair.2 ≤ s.controller.cell.version

/-- The last pair on the way, or the last one XAIR has stored, is the present one. -/
def Current (s : Station) : Prop := s.line.getLast? = some (s.controller.cell.state, s.controller.cell.version)

theorem line_serve {m : MultiCell} {more : List (Str × Int)} (queue : m.cell.bridgeQueue = s.controller.cell.bridgeQueue ++ more)
    (answers : List (Nat × CellAnswer)) (executions : List (CellCommand × MultiReading)) :
    ({ s.serve m with answers := answers, executions := executions } : Station).line = s.line ++ more := by
  simp [Station.line, serve, queue]

theorem Ordered.exec (ordered : s.Ordered) (punctual : e ≠ .post .late) : (s.exec e).Ordered := by
  obtain ⟨late, increasing, below⟩ := ordered
  rcases s.exec_cases e with ⟨m, onward, answers, executions, same, _⟩ | aside
  · obtain ⟨_, version, more, queue, queued⟩ := onward
    have line : (s.exec e).line = s.line ++ more := by rw [same, line_serve queue]
    have latest : (s.exec e).controller.cell.version = m.cell.version := by rw [same]; rfl
    refine ⟨by rw [same]; exact late, ?_, fun pair member => ?_⟩
    · rw [line]
      rcases queued with ⟨rfl, _, _⟩ | ⟨rfl, later⟩
      · rwa [List.append_nil]
      · refine List.pairwise_append.mpr ⟨increasing, List.pairwise_singleton _ _, fun a old b new => ?_⟩
        rw [List.mem_singleton.mp new]
        exact Int.lt_of_le_of_lt (below a old) later
    · rw [line] at member
      rw [latest]
      rcases List.mem_append.mp member with old | new
      · have le := below pair old
        omega
      · rcases queued with ⟨rfl, _, _⟩ | ⟨rfl, later⟩
        · cases new
        · rw [List.mem_singleton.mp new]
  · obtain ⟨none, fewer, _⟩ := aside.line late punctual
    obtain ⟨queue, controller⟩ := aside.controller
    refine ⟨none, increasing.sublist fewer, fun pair member => ?_⟩
    rw [controller]
    exact below pair (fewer.subset member)

theorem Current.exec (current : s.Current) (late : s.late = []) (punctual : e ≠ .post .late) (kept : e ≠ .post .lost) :
    (s.exec e).Current := by
  unfold Current at *
  rcases s.exec_cases e with ⟨m, onward, answers, executions, same, _⟩ | aside
  · obtain ⟨_, _, more, queue, queued⟩ := onward
    have line : (s.exec e).line = s.line ++ more := by rw [same, line_serve queue]
    have controller : (s.exec e).controller = m := by rw [same]; rfl
    rw [line, controller]
    rcases queued with ⟨rfl, state, version⟩ | ⟨rfl, _⟩
    · rw [List.append_nil, current, state, version]
    · exact List.getLast?_concat
  · obtain ⟨_, _, last⟩ := aside.line late punctual
    obtain ⟨queue, controller⟩ := aside.controller
    rw [last kept, current, controller]

theorem Ordered.run (ordered : s.Ordered) {events : List StationEvent} (punctual : StationEvent.post .late ∉ events) :
    (s.run events).Ordered ∧ (s.Current → StationEvent.post .lost ∉ events → (s.run events).Current) := by
  induction events generalizing s with
  | nil => exact ⟨ordered, fun current _ => current⟩
  | cons e events ih =>
    have first : e ≠ .post .late := fun same => punctual (by rw [same]; exact List.mem_cons_self)
    have rest : StationEvent.post .late ∉ events := fun later => punctual (List.mem_cons_of_mem _ later)
    obtain ⟨ends, follows⟩ := ih (ordered.exec first) rest
    refine ⟨ends, fun current kept => follows ?_ fun later => kept (List.mem_cons_of_mem _ later)⟩
    exact current.exec ordered.late first fun same => kept (by rw [same]; exact List.mem_cons_self)

/-- As long as no request outlives its timeout XAIR never goes back to an older version; and if no request was lost either, then
once the bridge has nothing left to send the context shows the present line state and version. -/
theorem mirror_follows (scope : CellScope) (fastVars : Nat) (clockUs : Int) {events : List StationEvent}
    (punctual : StationEvent.post .late ∉ events) :
    let s := (init scope fastVars clockUs).run events
    s.stored.Pairwise (fun a b => a.2 < b.2) ∧
      (StationEvent.post .lost ∉ events → s.posting = none → s.controller.cell.bridgeQueue = [] →
        ∀ c : Members, c.Mirrors s.stored →
          getPath c "line.state".toList = some (.str s.controller.cell.state) ∧
            getPath c "line.version".toList = some (.int s.controller.cell.version)) := by
  intro s
  have start : (init scope fastVars clockUs).Ordered := by
    refine ⟨rfl, List.pairwise_singleton _ _, fun pair member => ?_⟩
    rw [List.mem_singleton.mp member]
    exact Int.le_refl _
  obtain ⟨ordered, follows⟩ := start.run punctual
  refine ⟨?_, fun kept idle sent c mirrors => ?_⟩
  · refine ordered.increasing.sublist ?_
    rw [Station.line, List.append_assoc]
    exact List.sublist_append_left _ _
  · have current : s.Current := follows rfl kept
    have last : s.stored.getLast? = some (s.controller.cell.state, s.controller.cell.version) := by
      simpa [Current, Station.line, idle, sent] using current
    have shown := mirrors.get
    rw [last] at shown
    exact ⟨getPath_state shown, getPath_version shown⟩

/-- A pause that is undone before the bridge comes to send it. -/
def coalesced : List StationEvent :=
  [.take, .post .stored, .setLineState "PAUSED".toList, .fastChange "v0".toList, .setLineState runState, .take, .post .stored]

theorem mirror_follows_coalesced :
    let c := deepMerge (deepMerge .nil (bridgePatch (runState, 10))) (bridgePatch (runState, 13))
    getPath c "line.state".toList = some (.str runState) ∧ getPath c "line.version".toList = some (.int 13) := by
  have mirrors : (deepMerge (deepMerge .nil (bridgePatch (runState, 10))) (bridgePatch (runState, 13))).Mirrors
      ((init .global 1 10).run coalesced).stored := .bridge (runState, 13) (.bridge (runState, 10) (.start rfl))
  exact (mirror_follows .global 1 10 (by decide : StationEvent.post .late ∉ coalesced)).2 (by decide) rfl rfl _ mirrors

/-- A request that outlives its timeout takes XAIR back to a line that runs. -/
example : ((init .line 0 10).run [.take, .post .late, .setLineState "PAUSED".toList, .take, .post .stored, .arrive 0]).stored =
    [("PAUSED".toList, 11), (runState, 10)] := by decide

end Station

end Xair
