import Xair.Context.Grammar
import Xair.Gateway.Starts
import Xair.Server.Settling

/-!
# The witness of a conditional command

The bridge sends a line state with the version that the controller gave it, and a gateway
passes the version it has found beside the state as the witness of its command. What the
controller executes on that version it executes in that state.
-/

namespace Xair

open Library

/-! ### Messages of the bridge -/

/-- `{"state": state, "version": version}`. -/
def lineValue (line : Str × Int) : Json :=
  .obj (.cons "state".toList (.str line.1) (.cons "version".toList (.int line.2) .nil))

/-- The message of the bridge. -/
def bridgePatch (line : Str × Int) : Members := .single "line" (lineValue line)

/-- The precondition. -/
def lineRuns : Str := "line.state == 'RUN'".toList

/-- The line of the context is one of these, if there is one. -/
def Members.LineOf (c : Members) (lines : List (Str × Int)) : Prop :=
  c.get "line".toList = none ∨ ∃ line ∈ lines, c.get "line".toList = some (lineValue line)

/-- The context shows the line running, as one of these. -/
def Members.RunsIn (c : Members) (lines : List (Str × Int)) : Prop :=
  ∃ version, (runState, version) ∈ lines ∧ c.get "line".toList = some (lineValue (runState, version))

namespace Members

variable {c : Members} {lines lines' : List (Str × Int)}

theorem LineOf.subset (h : c.LineOf lines) (more : lines ⊆ lines') : c.LineOf lines' :=
  h.imp_right fun ⟨line, member, has⟩ => ⟨line, more member, has⟩

theorem RunsIn.subset (h : c.RunsIn lines) (more : lines ⊆ lines') : c.RunsIn lines' :=
  h.imp fun _ its => ⟨more its.1, its.2⟩

/-- A message of the bridge replaces the line. -/
theorem LineOf.bridge {line : Str × Int} (h : c.LineOf lines) (sent : line ∈ lines) : (deepMerge c (bridgePatch line)).LineOf lines := by
  refine Or.inr ⟨line, sent, ?_⟩
  have wf : (bridgePatch line).WF := ⟨by simp [keys], ⟨by simp [keys], trivial, by simp [keys], trivial, trivial⟩, trivial⟩
  rw [get_deepMerge_of_get_some wf (show (bridgePatch line).get "line".toList = some (lineValue line) from rfl)]
  rcases h with none | ⟨old, _, has⟩
  · rw [none]
    rfl
  · rw [has]
    rfl

theorem LineOf.other {patch : Members} (h : c.LineOf lines) (absent : patch.get "line".toList = none) : (deepMerge c patch).LineOf lines := by
  rw [LineOf, get_deepMerge_of_get_none absent]
  exact h

theorem LineOf.keep (h : c.LineOf lines) (roots : List Str) : (c.keep roots).LineOf lines := by
  rw [LineOf, get_keep]
  split
  · exact h
  · exact Or.inl rfl

end Members

theorem segments_line (field : String) (dotless : '.' ∉ field.toList) :
    segments ("line.".toList ++ field.toList) = ["line".toList, field.toList] := by
  have split : "line.".toList ++ field.toList = "line".toList ++ '.' :: field.toList := rfl
  rw [split, segments_join, segments_of_no_dot (by decide), segments_of_no_dot dotless]
  rfl

theorem getPath_version {c : Members} {line : Str × Int} (has : c.get "line".toList = some (lineValue line)) :
    getPath c "line.version".toList = some (.int line.2) := by
  rw [getPath, show "line.version".toList = "line.".toList ++ "version".toList from rfl, segments_line "version" (by decide)]
  simp only [Json.walk, has]
  rfl

section

variable [PyText]

theorem parse_lineRuns : parse (strip lineRuns) = .ok (some ⟨"line.state".toList, .eq, .str runState⟩) := by
  have strips : strip lineRuns = lineRuns := by
    refine strip_eq_self (fun c first => ?_) fun c last => ?_
    · obtain rfl := Option.some.inj first
      exact (PyText.space_ascii 'l' (by decide)).trans (by decide)
    · obtain rfl := Option.some.inj last
      exact (PyText.space_ascii '\'' (by decide)).trans (by decide)
  have path : IsPath "line.state".toList := by
    intro name member
    rw [show "line.state".toList = "line.".toList ++ "state".toList from rfl, segments_line "state" (by decide)] at member
    have word : ∀ text : Str, text.all (fun c => decide (c.toNat < 128) && c.isAlphanum) = true → ∀ c ∈ text, isWord c = true := by
      intro text all c inside
      have its := List.all_eq_true.mp all c inside
      rw [Bool.and_eq_true, decide_eq_true_eq] at its
      simp [isWord, PyText.alnum_ascii c its.1, its.2]
    rcases List.mem_pair.mp member with rfl | rfl
    · exact ⟨by decide, word _ (by decide)⟩
    · exact ⟨by decide, word _ (by decide)⟩
  have sentence : Sentence lineRuns "line.state".toList .eq "'RUN'".toList :=
    ⟨[' '], [' '], "==", rfl, path, spaces_one, by decide, spaces_one⟩
  have read : literal "'RUN'".toList = .ok (some (.str runState)) := by
    show Except.ok ((closeQuote '\'' "RUN'".toList).map Json.str) = _
    rw [show closeQuote '\'' "RUN'".toList = some runState by decide]
    rfl
  have isLiteral : IsLiteral "'RUN'".toList (.str runState) := .single (show '\'' ∉ runState by decide)
  rw [strips, parse_sentence sentence isLiteral.begins, read]
  rfl

/-- A context in which the precondition is true shows the line running. -/
theorem Members.LineOf.runs {c : Members} {lines : List (Str × Int)} (h : c.LineOf lines) (holds : truth lineRuns c = .ok true) :
    c.RunsIn lines := by
  obtain ⟨ok, msg, checked, iff⟩ := checkExpression_of_parse c parse_lineRuns
  rw [truth, checked] at holds
  obtain ⟨p, its, present, compared⟩ := iff.mp (Except.ok.inj holds)
  obtain rfl := Option.some.inj its
  have resolved : resolve c "line.state".toList = (Json.obj c).resolve ["line".toList, "state".toList] := by
    rw [resolve, show "line.state".toList = "line.".toList ++ "state".toList from rfl, segments_line "state" (by decide)]
  rw [resolved] at present compared
  rcases h with none | ⟨⟨state, version⟩, member, has⟩
  · rw [Json.resolve, none] at present
    exact absurd rfl present
  · rw [Json.resolve, has] at compared
    have same : (state == runState) = true := Option.some.inj compared
    obtain rfl := eq_of_beq same
    exact ⟨version, member, has⟩

end

/-! ### Verdicts -/

/-- The validation of an intent that is no stop has found its predicates true. -/
def IntentRecord.Upheld (r : IntentRecord) : Prop :=
  r.actionClass ≠ .stop ∧ (r.outcome.any fun outcome => decide (outcome ≠ .revoke)) = true

instance (r : IntentRecord) : Decidable r.Upheld := inferInstanceAs (Decidable (_ ∧ _))

theorem decideOutcome_valid {i : ActionIntent} {temporal context : Bool × Str} {busy : Bool} {outcome : DecisionOutcome}
    {reason : Str} (h : decideOutcome i temporal context busy = (outcome, reason)) (upheld : outcome ≠ .revoke) :
    context.1 = true := by
  rw [decideOutcome] at h
  split at h
  · exact absurd (Prod.mk.inj h).1.symm upheld
  · split at h
    · exact absurd (Prod.mk.inj h).1.symm upheld
    · rename_i _ valid
      rwa [Bool.not_eq_true', Bool.not_eq_false] at valid

section

variable [PyText]

/-- What is not revoked is valid, whatever becomes of it. -/
theorem Evaluated.valid {cfg : Config} {call : ProcessCall} {rt rt' : Runtime} {ref : Ref} {record : IntentRecord}
    {outcome : DecisionOutcome} {reason : Str} (h : Evaluated cfg call rt ref rt' record outcome reason) (upheld : outcome ≠ .revoke) :
    ∃ msg, evaluatePredicates call.timedOut (rt.prepared ref).safetyConstraints (rt.prepared ref).preconditions
      (call.snapshot rt) = .ok (true, msg) := by
  have decided := h.decided
  rw [decision] at decided
  cases evaluated : evaluatePredicates call.timedOut (rt.prepared ref).safetyConstraints
      (rt.prepared ref).preconditions (call.snapshot rt) with
  | error e => rw [evaluated] at decided; cases decided
  | ok context =>
    rw [evaluated] at decided
    have valid := decideOutcome_valid (Except.ok.inj decided) upheld
    obtain ⟨ok, msg⟩ := context
    obtain rfl : ok = true := valid
    exact ⟨msg, rfl⟩

/-- What a pass has returned, if it is upheld. -/
def Runtime.Upholds (rt : Runtime) (call : ProcessCall) (ref : Ref) (a : IntentRecord) : Prop :=
  (rt.records.get (rt.heap ref).id = some a ∧ a.state.validatable = false) ∨
    ∃ msg, evaluatePredicates call.timedOut (rt.prepared ref).safetyConstraints (rt.prepared ref).preconditions
      (call.snapshot rt) = .ok (true, msg)

theorem ends_validationPass_upheld (cfg : Config) (call : ProcessCall) {rt : Runtime} (ref : Ref) {record : IntentRecord}
    (found : rt.records.get (rt.heap ref).id = some record) (opened : record.state.validatable = true) :
    Ends (validationPass cfg call ref) rt
      (fun a _ => a.Upheld → ∃ msg, evaluatePredicates call.timedOut (rt.prepared ref).safetyConstraints
        (rt.prepared ref).preconditions (call.snapshot rt) = .ok (true, msg)) fun _ _ => True := by
  apply ends_validationPass_begun cfg call ref found opened
  · intro rt₁ r₁ h _ stop
    refine (ends_authorizeStop h.stored h.state _ _).imp ?_ fun _ _ h => h.elim
    rintro a rt' ⟨_, _, _, cls, _⟩ upheld
    exact absurd (cls.trans (h.cls.trans stop)) upheld.1
  · intro rt₁ r₁ h _ _ _
    refine (ends_revokeStale h.stored h.state _).imp ?_ fun _ _ h => h.elim
    rintro a rt' ⟨_, _, _, outcome, _⟩ upheld
    rw [IntentRecord.Upheld, outcome] at upheld
    exact absurd upheld.2 (by decide)
  · intro rt₁ r₁ h _ _ _
    refine ends_evaluate_decided h (fun _ _ _ _ _ _ _ _ => trivial) fun rt₂ r₂ outcome reason evaluated _ => ?_
    by_cases execute : outcome = .execute
    · subst execute
      exact (ends_conclude_execute evaluated.stored evaluated.state _ _ _).imp (fun _ _ _ _ => evaluated.valid (by decide))
        fun _ _ h => h.elim
    · refine (ends_conclude_other evaluated.stored evaluated.state _ _ execute _).imp ?_ fun _ _ _ => trivial
      rintro a rt' ⟨_, _, _, its, _⟩ upheld
      rw [IntentRecord.Upheld, its, Option.any_some, decide_eq_true_eq] at upheld
      exact evaluated.valid upheld.2

theorem ends_processIntent_upheld (cfg : Config) (call : ProcessCall) (rt : Runtime) (ref : Ref) :
    Ends (processIntent cfg call ref) rt (fun a _ => a.Upheld → rt.Upholds call ref a) fun _ _ => True := by
  rw [processIntent, ends_bind, ends_get]
  cases found : rt.records.get (rt.heap ref).id with
  | some record =>
    simp only
    split
    · rename_i opened
      exact (ends_validationPass_upheld cfg call ref found opened).imp (fun _ _ valid upheld => Or.inr (valid upheld)) fun _ _ h => h
    · rename_i closed
      exact ends_pure.mpr fun _ => Or.inl ⟨found, Bool.eq_false_iff.mpr closed⟩
  | none =>
    simp only
    rw [ends_bind, ends_set]
    have stored : (rt.register ref).records.get ((rt.register ref).heap ref).id = some (.fresh ref) := Dict.get_insert_self _ _ _
    exact (ends_validationPass_upheld cfg call ref stored rfl).imp
      (fun _ _ valid upheld => Or.inr (valid upheld)) fun _ _ h => h

end

/-! ### The controller -/

/-- A line that the controller had before another: of a lower version, or the same. -/
def Precedes (line line' : Str × Int) : Prop := line.2 < line'.2 ∨ line = line'

theorem Precedes.refl (line : Str × Int) : Precedes line line := Or.inr rfl

theorem Precedes.trans {line line' line'' : Str × Int} (first : Precedes line line') (second : Precedes line' line'') :
    Precedes line line'' := by
  rcases first with lower | rfl
  · rcases second with lower' | rfl
    · exact Or.inl (Int.lt_trans lower lower')
    · exact Or.inl lower
  · exact second

/-- Of one version there is one line. -/
theorem Precedes.eq {line line' : Str × Int} (h : Precedes line line') (version : line.2 = line'.2) : line = line' :=
  h.resolve_left (version ▸ Int.lt_irrefl _)

namespace Cell

/-- The line as the bridge announces it. -/
def line (c : Cell) : Str × Int := (c.state, c.version)

/-- The state file holds the version, and everything the bridge has to announce was the line. -/
structure Recorded (c : Cell) : Prop where
  file : c.persisted = some c.version
  natural : 0 ≤ c.version
  queued : ∀ line ∈ c.bridgeQueue, Precedes line c.line

variable {c : Cell}

theorem recorded_boot {persisted : Option Int} (clockUs : Nat) (natural : ∀ version, persisted = some version → 0 ≤ version) :
    (boot persisted clockUs).Recorded := by
  refine ⟨rfl, ?_, fun line queued => Or.inr (List.mem_singleton.mp queued)⟩
  cases persisted with
  | none => exact Int.natCast_nonneg clockUs
  | some version => exact Int.add_nonneg (natural version rfl) (by decide)

theorem Recorded.boot (h : c.Recorded) (clockUs : Nat) :
    (boot c.persisted clockUs).Recorded ∧ Precedes c.line (Cell.boot c.persisted clockUs).line := by
  refine ⟨recorded_boot clockUs fun version its => ?_, Or.inl ?_⟩
  · rw [← Option.some.inj (h.file.symm.trans its)]
    exact h.natural
  · rw [h.file]
    exact Int.lt_succ c.version

theorem Recorded.setState (h : c.Recorded) (value : Str) :
    (c.setState value).Recorded ∧ Precedes c.line (c.setState value).line := by
  have moved : ∀ moved : Cell, moved.Recorded ∧ Precedes c.line moved.line →
      (if value ≠ runState then { moved with running := false } else moved).Recorded ∧
        Precedes c.line (if value ≠ runState then { moved with running := false } else moved).line := by
    intro moved its
    split
    · exact ⟨⟨its.1.file, its.1.natural, its.1.queued⟩, its.2⟩
    · exact its
  refine moved _ ?_
  split
  · have later : Precedes c.line (value, c.version + 1) := Or.inl (Int.lt_succ c.version)
    refine ⟨⟨rfl, Int.add_nonneg h.natural (by decide), fun line queued => ?_⟩, later⟩
    rcases List.mem_append.mp queued with old | new
    · exact (h.queued line old).trans later
    · exact Or.inr (List.mem_singleton.mp new)
  · exact ⟨h, .refl _⟩

/-- A scan leaves everything but the queue of commands, the effects and whether the line runs. -/
theorem scan_same (c : Cell) (now : ℚ) : (c.scan now).1.line = c.line ∧ (c.scan now).1.persisted = c.persisted ∧
    (c.scan now).1.bridgeQueue = c.bridgeQueue ∧ (c.scan now).1.pending = [] := by
  have performs : ∀ (commands : List CellCommand) (c : Cell),
      (commands.foldl (fun c command => c.perform now command) c).line = c.line ∧
        (commands.foldl (fun c command => c.perform now command) c).persisted = c.persisted ∧
        (commands.foldl (fun c command => c.perform now command) c).bridgeQueue = c.bridgeQueue ∧
        (commands.foldl (fun c command => c.perform now command) c).pending = c.pending := by
    intro commands
    induction commands with
    | nil => exact fun c => ⟨rfl, rfl, rfl, rfl⟩
    | cons command rest ih =>
      intro c
      have one : (c.perform now command).line = c.line ∧ (c.perform now command).persisted = c.persisted ∧
          (c.perform now command).bridgeQueue = c.bridgeQueue ∧ (c.perform now command).pending = c.pending := by
        unfold perform
        split <;> exact ⟨rfl, rfl, rfl, rfl⟩
      obtain ⟨line, persisted, queue, pending⟩ := ih (c.perform now command)
      exact ⟨line.trans one.1, persisted.trans one.2.1, queue.trans one.2.2.1, pending.trans one.2.2.2⟩
  exact performs c.pending { c with pending := [] }

theorem Recorded.scan (h : c.Recorded) (now : ℚ) : (c.scan now).1.Recorded := by
  obtain ⟨line, persisted, queue, _⟩ := scan_same c now
  have version : (c.scan now).1.version = c.version := congrArg Prod.snd line
  refine ⟨?_, ?_, ?_⟩
  · rw [persisted, version]
    exact h.file
  · rw [version]
    exact h.natural
  · rw [queue, line]
    exact h.queued

end Cell

/-! ### The invariant -/

namespace Site

/-- A witness that no line has, or that the bridge has announced with the line running. -/
def Vouched (version : Int) (s : Site) : Prop := version < 0 ∨ (runState, version) ∈ s.announced

/-- The context shows a line that was announced, and a conditional command for the intent has the version of one that ran. -/
structure Lined (x : Str) (s : Site) : Prop where
  named : s.Named
  recorded : s.cell.Recorded
  announced : ∀ line ∈ s.announced, Precedes line s.cell.line
  context : s.store.snapshot.context.LineOf s.announced
  pending : ∀ command ∈ s.cell.pending, command.intentId = x → ∀ version, command.expected = some version → s.Vouched version
  executed : ∀ e ∈ s.executions, e.1.intentId = x → ∀ version, e.1.expected = some version → e.2 = (runState, version)
  scanned : ∀ e ∈ s.executions, Precedes e.2 s.cell.line

/-- Intents keep their ids, and what is announced stays announced. -/
structure Ahead (s s' : Site) : Prop where
  grows : s.Grows s'
  announced : s.announced ⊆ s'.announced
  passes : s.passes ⊆ s'.passes

variable {x : Str} {s s' s'' : Site}

theorem Ahead.refl (s : Site) : s.Ahead s := ⟨.refl s, fun _ h => h, fun _ h => h⟩

/-- A step outside the process. -/
theorem Ahead.outside (runtime : s'.runtime = s.runtime) (allocated : s'.allocated = s.allocated) (passes : s'.passes = s.passes)
    (announced : s.announced ⊆ s'.announced) : s.Ahead s' :=
  ⟨⟨Nat.le_of_eq allocated.symm, fun ref _ => by rw [runtime]⟩, announced, by rw [passes]; exact fun _ h => h⟩

theorem Ahead.trans (first : s.Ahead s') (second : s'.Ahead s'') : s.Ahead s'' :=
  ⟨first.grows.trans second.grows, fun _ h => second.announced (first.announced h), fun _ h => second.passes (first.passes h)⟩

theorem Vouched.ahead {version : Int} (h : s.Vouched version) (moved : s.Ahead s') : s'.Vouched version :=
  h.imp_right fun announced => moved.announced announced

end Site

/-! ### Steps -/

/-- Only the bridge writes the line, and what it sends has been announced. -/
def SiteCommand.FromBridge (s : Site) : SiteCommand → Prop
  | .update patch => patch.get "line".toList = none ∨ ∃ line ∈ s.announced, patch = bridgePatch line
  | _ => True

instance (s : Site) (c : SiteCommand) : Decidable (c.FromBridge s) := by
  rcases c <;> dsimp only [SiteCommand.FromBridge] <;> infer_instance

/-- A conditional command for the intent has a witness that may be sent. -/
def SiteCommand.Witnesses (x : Str) (s : Site) : SiteCommand → Prop
  | .actuateCell _ command => command.intentId = x → ∀ version, command.expected = some version → s.Vouched version
  | _ => True

section

variable [PyText] {cfg : SiteConfig} {x : Str} {s : Site}

variable (cfg) in
/-- Only an update writes the context. -/
theorem Site.context_exec (c : SiteCommand) (s : Site) : (Site.exec cfg c s).2.store.snapshot.context = s.store.snapshot.context ∨
    ∃ patch, c = .update patch ∧ (Site.exec cfg c s).2.store.snapshot.context = deepMerge s.store.snapshot.context patch := by
  have runs : ∀ {α : Type} (m : RuntimeM α) (s : Site), (s.runs m).2.store.snapshot.context = s.store.snapshot.context :=
    fun m s => congrArg (fun store => store.snapshot.context) (Site.store_runs m s)
  cases c with
  | update patch =>
    simp only [Site.exec]
    cases updated : s.store.update cfg.predicateRetentionS (s.clock / 1000) patch with
    | error e => exact Or.inl rfl
    | ok m => exact Or.inr ⟨patch, rfl, congrArg Snapshot.context (MemoryStore.update_snapshot updated)⟩
  | admitIntent ref => exact Or.inl (runs _ s)
  | process ticket ref call => exact Or.inl (runs (processIntent cfg.config { call with now := s.clock, requeue := false } ref) s)
  | transition id state outcome reason => exact Or.inl (runs _ s)
  | recordCommit id committed reason seq => exact Or.inl (runs _ s)
  | reportRelease id released reason cv rv => exact Or.inl (runs _ s)
  | reportEffect id status detail => exact Or.inl (runs _ s)
  | supervisoryRevoke id reason => exact Or.inl (runs _ s)
  | releaseTarget record => exact Or.inl (runs (releaseTarget record) s)
  | reportWithheld id reason append =>
    simp only [Site.exec, Site.reportWithheld]
    split
    · exact Or.inl rfl
    split
    · exact Or.inl rfl
    split
    · exact Or.inl rfl
    split
    · exact Or.inl (runs _ _)
    · exact Or.inl rfl
    · exact Or.inl rfl
  | registerAndSnapshot exprs =>
    have registered := MemoryStore.register_snapshot cfg.predicateRetentionS (s.clock / 1000) exprs s.store
    left
    simp only [Site.exec]
    split
    · rename_i m run
      rw [run] at registered
      exact congrArg Snapshot.context registered
    · rename_i m e run
      rw [run] at registered
      simp only [Site.withStore]
      split
      · rfl
      · exact congrArg Snapshot.context registered
  | commitAuthorization req =>
    left
    rcases s.store.commit_cases (s.clock / 1000) req with ⟨_, _, same⟩ | same
    · exact congrArg (fun store => store.snapshot.context) same
    · exact congrArg (fun out => out.2.snapshot.context) same
  | claimIntent id =>
    left
    simp only [Site.exec, Site.claimIntent]
    split
    · split
      · split <;> rfl
      · rfl
    · rfl
  | _ => exact Or.inl rfl

variable (cfg) in
/-- Only a call reaches the controller. -/
theorem Site.cell_exec (c : SiteCommand) (s : Site) : (Site.exec cfg c s).2.announced = s.announced ∧
    (Site.exec cfg c s).2.executions = s.executions ∧ ((Site.exec cfg c s).2.cell = s.cell ∨
      ∃ ticket command, c = .actuateCell ticket command ∧ (Site.exec cfg c s).2.cell = s.cell.enqueue command) := by
  have served : c.Served → (Site.exec cfg c s).2.announced = s.announced ∧ (Site.exec cfg c s).2.executions = s.executions ∧
      ((Site.exec cfg c s).2.cell = s.cell ∨ ∃ ticket command, c = .actuateCell ticket command ∧ (Site.exec cfg c s).2.cell = s.cell.enqueue command) :=
    fun served =>
      have outside : s.SameOutside (Site.exec cfg c s).2 := Site.sameOutside_exec served s
      ⟨outside.announced, outside.executions, Or.inl outside.cell⟩
  cases c with
  | actuateCell ticket command => exact ⟨rfl, rfl, Or.inr ⟨ticket, command, rfl, rfl⟩⟩
  | transition id state outcome reason =>
    have outside := Site.sameOutside_runs (Xair.transition id state outcome reason) s
    exact ⟨outside.announced, outside.executions, Or.inl outside.cell⟩
  | appendActuation tombstone => exact ⟨rfl, rfl, Or.inl rfl⟩
  | sendReport report => exact ⟨rfl, rfl, Or.inl rfl⟩
  | startCall ticket id witness => exact ⟨rfl, rfl, Or.inl rfl⟩
  | _ => exact served trivial

/-- A step: what it writes to the context comes from the bridge, and what it sends to the controller has a witness. -/
theorem Site.Lined.exec {c : SiteCommand} (h : s.Lined x) (sent : c.FromBridge s) (witnesses : c.Witnesses x s)
    (named : (Site.exec cfg c s).2.Named) : (Site.exec cfg c s).2.Lined x := by
  obtain ⟨announced, executions, cell⟩ := Site.cell_exec cfg c s
  have vouched : ∀ {version}, s.Vouched version → (Site.exec cfg c s).2.Vouched version := fun its => by
    rw [Vouched, announced]
    exact its
  have context : (Site.exec cfg c s).2.store.snapshot.context.LineOf s.announced := by
    rcases Site.context_exec cfg c s with same | ⟨patch, rfl, merged⟩
    · rw [same]
      exact h.context
    · rw [merged]
      rcases sent with other | ⟨line, member, rfl⟩
      · exact h.context.other other
      · exact h.context.bridge member
  rcases cell with same | ⟨ticket, command, rfl, queued⟩
  · refine ⟨named, same ▸ h.recorded, ?_, announced ▸ context, ?_, executions ▸ h.executed, ?_⟩
    · rw [announced, same]
      exact h.announced
    · rw [same]
      exact fun command member its version expected => vouched (h.pending command member its version expected)
    · rw [executions, same]
      exact h.scanned
  · refine ⟨named, ⟨h.recorded.file, h.recorded.natural, h.recorded.queued⟩, h.announced, context, ?_, h.executed, h.scanned⟩
    intro other member its version expected
    rcases List.mem_append.mp member with old | new
    · exact h.pending other old its version expected
    · obtain rfl := List.mem_singleton.mp new
      exact witnesses its version expected

end

/-! ### What happens by itself -/

section

variable {x : Str} {s : Site}

/-- What a scan executes, it executes on the line as it is. -/
theorem Site.executed_line {command : CellCommand} {e : CellCommand × Str × Int} (executed : s.executed command = some e) :
    e = (command, s.cell.line) ∧ ∀ version, command.expected = some version → version = s.cell.version := by
  unfold Site.executed at executed
  split at executed
  · rename_i state version answer
    obtain ⟨rfl, rfl, expected, _⟩ := Cell.executed_spec answer
    exact ⟨(Option.some.inj executed).symm, expected⟩
  · cases executed

theorem Site.Lined.scan (h : s.Lined x) : s.scan.Lined x := by
  obtain ⟨line, _, _, pending⟩ := Cell.scan_same s.cell s.clock
  have appended : ∀ e ∈ s.scan.executions, e ∈ s.executions ∨ ∃ command ∈ s.cell.pending, s.executed command = some e :=
    fun e member => (List.mem_append.mp member).imp_right List.mem_filterMap.mp
  refine ⟨h.named, h.recorded.scan s.clock, fun l member => ?_, h.context, fun command member => ?_, fun e member its version expected => ?_,
    fun e member => ?_⟩
  · exact line.symm ▸ h.announced l member
  · exact absurd (pending ▸ member) List.not_mem_nil
  · rcases appended e member with old | ⟨command, queued, executed⟩
    · exact h.executed e old its version expected
    · obtain ⟨rfl, conditions⟩ := Site.executed_line executed
      have present : version = s.cell.line.2 := conditions version expected
      -- the version at the scan is one, so a witness that no line has is not executed
      rcases h.pending command queued its version expected with none | ran
      · exact absurd h.recorded.natural (Int.not_le.mpr (conditions version expected ▸ none))
      · exact ((h.announced _ ran).eq present).symm
  · change Precedes e.2 (s.cell.scan s.clock).1.line
    rw [line]
    rcases appended e member with old | ⟨command, _, executed⟩
    · exact h.scanned e old
    · rw [(Site.executed_line executed).1]
      exact .refl _

theorem Site.Lined.moved {cell : Cell} (h : s.Lined x) (recorded : cell.Recorded) (line : Precedes s.cell.line cell.line)
    (pending : ∀ command ∈ cell.pending, command ∈ s.cell.pending) : Site.Lined x { s with cell := cell } :=
  ⟨h.named, recorded, fun l member => (h.announced l member).trans line, h.context, fun command member => h.pending command (pending command member),
    h.executed, fun e member => (h.scanned e member).trans line⟩

/-- What the bridge announces was the line. -/
theorem Site.Lined.announces {line : Str × Int} (h : s.Lined x) (was : Precedes line s.cell.line) :
    Site.Lined x { s with announced := s.announced ++ [line] } := by
  refine ⟨h.named, h.recorded, fun l member => ?_, h.context.subset (List.subset_append_left _ _), fun command member its version expected => ?_,
    h.executed, h.scanned⟩
  · rcases List.mem_append.mp member with old | new
    · exact h.announced l old
    · exact List.mem_singleton.mp new ▸ was
  · exact (h.pending command member its version expected).imp_right fun ran => List.mem_append_left _ ran

theorem Site.Lined.change (h : s.Lined x) (change : DeploymentChange) : (change.apply s).Lined x ∧ s.Ahead (change.apply s) := by
  have still : ∀ {s' : Site}, s'.Lined x → s'.runtime = s.runtime → s'.allocated = s.allocated → s'.passes = s.passes →
      s.announced ⊆ s'.announced → s'.Lined x ∧ s.Ahead s' :=
    fun lined runtime allocated passes announced => ⟨lined, .outside runtime allocated passes announced⟩
  have same : s.announced ⊆ s.announced := fun _ member => member
  cases change with
  | tick clock mono =>
    exact still ⟨h.named, h.recorded, h.announced, h.context, h.pending, h.executed, h.scanned⟩ rfl rfl rfl same
  | plcAnswer text =>
    exact still ⟨h.named, h.recorded, h.announced, h.context, h.pending, h.executed, h.scanned⟩ rfl rfl rfl same
  | setState value =>
    obtain ⟨recorded, line⟩ := h.recorded.setState value
    refine still (h.moved recorded line fun command member => ?_) rfl rfl rfl same
    unfold Cell.setState at member
    split at member <;> split at member <;> exact member
  | boot clockUs =>
    obtain ⟨recorded, line⟩ := h.recorded.boot clockUs
    exact still (h.moved recorded line fun command member => absurd member List.not_mem_nil) rfl rfl rfl same
  | scan => exact still h.scan rfl rfl rfl same
  | sample =>
    have cleared : Site.Lined x { s with cell := { s.cell with bridgeQueue := [] } } :=
      h.moved ⟨h.recorded.file, h.recorded.natural, fun _ member => absurd member List.not_mem_nil⟩ (.refl _) fun _ member => member
    exact still (cleared.announces (.refl _)) rfl rfl rfl (List.subset_append_left _ _)
  | announce =>
    simp only [DeploymentChange.apply, Site.announce]
    cases queue : s.cell.bridgeQueue with
    | nil => exact ⟨h, .refl s⟩
    | cons line rest =>
      have taken : Site.Lined x { s with cell := { s.cell with bridgeQueue := rest } } := by
        refine h.moved ⟨h.recorded.file, h.recorded.natural, fun l member => ?_⟩ (.refl _) fun _ member => member
        exact h.recorded.queued l (queue ▸ List.mem_cons_of_mem _ member)
      exact still (taken.announces (h.recorded.queued line (queue ▸ List.mem_cons_self))) rfl rfl rfl (List.subset_append_left _ _)

end

/-! ### The discipline -/

/-- Whatever is sent to the controller for `x` has a witness, and lines come from the bridge. -/
def lining [PyText] (cfg : SiteConfig) (x : Str) : Discipline (site cfg) DeploymentJob where
  Inv := Site.Lined x
  Step _ _ s s' := s.Ahead s'
  Rely _ s s' := s.Ahead s'
  step_refl _ _ s := .refl s
  rely_refl _ s := .refl s
  rely_trans _ _ _ _ first second := first.trans second
  rely_of_step _ _ _ _ _ _ step := step

/-- The intent that is validated carries the precondition. -/
def SiteCommand.Carries (x : Str) (s : Site) : SiteCommand → Prop
  | .process _ ref _ => (s.runtime.heap ref).id = x → lineRuns ∈ (s.runtime.heap ref).preconditions
  | _ => True

instance (x : Str) (s : Site) (c : SiteCommand) : Decidable (c.Carries x s) := by
  rcases c <;> dsimp only [SiteCommand.Carries] <;> infer_instance

/-- If a pass over `x` finds its record decided, and not against it, the precondition is true on the snapshot of the pass. What
the run's pass has not upheld is not upheld when the run reads it. -/
def OwnVerdict [PyText] (x : Str) (t : Nat) (s : Site) : SiteCommand → Prop
  | .process _ ref call => (s.runtime.heap ref).id = x → ∀ r ∈ s.runtime.records.get x, r.state.validatable = false → r.Upheld →
    truth lineRuns (call.snapshot s.runtime) = .ok true
  | .current id held => id = x → (t, x) ∈ s.passes → (s.current x held).Upheld → held.Upheld
  | _ => True

instance [PyText] (x : Str) (t : Nat) (s : Site) (c : SiteCommand) : Decidable (OwnVerdict x t s c) := by
  rcases c <;> dsimp only [OwnVerdict] <;> infer_instance

section

variable [PyText] {cfg : SiteConfig} {x : Str} {s : Site}

theorem Site.ahead_exec {c : SiteCommand} (grows : s.Grows (Site.exec cfg c s).2) (passes : s.passes <+: (Site.exec cfg c s).2.passes) :
    s.Ahead (Site.exec cfg c s).2 := by
  refine ⟨grows, ?_, passes.subset⟩
  rw [(Site.cell_exec cfg c s).1]
  exact fun _ member => member

variable (cfg) in
/-- Requests send nothing to the controller. -/
theorem Site.Lined.served {c : SiteCommand} (served : c.Served) (h : s.Lined x) (sent : c.FromBridge s)
    (named : (Site.exec cfg c s).2.Named) (grows : s.Grows (Site.exec cfg c s).2) :
    (Site.exec cfg c s).2.Lined x ∧ s.Ahead (Site.exec cfg c s).2 := by
  have witnesses : c.Witnesses x s := by
    cases c with
    | actuateCell ticket command => exact absurd served (show ¬False from id)
    | _ => trivial
  exact ⟨h.exec sent witnesses named, Site.ahead_exec grows (Site.histories_exec served s).2⟩

variable (cfg) in
theorem lined_routine {c : SiteCommand} (routine : c.Routine) (inv : s.Lined x) (sent : c.FromBridge s) :
    (Site.exec cfg c s).2.Lined x ∧ s.Ahead (Site.exec cfg c s).2 :=
  have moved : s.Reported _ (Site.exec cfg c s).2 := Site.reported_exec routine s
  inv.served cfg routine.served sent (moved.named inv.named) moved.grows

theorem lineOf_read {m : MemoryStore} {lines : List (Str × Int)} (h : m.snapshot.context.LineOf lines) (exprs : List Str) :
    (cfg.read exprs m).snapshot.context.LineOf lines := by
  rw [SiteConfig.read]
  split
  · exact h.keep _
  · exact h

theorem Policy.mem_applyTo {policy : Policy} {i : ActionIntent} {expr : Str} (member : expr ∈ i.preconditions) :
    expr ∈ (policy.applyTo i).1.preconditions := by
  rw [Policy.applyTo]
  split
  · exact member
  · exact List.mem_append_left _ member

/-- What a pass upholds on a snapshot of its own shows the line running. -/
theorem Site.process_runs {ticket : Nat} {ref : Ref} {call : ProcessCall} {a : IntentRecord} {context : Members} {lines : List (Str × Int)}
    (names : (s.runtime.heap ref).id = x) (given : call.context = some context) (lined : context.LineOf lines)
    (carries : (SiteCommand.process ticket ref call).Carries x s) (own : OwnVerdict x ticket s (.process ticket ref call))
    (answered : (s.process cfg ticket ref call).1 = .ok a) (upheld : a.Upheld) : context.RunsIn lines := by
  have upholds : s.runtime.Upholds call ref a := by
    have ends := ends_processIntent_upheld cfg.config { call with now := s.clock, requeue := false } s.runtime ref
    simp only [Site.process, Site.runs] at answered
    cases run : processIntent cfg.config { call with now := s.clock, requeue := false } ref s.runtime with
    | error e rt => rw [run] at answered; cases answered
    | ok b rt =>
      rw [run] at answered
      obtain rfl := Except.ok.inj answered
      exact ends.of_run_ok run upheld
  have snapshot : call.snapshot s.runtime = context := by rw [ProcessCall.snapshot, given, Option.getD_some]
  refine lined.runs ?_
  rcases upholds with ⟨present, closed⟩ | ⟨msg, valid⟩
  · rw [names] at present
    exact snapshot ▸ own names a present closed upheld
  · rw [snapshot] at valid
    exact truth_of_evaluatePredicates valid lineRuns (List.mem_append_right _ (Policy.mem_applyTo (carries names)))

variable {t : Nat} {role : DeploymentJob} {may : SiteCommand → Site → Fate → Prop} {id : Str}

/-- What a run knows of its own submission: that the snapshot of a pass which upholds the intent shows the line running, if that is needed. -/
def witnessCourse (cfg : SiteConfig) (x : Str) (t : Nat) (role : DeploymentJob) (id : Str) (may : SiteCommand → Site → Fate → Prop)
    (sent : ∀ c s fate, may c s fate → c.FromBridge s) (needed : Prop) (own : needed → id = x)
    (verdicts : needed → ∀ c s fate, may c s fate → c.Carries x s ∧ OwnVerdict x t s c) :
    Course (lining cfg x) t role may t id where
  Moves := Site.Ahead
  Keeps := Site.Ahead
  Ready ref := Site.Names ref id
  Source context s := context.LineOf s.announced
  Good context a s := s.Names a.intent id ∧ (t, id) ∈ s.passes ∧
    (needed → a.Upheld → ∀ members, context = some members → members.RunsIn s.announced)
  moves_trans _ _ _ first second := first.trans second
  keeps_refl := Site.Ahead.refl
  keeps_trans _ _ _ first second := first.trans second
  moves_of_keeps _ _ moved := moved
  keeps_of_rely _ _ rely := rely
  ready_moves _ _ _ names moved := names.grows moved.grows
  source_moves _ _ _ lined moved := lined.subset moved.announced
  good_keeps _ _ _ _ good moved := ⟨good.1.grows moved.grows, moved.passes good.2.1,
    fun need upheld members its => (good.2.2 need upheld members its).subset moved.announced⟩
  ready_of_good _ _ _ _ good := good.1
  plain c s fate plain inv allowed :=
    have kept := lined_routine cfg plain.routine inv (sent c s fate allowed)
    ⟨kept.1, kept.2, kept.2⟩
  withdrawn outcome reason s fate inv allowed :=
    have kept := lined_routine cfg (routine_withdraw id outcome reason) inv (sent _ s fate allowed)
    ⟨kept.1, kept.2, kept.2⟩
  created i s own _ _ :=
    ⟨Nat.lt_succ_self _, (congrArg ActionIntent.id ((Runtime.heap_putIntent _ _ _ _).trans (if_pos rfl))).trans own⟩
  admission ref s _ inv names _ := by
    obtain ⟨a, s', run, named, grown, _⟩ := Site.Named.admitIntent cfg inv.named names
    have kept := inv.served cfg (c := .admitIntent ref) trivial trivial (by rw [run]; exact named) (by rw [run]; exact grown)
    exact ⟨kept.1, kept.2, kept.2⟩
  admitted ref s a inv names _ same := by
    obtain ⟨b, s', run, _, _, its⟩ := Site.Named.admitIntent cfg inv.named names
    have answer : Except.ok a = Except.ok b := same.symm.trans (congrArg Prod.fst run)
    rw [run, Except.ok.inj answer]
    exact its
  registered exprs s inv _ doc same trusted := by
    rw [(Site.cell_exec cfg (.registerAndSnapshot exprs) s).1]
    subst same
    have registered := MemoryStore.register_snapshot cfg.predicateRetentionS (s.clock / 1000) exprs s.store
    simp only [Site.exec] at trusted ⊢
    split at trusted
    · rename_i m run
      rw [run] at registered
      exact lineOf_read (show m.snapshot.context.LineOf _ by rw [registered]; exact inv.context) exprs
    · cases trusted
  process ref call s _ inv names _ _ := by
    obtain ⟨named, grown⟩ := Site.Named.process inv.named names.1 (Site.processed_process cfg t ref call s)
    have kept := inv.served cfg (c := .process t ref call) trivial trivial named grown
    exact ⟨kept.1, kept.2, kept.2⟩
  processed ref call s a inv names source allowed same := by
    have processed := Site.processed_process cfg t ref call s
    have stored := processed.answered a same
    have grown := Site.Named.process inv.named names.1 processed
    rw [names.2] at stored
    refine ⟨grown.1 id a stored, ?_, fun need upheld members its => ?_⟩
    · rw [processed.passes, names.2]
      exact List.mem_append_right _ List.mem_cons_self
    · obtain ⟨carries, verdict⟩ := verdicts need _ s .done allowed
      rw [show (s.process cfg t ref call).2.announced = s.announced from (Site.cell_exec cfg (.process t ref call) s).1]
      exact Site.process_runs (names.2.trans (own need)) its (source members its) carries verdict same upheld
  read context a s _ good allowed := by
    refine ⟨?_, good.2.1, fun need upheld => ?_⟩
    · rw [Site.current_intent]
      exact good.1
    · obtain rfl := own need
      exact good.2.2 need ((verdicts need _ s .done allowed).2 rfl good.2.1 upheld)

end

/-! ### A run after its submission -/

/-- What a run sends after its submission, where its commands to the controller are among these. -/
def SiteCommand.After (among : CellCommand → Prop) : SiteCommand → Prop
  | .startCall _ _ _ => True
  | .actuateCell _ command => among command
  | c => c.Idle

theorem beside_after (among : CellCommand → Prop) : Beside (SiteCommand.After among) := by
  refine ⟨fun c routine => ?_, fun _ => trivial⟩
  cases c with
  | startCall ticket id witness => trivial
  | actuateCell ticket command => exact absurd routine (show ¬False from id)
  | appendActuation tombstone => trivial
  | sendReport report => trivial
  | _ => exact routine

/-- A conditional command for the intent with this witness. -/
def CellCommand.For (id : Str) (witness : Option Json) [PyText] (command : CellCommand) : Prop :=
  command.intentId = id ∧ ∀ version, command.expected = some version → witnessVersion witness = .ok version

section

variable [PyText] {cfg : SiteConfig} {x : Str} {s : Site} {t : Nat} {id : Str} {α : Type}

theorem after_callActuator (actuator : Actuator) (witness : Option Json) (deadlineMs : ℚ) {among : CellCommand → Prop}
    (own : ∀ command, command.For id witness → among command) :
    Method.Sends (SiteCommand.After among) (callActuator t id actuator witness deadlineMs : Handler cfg (Option Str × Bool)) := by
  refine (sends_callsFor id actuator witness deadlineMs).imp fun c calls => ?_
  cases c with
  | actuateCell _ command => exact own command calls
  | _ => trivial

theorem after_releaseStop : Method.Sends (SiteCommand.After fun _ => False) (releaseStop t id : Handler cfg GatewayResult) := by
  refine Method.sends_bind (sends_step (c := .startCall t id none) trivial) fun _ => ?_
  refine Method.sends_bind (Method.sends_tryCatch ?_ fun _ => Method.sends_pure _) fun called => ?_
  · exact Method.sends_bind (sends_step (c := .publish) trivial) fun _ => Method.sends_pure _
  · exact Method.sends_bind ((beside_after _).sendRelease true _ none none _) fun _ => Method.sends_pure _

theorem after_releaseAtomic (q : GatewayQuery) (i : ActionIntent) (result : SubmitAnswer) :
    Method.Sends (SiteCommand.After (CellCommand.For result.id (result.readValues.lookup "line.version".toList)))
      (releaseAtomic t q i result : Handler cfg GatewayResult) := by
  refine Method.sends_bind (Method.sends_tryCatch ?_ fun _ => Method.sends_pure _) fun release => ?_
  · refine Method.sends_bind ((beside_after _).http (sends_commitIntent result.id _ q.commitMarginMs)) fun act => ?_
    refine Method.sends_ite ?_ (Method.sends_pure _)
    refine Method.sends_bind (sends_step (c := .time) trivial) fun now => ?_
    refine Method.sends_ite ?_ (Method.sends_bind ((beside_after _).sendWithheld _ q.append) fun _ => Method.sends_pure _)
    refine Method.sends_bind (sends_step (c := .startCall t result.id _) trivial) fun _ => ?_
    exact Method.sends_bind (Method.sends_tryCatch (after_callActuator q.actuator _ _ fun _ its => its) fun _ => Method.sends_pure _)
      fun _ => Method.sends_pure _
  · cases release with
    | blocked reason => exact Method.sends_pure _
    | called reason cellResult rosOk =>
      exact Method.sends_bind ((beside_after _).sendRelease true reason none none _) fun _ => Method.sends_pure _

/-- The witness that the optimistic branch finds. -/
def gateWitness (result : SubmitAnswer) (doc : SnapshotDoc) : Option Json :=
  (getPath doc.snapshot.context "line.version".toList).or (result.readValues.lookup "line.version".toList)

/-- The gate lets a call pass on this snapshot. -/
def GatePasses (cfg : SiteConfig) (result : SubmitAnswer) (i : ActionIntent) (scope : VersionScope) (doc : SnapshotDoc) : Prop :=
  ∃ state now timedOut reason, gateCheck cfg result i scope doc state now timedOut = .ok (true, reason)

variable (cfg t) in
theorem after_checkAndCall (q : GatewayQuery) (i : ActionIntent) (result : SubmitAnswer) (doc : SnapshotDoc)
    (state : Option IntentState) (timedOut : Nat → Nat → Bool) :
    Method.Sends (SiteCommand.After fun command => GatePasses cfg result i q.scope doc ∧ command.For result.id (gateWitness result doc))
      (checkAndCall t q i result doc state timedOut : Handler cfg Release) := by
  refine Method.sends_bind (sends_step (c := .time) trivial) fun now => ?_
  cases checked : gateCheck cfg result i q.scope doc state now timedOut with
  | error e => exact Method.sends_throw _
  | ok out =>
    obtain ⟨passed, reason⟩ := out
    cases passed with
    | false => exact Method.sends_pure _
    | true =>
      refine Method.sends_bind (sends_step (c := .startCall t result.id _) trivial) fun _ => ?_
      exact Method.sends_bind (after_callActuator q.actuator _ _ fun _ its => ⟨⟨_, _, _, _, checked⟩, its⟩) fun _ => Method.sends_pure _

variable {role : DeploymentJob} {may : SiteCommand → Site → Fate → Prop} (sent : ∀ c s fate, may c s fate → c.FromBridge s)

include sent

/-- A run that sends the controller nothing but vouched commands. -/
theorem lining_after {among : CellCommand → Prop} {m : Handler cfg α} (sends : Method.Sends (SiteCommand.After among) m)
    (vouched : ∀ command, among command → command.intentId = x → ∀ version, command.expected = some version → s.Vouched version) :
    Method.Runs (lining cfg x) t role may m () s (fun _ _ _ => True) fun _ _ _ => True := by
  refine (Method.Runs.keeping
    (K := fun (s : Site) => ∀ command, among command → command.intentId = x → ∀ version, command.expected = some version → s.Vouched version)
    (fun _ _ kept (rely : Site.Ahead _ _) command its own version expected => (kept command its own version expected).ahead rely)
    (fun c s fate after inv kept allowed => ?_) sends vouched).imp (fun _ _ _ _ _ => trivial) fun _ _ _ _ _ => trivial
  suffices (Site.exec cfg c s).2.Lined x ∧ s.Ahead (Site.exec cfg c s).2 from
    ⟨this.1, this.2, fun command its own version expected => (kept command its own version expected).ahead this.2⟩
  have outside : (Site.exec cfg c s).2.runtime = s.runtime → (Site.exec cfg c s).2.allocated = s.allocated →
      (Site.exec cfg c s).2.passes = s.passes → c.Witnesses x s → (Site.exec cfg c s).2.Lined x ∧ s.Ahead (Site.exec cfg c s).2 := by
    intro runtime allocated passes witnesses
    have moved : s.Ahead (Site.exec cfg c s).2 := .outside runtime allocated passes (by rw [(Site.cell_exec cfg c s).1]; exact fun _ h => h)
    refine ⟨inv.exec (sent c s fate allowed) witnesses fun id r stored => ?_, moved⟩
    rw [runtime] at stored
    exact (inv.named id r stored).grows moved.grows
  cases c with
  | startCall ticket id witness => exact outside rfl rfl rfl trivial
  | sendReport report => exact outside rfl rfl rfl trivial
  | appendActuation tombstone => exact outside rfl rfl rfl trivial
  | actuateCell ticket command => exact outside rfl rfl rfl (kept command after)
  | _ => exact lined_routine cfg after inv (sent _ s fate allowed)

end

/-! ### The snapshot of the gate -/

section

variable [PyText] {cfg : SiteConfig} {x : Str} {s : Site} {t : Nat} {id : Str} {role : DeploymentJob}
  {may : SiteCommand → Site → Fate → Prop} (sent : ∀ c s fate, may c s fate → c.FromBridge s)

/-- The line of a snapshot that the store has given was announced. -/
def SnapshotDoc.Lined (doc : SnapshotDoc) (s : Site) : Prop := doc.trusted = true → doc.snapshot.context.LineOf s.announced

omit [PyText] in
theorem SnapshotDoc.Lined.ahead {doc : SnapshotDoc} {s' : Site} (h : doc.Lined s) (moved : s.Ahead s') : doc.Lined s' :=
  fun trusted => (h trusted).subset moved.announced

section

variable (cfg x t role id)

/-- A course that needs no verdict. -/
abbrev lineCourse : Course (lining cfg x) t role may t id := witnessCourse cfg x t role id may sent False False.elim False.elim

end

theorem leads_readSnapshot (inv : s.Lined x) :
    (lineCourse cfg x t id role sent).Leads readSnapshot s fun read s' => (⟨read.1, Dict.empty, read.2⟩ : SnapshotDoc).Lined s' := by
  let C := lineCourse cfg x t id role sent
  refine C.leads_bind inv (P := fun reply s' => ∀ snapshot : Snapshot, reply = some snapshot → snapshot.context.LineOf s'.announced)
    (C.leads_attempted (c := .snapshot) (P := fun (snapshot : Snapshot) s' => snapshot.context.LineOf s'.announced)
      (fun s' fate _ inv' allowed => ?_) (fun s' _ inv' _ s'' kept => ?_) inv) fun reply s₁ inv₁ _ lined => ?_
  · exact C.plain .snapshot s' fate trivial inv' allowed
  · exact inv'.context.subset kept.announced
  · cases reply with
    | some snapshot =>
      exact C.leads_plain inv₁ (sends_step (c := .install snapshot) trivial) fun _ s₂ _ kept₂ =>
        C.leads_pure fun s' kept _ => ((lined snapshot rfl).subset kept₂.announced).subset kept.announced
    | none =>
      exact C.leads_plain inv₁ (sends_step (c := .lastView) trivial) fun _ _ _ _ => C.leads_pure fun _ _ trusted => nomatch trusted

theorem leads_snapshotDocument (inv : s.Lined x) (exprs : Option (List Str)) :
    (lineCourse cfg x t id role sent).Leads (snapshotDocument exprs) s SnapshotDoc.Lined := by
  let C := lineCourse cfg x t id role sent
  cases exprs with
  | none =>
    exact C.leads_bind inv (leads_readSnapshot sent inv) fun read s₁ _ _ lined => C.leads_pure fun s' kept => lined.ahead kept
  | some exprs =>
    refine C.leads_bind inv (P := fun reply s' => ∀ doc : SnapshotDoc, reply = some doc → doc.Lined s')
      (C.leads_attempted (c := .snapshotWithPredicates exprs) (P := fun (doc : SnapshotDoc) s' => doc.Lined s')
        (fun s' fate _ inv' allowed => ?_) (fun s' _ inv' _ s'' kept => ?_) inv) fun reply s₁ inv₁ _ lined => ?_
    · exact C.plain (.snapshotWithPredicates exprs) s' fate trivial inv' allowed
    · refine SnapshotDoc.Lined.ahead (s := s') (fun _ => ?_) kept
      change (if exprs = [] then (⟨s'.store.snapshot, Dict.empty, true⟩ : SnapshotDoc)
        else { cfg.read exprs s'.store with preds := restrictPreds s'.store.preds exprs }).snapshot.context.LineOf s'.announced
      split
      · exact inv'.context
      · exact lineOf_read inv'.context exprs
    · cases reply with
      | some doc =>
        refine Method.runs_ite (fun _ => ?_) fun _ => C.leads_pure fun s' kept => (lined doc rfl).ahead kept
        exact C.leads_plain inv₁ (sends_step (c := .install doc.snapshot) trivial) fun _ s₂ _ kept₂ =>
          C.leads_pure fun s' kept => ((lined doc rfl).ahead kept₂).ahead kept
      | none =>
        exact C.leads_plain inv₁ (sends_step (c := .lastView) trivial) fun _ _ _ _ => C.leads_pure fun _ _ trusted => nomatch trusted

include sent in
/-- What the gate reads. -/
theorem lining_pullSnapshot (inv : s.Lined x) (exprs : Option (List Str)) :
    Method.Runs (lining cfg x) t role may (pullSnapshot exprs id) () s (fun read _ s' => SnapshotDoc.Lined read.1 s') fun _ _ _ => True := by
  let C := lineCourse cfg x t id role sent
  refine Method.runs_tryCatch inv (Method.Runs.imp (show C.Leads _ s fun read s' => SnapshotDoc.Lined read.1 s' from ?_)
    (fun _ _ _ _ ends => ends.2) fun _ _ _ _ _ _ => Method.runs_pure fun _ _ _ trusted => nomatch trusted)
  refine C.leads_plain inv (sends_step (c := .send) trivial) fun _ s₁ inv₁ _ => ?_
  refine C.leads_bind inv₁ (P := fun read s' => SnapshotDoc.Lined read.1 s') ?_ fun read s₂ inv₂ _ lined => ?_
  · refine C.leads_bind inv₁ (leads_snapshotDocument sent inv₁ exprs) fun doc s₂ inv₂ _ lined => ?_
    exact C.leads_plain inv₂ (sends_step (c := .recordOf id) trivial) fun _ s₃ _ kept₃ =>
      C.leads_pure fun s' kept => (lined.ahead kept₃).ahead kept
  · exact C.leads_plain inv₂ (sends_step (c := .send) trivial) fun _ s₃ _ kept₃ =>
      C.leads_pure fun s' kept => (lined.ahead kept₃).ahead kept

end

/-! ### The whole run -/

/-- A run on `x` submits an intent with the precondition. -/
def DeploymentJob.Conditional (x : Str) : DeploymentJob → Prop
  | .gateway _ body _ _ => body.id = x → lineRuns ∈ body.preconditions
  | .request _ => True

instance (x : Str) (job : DeploymentJob) : Decidable (job.Conditional x) := by
  rcases job <;> dsimp only [DeploymentJob.Conditional] <;> infer_instance

/-- What the event starts is conditional. -/
def StartsConditional [PyText] {cfg : SiteConfig} (x : Str) : PoolEvent (site cfg) (deployment cfg) → Prop
  | .start _ job => DeploymentJob.Conditional x job
  | _ => True

instance [PyText] {cfg : SiteConfig} (x : Str) : DecidablePred fun e : PoolEvent (site cfg) (deployment cfg) => StartsConditional x e
  | .start _ job => inferInstanceAs (Decidable (DeploymentJob.Conditional x job))
  | .step _ _ => .isTrue trivial
  | .env _ => .isTrue trivial

/-- A run on `x` in the atomic branch. -/
def DeploymentJob.AtomicOn (x : Str) : DeploymentJob → Prop
  | .gateway q body _ _ => body.id = x ∧ q.atomic = true
  | .request _ => False

instance (x : Str) (job : DeploymentJob) : Decidable (job.AtomicOn x) := by
  rcases job <;> dsimp only [DeploymentJob.AtomicOn] <;> infer_instance

/-- The run the claim is about: the bridge is the only writer of the line, and the intent is validated with the precondition. -/
def Bridged (x : Str) (job : DeploymentJob) (c : SiteCommand) (s : Site) : Prop := c.FromBridge s ∧ (job.On x → c.Carries x s)

instance (x : Str) (job : DeploymentJob) (c : SiteCommand) (s : Site) : Decidable (Bridged x job c s) :=
  inferInstanceAs (Decidable (_ ∧ (_ → _)))

/-- And an atomic run on the intent is answered with a verdict that holds of its own snapshot. -/
def MayWitness [PyText] (x : Str) (t : Nat) (job : DeploymentJob) (c : SiteCommand) (s : Site) : Prop :=
  Bridged x job c s ∧ (job.AtomicOn x → OwnVerdict x t s c)

instance [PyText] (x : Str) (t : Nat) (job : DeploymentJob) (c : SiteCommand) (s : Site) : Decidable (MayWitness x t job c s) :=
  inferInstanceAs (Decidable (_ ∧ (_ → _)))

/-! ### Witnesses -/

section

variable {lines : List (Str × Int)} {context : Members}

theorem lookup_readValues {context : Members} {path : Str} {paths : List Str} {value : Json}
    (found : (paths.filterMap fun path => (getPath context path).map fun value => (path, value)).lookup path = some value) :
    getPath context path = some value := by
  induction paths with
  | nil => cases found
  | cons p paths ih =>
    rw [List.filterMap_cons] at found
    cases read : getPath context p with
    | none =>
      rw [read] at found
      exact ih found
    | some v =>
      rw [read] at found
      simp only [Option.map_some, List.lookup_cons] at found
      split at found
      · rename_i same
        rw [eq_of_beq same, read, found]
      · exact ih found

variable [PyText]

/-- The version that a running line gives as a witness is that of an announced line. -/
theorem Members.RunsIn.witness {version : Int} (h : context.RunsIn lines)
    (read : witnessVersion (getPath context "line.version".toList) = .ok version) : (runState, version) ∈ lines := by
  obtain ⟨v, announced, has⟩ := h
  rw [getPath_version has] at read
  exact Except.ok.inj read ▸ announced

theorem gatePasses_runs {cfg : SiteConfig} {result : SubmitAnswer} {i : ActionIntent} {scope : VersionScope} {doc : SnapshotDoc}
    (passes : GatePasses cfg result i scope doc) (carried : lineRuns ∈ i.preconditions) :
    doc.trusted = true ∧ truth lineRuns doc.snapshot.context = .ok true := by
  obtain ⟨state, now, timedOut, reason, passed⟩ := passes
  unfold gateCheck at passed
  split at passed
  · cases passed
  rename_i trusted
  split at passed
  · cases passed
  split at passed
  · cases passed
  split at passed
  · cases passed
  refine ⟨by simpa using trusted, ?_⟩
  cases evaluated : evaluatePredicates (timedOut 0) i.safetyConstraints i.preconditions doc.snapshot.context with
  | error e => rw [evaluated] at passed; cases passed
  | ok verdict =>
    obtain ⟨ok, msg⟩ := verdict
    rw [evaluated] at passed
    cases ok with
    | false => cases passed
    | true => exact truth_of_evaluatePredicates evaluated lineRuns (List.mem_append_right _ carried)

end

section

variable [PyText] {cfg : SiteConfig} {x : Str} {s : Site} {t : Nat} {q : GatewayQuery} {body : ActionIntent}
  {timedOut gateTimedOut : Nat → Nat → Bool}

/-- The judgement for a call of a run. -/
abbrev Lining (cfg : SiteConfig) (x : Str) (t : Nat) (job : DeploymentJob) {α : Type} (m : Handler cfg α) (s : Site)
    (ok : α → Site → Prop) : Prop :=
  Method.Runs (lining cfg x) t job (fun c s _ => MayWitness x t job c s) m () s (fun a _ => ok a) fun _ _ _ => True

theorem fromBridge_of_mayWitness {job : DeploymentJob} (c : SiteCommand) (s : Site) (_ : Fate) (allowed : MayWitness x t job c s) :
    c.FromBridge s := allowed.1.1

/-- What the run is answered with. -/
structure SubmitAnswer.Endorsed (x : Str) (q : GatewayQuery) (body : ActionIntent) (result : SubmitAnswer) (s : Site) : Prop where
  own : result.id = body.id
  atomic : body.id = x → q.atomic = true → result.actionClass ≠ .stop →
    ∀ version, witnessVersion (result.readValues.lookup "line.version".toList) = .ok version → s.Vouched version

theorem lining_submission (inv : s.Lined x) :
    Lining cfg x t (.gateway q body timedOut gateTimedOut) (http (submitIntent t (some body) timedOut)) s fun result s' =>
      result.duplicate = true ∨ result.outcome ≠ some .execute ∨ result.Endorsed x q body s' := by
  let C := witnessCourse cfg x t (.gateway q body timedOut gateTimedOut) body.id
    (fun c s _ => MayWitness x t (.gateway q body timedOut gateTimedOut) c s) fromBridge_of_mayWitness (body.id = x ∧ q.atomic = true)
    And.left fun need c s _ allowed => ⟨allowed.1.2 need.1, allowed.2 need⟩
  refine (C.leads_http inv rfl timedOut).imp (fun result _ s' _ ends => ?_) fun _ _ _ _ _ => trivial
  rcases ends.2 with duplicate | other | ⟨context, record, payload, ⟨_, _, runs⟩, rfl⟩
  · exact Or.inl duplicate
  · exact Or.inr (Or.inl other)
  by_cases executes : record.outcome = some .execute
  · refine Or.inr (Or.inr ⟨rfl, fun own atomic noStop version read => ?_⟩)
    have upheld : record.Upheld := ⟨noStop, by rw [executes]; rfl⟩
    cases context with
    | none => exact Or.inl (by cases read; decide)
    | some members =>
      have runsIn := runs ⟨own, atomic⟩ upheld members rfl
      simp only [submitAnswer] at read
      cases found : List.lookup "line.version".toList (record.readSet.filterMap fun path =>
          (getPath members path).map fun value => (path, value)) with
      | none =>
        rw [found] at read
        exact Or.inl (by cases read; decide)
      | some value =>
        rw [found, ← lookup_readValues found] at read
        exact Or.inr (runsIn.witness read)
  · exact Or.inr (Or.inl executes)

/-- The atomic branch: the witness is one of the run's own snapshot. -/
theorem lining_releaseAtomic {result : SubmitAnswer} (endorsed : result.Endorsed x q body s) (atomic : q.atomic = true)
    (noStop : result.actionClass ≠ .stop) (i : ActionIntent) :
    Lining cfg x t (.gateway q body timedOut gateTimedOut) (releaseAtomic t q i result) s fun _ _ => True := by
  refine lining_after fromBridge_of_mayWitness (after_releaseAtomic q i result) fun command its own version expected => ?_
  exact endorsed.atomic (endorsed.own.symm.trans (its.1.symm.trans own)) atomic noStop version (its.2 version expected)

/-- The optimistic branch: the witness is one of the gate's snapshot. -/
theorem lining_releaseOptimistic (inv : s.Lined x) {result : SubmitAnswer} (own : result.id = body.id) {i : ActionIntent}
    (carried : body.id = x → lineRuns ∈ i.preconditions) :
    Lining cfg x t (.gateway q body timedOut gateTimedOut) (releaseOptimistic t q i result gateTimedOut) s fun _ _ => True := by
  refine Method.runs_bind inv ((lining_pullSnapshot fromBridge_of_mayWitness inv _).imp (fun read _ s₁ _ lined _ => ?_)
    fun _ _ _ _ _ => trivial)
  obtain ⟨doc, state⟩ := read
  have sends := after_checkAndCall cfg t q i result doc state gateTimedOut
  refine lining_after fromBridge_of_mayWitness (Method.sends_bind (Method.sends_tryCatch sends fun _ => Method.sends_pure _)
    fun release => ?_) ?_
  · cases release with
    | blocked reason => exact Method.sends_bind ((beside_after _).sendRelease false reason _ _ none) fun _ => Method.sends_pure _
    | called reason cellResult rosOk =>
      exact Method.sends_bind ((beside_after _).sendRelease true reason _ _ _) fun _ => Method.sends_pure _
  · rintro command ⟨passes, its⟩ mine version expected
    obtain ⟨trusted, holds⟩ := gatePasses_runs passes (carried (own.symm.trans (its.1.symm.trans mine)))
    have runsIn := (lined trusted).runs holds
    obtain ⟨v, announced, has⟩ := runsIn
    have read := its.2 version expected
    rw [gateWitness, getPath_version has, Option.some_or, ← getPath_version has] at read
    exact Or.inr (Members.RunsIn.witness ⟨v, announced, has⟩ read)

/-- A gateway run. -/
theorem lining_xairPolicy (inv : s.Lined x) (conditional : (DeploymentJob.gateway q body timedOut gateTimedOut).Conditional x) :
    Lining cfg x t (.gateway q body timedOut gateTimedOut) (xairPolicy t q body timedOut gateTimedOut) s fun _ _ => True := by
  have submitted : Lining cfg x t (.gateway q body timedOut gateTimedOut) (tryCatch (do
      let result ← http (submitIntent t (some body) timedOut)
      return some result) fun _ => (pure none : Handler cfg (Option SubmitAnswer))) s fun found s' => ∀ result, found = some result →
      result.duplicate = true ∨ result.outcome ≠ some .execute ∨ result.Endorsed x q body s' := by
    refine Method.runs_tryCatch inv (Method.runs_map inv ((lining_submission inv).imp (fun _ _ _ _ ends => ends)
      fun _ _ _ _ _ _ => Method.runs_pure fun _ _ _ result none => nomatch none) fun result _ s' _ ends result' same => ?_)
    exact Option.some.inj same ▸ ends
  refine Method.runs_bind inv (submitted.imp (fun found _ s₁ _ ends inv₁ => ?_) fun _ _ _ _ _ => trivial)
  cases found with
  | none => exact Method.runs_pure fun _ _ _ => trivial
  | some result =>
    refine Method.runs_ite (fun _ => Method.runs_pure fun _ _ _ => trivial) fun first => ?_
    refine Method.runs_ite (fun _ => Method.runs_pure fun _ _ _ => trivial) fun executes => ?_
    have endorsed := ((ends result rfl).resolve_left first).resolve_left executes
    refine Method.runs_ite (fun _ => ?_) fun noStop => Method.runs_ite (fun atomic => ?_) fun _ => ?_
    · exact lining_after fromBridge_of_mayWitness after_releaseStop fun command none => none.elim
    · exact lining_releaseAtomic endorsed atomic noStop _
    · exact lining_releaseOptimistic inv₁ endorsed.own conditional

/-- Every job. -/
theorem lining_handle {job : DeploymentJob} (inv : s.Lined x) (conditional : job.Conditional x) :
    Lining cfg x t job (job.handle cfg t) s fun _ _ => True := by
  cases job with
  | gateway q body timedOut gateTimedOut =>
    exact Method.runs_map inv (lining_xairPolicy inv conditional) fun _ _ _ _ _ => trivial
  | request request =>
    have named : Naming cfg t ⟨0, request⟩ (request.handle cfg t) s fun _ _ => True := naming_handle inv.named
    have lined : Lining cfg x t (.request request) (request.handle cfg t) s fun _ _ => True := by
      refine Safe.transfer (fun s inv => Site.Lined.named inv) (fun _ _ rely => Site.Ahead.grows rely) (fun _ _ _ _ => trivial)
        (fun c s _ served inv allowed named grows => ?_) (request.sends_served t ()) named
      exact Site.Lined.served cfg served inv allowed.1.1 named grows
    exact Method.runs_map inv (lined.imp (fun _ _ _ _ ends => ends) fun _ _ _ _ _ => trivial) fun _ _ _ _ _ => trivial

end

/-! ### Runs -/

/-- A later moment: the line of the controller has not gone back, and nothing new was executed on an earlier one. -/
structure Site.LineAfter (s s' : Site) : Prop where
  recorded : s'.cell.Recorded
  line : Precedes s.cell.line s'.cell.line
  executions : ∀ e ∈ s'.executions, e ∈ s.executions ∨ Precedes s.cell.line e.2

namespace Site.LineAfter

variable {s s' s'' : Site}

theorem refl (recorded : s.cell.Recorded) : s.LineAfter s := ⟨recorded, .refl _, fun _ => Or.inl⟩

theorem trans (first : s.LineAfter s') (second : s'.LineAfter s'') : s.LineAfter s'' :=
  ⟨second.recorded, first.line.trans second.line,
    fun e member => (second.executions e member).elim (first.executions e) fun later => Or.inr (first.line.trans later)⟩

/-- The controller moves on, and executes nothing. -/
theorem moved (recorded : s'.cell.Recorded) (line : Precedes s.cell.line s'.cell.line) (executions : s'.executions = s.executions) :
    s.LineAfter s' :=
  ⟨recorded, line, fun _ member => Or.inl (executions ▸ member)⟩

theorem change (recorded : s.cell.Recorded) (change : DeploymentChange) : s.LineAfter (change.apply s) := by
  cases change with
  | tick clock mono => exact moved recorded (.refl _) rfl
  | plcAnswer text => exact moved recorded (.refl _) rfl
  | setState value => exact moved (recorded.setState value).1 (recorded.setState value).2 rfl
  | boot clockUs => exact moved (recorded.boot clockUs).1 (recorded.boot clockUs).2 rfl
  | sample => exact moved ⟨recorded.file, recorded.natural, fun _ member => absurd member List.not_mem_nil⟩ (.refl _) rfl
  | announce =>
    simp only [DeploymentChange.apply, Site.announce]
    cases queue : s.cell.bridgeQueue with
    | nil => exact refl recorded
    | cons line rest =>
      exact moved ⟨recorded.file, recorded.natural, fun l member => recorded.queued l (queue ▸ List.mem_cons_of_mem _ member)⟩ (.refl _) rfl
  | scan =>
    refine ⟨recorded.scan s.clock, ?_, fun e member => (List.mem_append.mp member).imp_right fun new => ?_⟩
    · change Precedes s.cell.line (s.cell.scan s.clock).1.line
      rw [(Cell.scan_same s.cell s.clock).1]
      exact .refl _
    · obtain ⟨command, _, executed⟩ := List.mem_filterMap.mp new
      rw [(Site.executed_line executed).1]
      exact .refl _

theorem exec [PyText] {cfg : SiteConfig} (recorded : s.cell.Recorded) (c : SiteCommand) : s.LineAfter (Site.exec cfg c s).2 := by
  obtain ⟨_, executions, cell⟩ := Site.cell_exec cfg c s
  rcases cell with same | ⟨ticket, command, rfl, queued⟩
  · exact moved (same ▸ recorded) (same ▸ .refl _) executions
  · exact moved ⟨recorded.file, recorded.natural, recorded.queued⟩ (.refl _) rfl

theorem run [PyText] {cfg : SiteConfig} {P : Pool (site cfg) (deployment cfg)} (recorded : P.shared.cell.Recorded)
    (events : List (PoolEvent (site cfg) (deployment cfg))) : P.shared.LineAfter (P.run events).shared := by
  refine Pool.shared_run (R := fun s s' : Site => s.cell.Recorded → s.LineAfter s') (fun s => refl) (fun s s' s'' first second recorded => ?_)
    (fun c s fate recorded => ?_) (fun change s recorded => LineAfter.change recorded change) P events recorded
  · exact (first recorded).trans (second (first recorded).recorded)
  · exact Service.perform_of (S := site cfg) (P := s.LineAfter) (refl recorded) (exec recorded c) fate

end Site.LineAfter

def liningContract [PyText] (cfg : SiteConfig) (x : Str) : Contract (site cfg) (deployment cfg) (lining cfg x) where
  Starts job := job.Conditional x
  May t job c s _ := MayWitness x t job c s
  LocalOk _ _ := True
  Fresh _ _ := True
  Since _ _ _ := True
  Post _ _ _ _ := True
  local_rely _ _ _ _ _ _ _ _ := trivial
  fresh_rely _ _ _ _ _ := trivial
  since_fresh _ _ _ _ := trivial
  since_step _ _ _ _ _ _ := trivial
  since_rely _ _ _ _ _ _ := trivial
  env_inv change _ inv := (inv.change change).1
  env_rely change _ _ inv := (inv.change change).2

section

variable [PyText] {cfg : SiteConfig} {x : Str}

theorem lined_run {P : Pool (site cfg) (deployment cfg)} {events : List (PoolEvent (site cfg) (deployment cfg))}
    (start : Pool.Sound (liningContract cfg x) P) (conditional : ∀ e ∈ events, StartsConditional x e)
    (along : Pool.Along (Pool.Allows fun t job c s _ => MayWitness x t job c s) P events) : (P.run events).shared.Lined x := by
  refine (start.run (fun t job l s starts inv _ _ => ?_) (along.imp fun e member P allows => ?_)).inv
  · exact Safe.imp (lining_handle inv starts) fun _ _ _ _ => ⟨trivial, trivial⟩
  · cases e with
    | start pid job => exact conditional _ member
    | step pid fate => exact fun t job c next busy => allows.command busy
    | env change => trivial

/-- Whatever the controller has executed for the intent on a version, it has executed with that version and the line running, and
the line has run whenever the controller has had this version. -/
def Witnessed (x : Str) (P : Pool (site cfg) (deployment cfg)) (events : List (PoolEvent (site cfg) (deployment cfg))) : Prop :=
  ∀ e ∈ (P.run events).shared.executions, e.1.intentId = x → ∀ version, e.1.expected = some version →
    e.2 = (runState, version) ∧ ∀ n, (P.run (events.take n)).shared.cell.version = version →
      (P.run (events.take n)).shared.cell.state = runState

/-- Any number of gateway runs and requests, interleaved at any step with the operator, the scans, the bridge and restarts of the
controller, whatever is lost: as long as the bridge is the only writer of the line, and atomic runs are answered with verdicts
that hold of their own snapshots, a conditional command of an intent with the precondition is executed on a running line. -/
theorem conditional_witnessed (cfg : SiteConfig) (x : Str) (heap : Ref → ActionIntent) (context : Members) (policy : Policy)
    (file : Option Nat) (clockUs : Nat) {events : List (PoolEvent (site cfg) (deployment cfg))}
    (conditional : ∀ e ∈ events, StartsConditional x e)
    (along : Pool.Along (Pool.Allows fun t job c s _ => MayWitness x t job c s)
      (Pool.init (Site.init heap context policy (.boot (file.map Int.ofNat) clockUs)) fun _ => ()) events) :
    Witnessed x (Pool.init (Site.init heap context policy (.boot (file.map Int.ofNat) clockUs)) fun _ => ()) events := by
  have recorded : (Cell.boot (file.map Int.ofNat) clockUs).Recorded := Cell.recorded_boot clockUs fun version its => by
    obtain ⟨n, _, rfl⟩ := Option.map_eq_some_iff.mp its
    exact Int.natCast_nonneg n
  have start : Pool.Sound (liningContract cfg x)
      (Pool.init (Site.init heap context policy (.boot (file.map Int.ofNat) clockUs)) fun _ => ()) :=
    Pool.sound_init ⟨(fun _ _ stored => nomatch stored), recorded, (fun _ member => nomatch member), Or.inl rfl,
      (fun _ member => nomatch member), (fun _ member => nomatch member), fun _ member => nomatch member⟩ (fun _ => trivial) fun _ => trivial
  generalize (Pool.init (Site.init heap context policy (.boot (file.map Int.ofNat) clockUs)) fun _ => () : Pool (site cfg) (deployment cfg)) =
    P at start along ⊢
  intro e member own version expected
  have ran : e.2 = (runState, version) := (lined_run start conditional along).executed e member own version expected
  refine ⟨ran, fun n present => ?_⟩
  have split : P.run events = (P.run (events.take n)).run (events.drop n) := by rw [← Pool.run_append, List.take_append_drop]
  have here : (P.run (events.take n)).shared.Lined x := by
    refine lined_run start (fun e member => conditional e (List.mem_of_mem_take member)) ?_
    rw [← List.take_append_drop n events] at along
    exact (Pool.along_append.mp along).1
  rw [split] at member
  have same : e.2 = (P.run (events.take n)).shared.cell.line := by
    have versions : e.2.2 = (P.run (events.take n)).shared.cell.line.2 := by rw [ran]; exact present.symm
    -- executed before this moment or after it, the line was there in the same version
    rcases (Site.LineAfter.run here.recorded (events.drop n)).executions e member with before | after
    · exact (here.scanned e before).eq versions
    · exact (after.eq versions.symm).symm
  exact (congrArg Prod.fst (same.symm.trans ran))

end

/-! ### A verdict on another snapshot -/

/-- Resume the line while it runs. -/
def whileRunning : ActionIntent := { plainIntent "a" "cell" with preconditions := [lineRuns, "line.version >= 0".toList] }

/-- An atomic run that resumes the line on the version it has read. -/
def atomicRun : DeploymentJob :=
  .gateway ⟨true, .readset, .plc .conditional, false, 0, .done⟩ whileRunning (fun _ _ => false) fun _ _ => false

/-- The bridge sends this line. -/
def bridged (line : Str × Int) : List ReportEvent := .start 0 (.request (.update (bridgePatch line))) :: doneSteps 0 4

def resumed : List ReportEvent := .env .announce :: bridged (runState, 0) ++ .start 1 atomicRun :: doneSteps 1 24 ++ [.env .scan]

theorem conditional_witnessed_resumed : (reportStart.run resumed).shared.executions.length = 1 ∧
    @Witnessed PyText.ascii reportConfig "a".toList reportStart resumed :=
  ⟨by decide +kernel, @conditional_witnessed PyText.ascii reportConfig "a".toList (fun _ => plainIntent "" "") .nil .empty none 0 resumed
    (by decide +kernel) (by decide +kernel)⟩

/-- `b` holds the target while `a` is submitted, and is revoked. Two runs submit `a` again. One is authorized and commits; the
line stops, the other takes its snapshot, finds the verdict and the commit, and passes the version of the stopped line. -/
def overtaken : List ReportEvent :=
  .env .announce :: bridged (runState, 0) ++ .start 0 holder :: doneSteps 0 13 ++ .start 1 atomicRun :: doneSteps 1 14 ++
    .start 2 holderRevoked :: doneSteps 2 2 ++ [.start 3 atomicRun, .start 4 atomicRun] ++ doneSteps 4 4 ++ doneSteps 3 19 ++
    [.env (.setState "PAUSED".toList), .env .announce] ++ bridged ("PAUSED".toList, 1) ++ doneSteps 4 20 ++ [.env .scan]

theorem overtaken_unwitnessed : ¬∀ events : List ReportEvent, (∀ e ∈ events, @StartsConditional PyText.ascii reportConfig "a".toList e) →
    Pool.Along (Pool.Meets fun job c s => Bridged "a".toList job c s) reportStart events →
      @Witnessed PyText.ascii reportConfig "a".toList reportStart events := by
  intro claim
  have witnessed := claim overtaken (by decide +kernel) (by decide +kernel)
  obtain ⟨e, member, own, expected, stopped⟩ : ∃ e ∈ (reportStart.run overtaken).shared.executions,
      e.1.intentId = "a".toList ∧ e.1.expected = some 1 ∧ e.2 = ("PAUSED".toList, 1) := by
    decide +kernel
  exact absurd (stopped.symm.trans (witnessed e member own 1 expected).1) (by decide)

end Xair
