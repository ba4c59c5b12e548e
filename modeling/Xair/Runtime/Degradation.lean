import Xair.Data.Double
import Xair.Runtime.Expiry

/-!
# Degraded payloads

A pass may rewrite the payload of its intent in place, and clears the degradation policy when
it does. So no later pass, on whatever record, rewrites it again.
-/

namespace Xair

open Library

/-! ### Halving -/

/-- `parameters.get("speed_factor", 1.0)`. -/
def ActionDescriptor.speedFactor (p : ActionDescriptor) : Json := (p.parameters.get "speed_factor".toList).getD (.float (.fin 1))

/-- What the policy of a degraded payload leaves alone. -/
structure ActionDescriptor.Follows (p p' : ActionDescriptor) : Prop where
  actionType : p'.actionType = p.actionType
  targetEntity : p'.targetEntity = p.targetEntity
  parameters : ∀ key, key ≠ "speed_factor".toList → p'.parameters.get key = p.parameters.get key

section

variable [PyText]

/-- The second payload is the first with its speed factor halved, and without its policy. -/
def Halved (p p' : ActionDescriptor) : Prop :=
  p.degradationPolicy = .reduceSpeed ∧ ∃ x, toFloat p.speedFactor = .ok x ∧
    p' = { p with parameters := p.parameters.set "speed_factor".toList (.float x.half), degradationPolicy := .none }

/-- A payload is kept, or halved once. -/
def Reduces (p p' : ActionDescriptor) : Prop := p' = p ∨ Halved p p'

theorem halved_of_applyDegradation {i j : ActionIntent} (h : applyDegradation i = .ok j) : Halved i.payload j.payload := by
  simp only [applyDegradation] at h
  split at h
  · rename_i reduce
    cases value : toFloat ((i.payload.parameters.get "speed_factor".toList).getD (.float (.fin 1))) with
    | error e => rw [value] at h; cases h
    | ok x =>
      rw [value] at h
      obtain rfl := Except.ok.inj h
      exact ⟨reduce, x, value, rfl⟩
  · cases h

theorem Halved.policy {p p' : ActionDescriptor} (h : Halved p p') : p'.degradationPolicy = .none := by
  obtain ⟨_, x, _, rfl⟩ := h
  rfl

/-- Without a policy nothing is halved. -/
theorem Reduces.of_none {p p' : ActionDescriptor} (h : Reduces p p') (none : p.degradationPolicy = .none) : p' = p := by
  rcases h with same | ⟨reduce, _⟩
  · exact same
  · rw [none] at reduce
    cases reduce

theorem Reduces.trans {p q s : ActionDescriptor} (first : Reduces p q) (second : Reduces q s) : Reduces p s := by
  rcases first with rfl | halved
  · exact second
  · exact Or.inr (second.of_none halved.policy ▸ halved)

theorem Reduces.follows {p p' : ActionDescriptor} (h : Reduces p p') : p.Follows p' := by
  rcases h with rfl | ⟨_, x, _, rfl⟩
  · exact ⟨rfl, rfl, fun _ _ => rfl⟩
  · exact ⟨rfl, rfl, fun key other => by rw [Members.get_set, if_neg other]⟩

/-- A number that is a double is not rounded. -/
theorem toFloat_exact {s : Json} {q : ℚ} (number : s.number? = some (.fin q)) (double : IsDouble q) : toFloat s = .ok (.fin q) := by
  cases s with
  | bool b =>
    obtain rfl := PyFloat.fin.inj (Option.some.inj number)
    rfl
  | int n =>
    obtain rfl := PyFloat.fin.inj (Option.some.inj number)
    delta toFloat
    dsimp only
    rw [floatOfInt_exact double]
  | float x =>
    obtain rfl := Option.some.inj number
    rfl
  | _ => cases number

/-! ### The payloads along a run -/

/-- No payload is halved twice. -/
def PayloadsReduce (rt rt' : Runtime) : Prop := ∀ r, Reduces (rt.heap r).payload (rt'.heap r).payload

instance : IsPreorder Runtime PayloadsReduce where
  refl _ _ := Or.inl rfl
  trans _ _ _ first second r := (first r).trans (second r)

theorem PayloadsReduce.of_heap {rt rt' : Runtime} (heap : rt'.heap = rt.heap) : PayloadsReduce rt rt' := fun r => by
  rw [heap]
  exact Or.inl rfl

theorem PayloadsReduce.putIntent {rt : Runtime} {ref : Ref} {i : ActionIntent} (reduces : Reduces (rt.heap ref).payload i.payload) :
    PayloadsReduce rt (rt.putIntent ref i) := by
  intro r
  rw [Runtime.heap_putIntent]
  split
  · rename_i here
    rw [here]
    exact reduces
  · exact Or.inl rfl

theorem writes_payloadsReduce : Writes PayloadsReduce where
  aside _ _ heap _ _ _ := .of_heap heap
  moved _ _ _ _ _ _ _ _ := .of_heap rfl
  assigned _ _ _ _ _ := .of_heap rfl
  noted _ _ _ _ _ := .of_heap rfl
  revised rt ref i revises := by
    refine .putIntent ?_
    cases revises with
    | policy policy => exact Or.inl (Policy.applyTo_payload _ _)
    | stop => exact Or.inl rfl
    | degraded h => exact Or.inr (halved_of_applyDegradation h)

omit [PyText] in
/-- Admission writes no intent, and registers nothing but a fresh record. -/
theorem ends_admitTimed_frame (cfg : Config) (ref : Ref) (checked stamped : ℚ) (enqueue : Bool) (rt : Runtime) :
    Ends (admitTimed cfg ref checked stamped enqueue) rt (fun _ rt' => rt'.heap = rt.heap ∧ GrantsNothing rt rt') fun _ _ => False := by
  have expired : Expired rt (expireSeen cfg checked rt) := expired_expireItems _ _ _
  have forgets : GrantsNothing rt (expireSeen cfg checked rt) := fun id record stored _ => expired.records id record stored
  rw [admitTimed, ends_bind, ends_modify, ends_bind, ends_get, ← expired.heap]
  generalize expireSeen cfg checked rt = rt₁ at forgets ⊢
  cases found : if rt₁.seen.contains (rt₁.heap ref).id then rt₁.records.get (rt₁.heap ref).id else none with
  | some record =>
    simp only [found]
    exact ends_pure.mpr ⟨rfl, forgets⟩
  | none =>
    simp only [found]
    rw [ends_bind, ends_set, ends_pure]
    have registers : GrantsNothing rt (rt₁.register ref) := by
      intro id record stored authorized
      rw [Runtime.register, Runtime.log, Runtime.putRecord, Dict.get_insert] at stored
      split at stored
      · obtain rfl := Option.some.inj stored
        cases authorized
      · exact forgets id record stored authorized
    cases enqueue with
    | true => exact ⟨rfl, registers⟩
    | false => exact ⟨rfl, registers⟩

theorem payloadsReduce_exec (cfg : Config) (rt : Runtime) {op : Operation} (other : op.admits = false) :
    PayloadsReduce rt (op.exec cfg rt) := by
  have w := writes_payloadsReduce
  have registers : ∀ (rt : Runtime) ref, rt.records.get (rt.heap ref).id = none → PayloadsReduce rt (rt.register ref) :=
    fun _ _ _ => .of_heap rfl
  cases op with
  | admitIntent ref mono enqueue => cases other
  | processIntent call ref => exact (w.processIntent registers cfg call ref).finalState rt
  | processNext call => exact (w.processNext registers cfg call).finalState rt
  | recordCommit id committed reason seq => exact (w.recordCommit id committed reason seq).finalState rt
  | reportRelease id released reason cv rv => exact (w.reportRelease cfg id released reason cv rv).finalState rt
  | reportEffect id status detail => exact (w.reportEffect id status detail).finalState rt
  | supervisoryRevoke id reason => exact (w.supervisoryRevoke id reason).finalState rt
  | setPolicy policy => exact .of_heap rfl
  | installContext snapshot version =>
    rw [Operation.exec, installContextSnapshot]
    split
    · exact .of_heap rfl
    · exact .of_heap rfl
  | setPreconditions ref preconditions => exact .putIntent (Or.inl rfl)

/-! ### What is authorized -/

omit [PyText] in
theorem decideOutcome_plain {i : ActionIntent} {temporal context : Bool × Str} {busy : Bool} {reason : Str}
    (h : decideOutcome i temporal context busy = (.execute, reason)) : i.payload.degradationPolicy = .none := by
  rw [decideOutcome] at h
  repeat' split at h
  all_goals first
    | exact not_not.mp ‹_›
    | cases h

theorem decision_plain {cfg : Config} {call : ProcessCall} {rt : Runtime} {ref : Ref} {reason : Str}
    (h : decision cfg call rt (rt.prepared ref) (call.snapshot rt) = .ok (.execute, reason)) :
    (rt.heap ref).payload.degradationPolicy = .none := by
  rw [decision] at h
  cases evaluated : evaluatePredicates call.timedOut (rt.prepared ref).safetyConstraints (rt.prepared ref).preconditions
      (call.snapshot rt) with
  | error e => rw [evaluated] at h; cases h
  | ok context =>
    rw [evaluated] at h
    have plain := decideOutcome_plain (Except.ok.inj h)
    rwa [Runtime.prepared, Policy.applyTo_payload] at plain

/-- A pass authorizes no intent that has a degradation policy left, unless it is a stop. -/
theorem ends_validationPass_plain (cfg : Config) (call : ProcessCall) {rt : Runtime} (ref : Ref) {record : IntentRecord}
    (found : rt.records.get (rt.heap ref).id = some record) (opened : record.state.validatable = true) :
    Ends (validationPass cfg call ref) rt
      (fun a _ => a.state = .authorized → a.actionClass ≠ .stop → (rt.heap ref).payload.degradationPolicy = .none) fun _ _ => True := by
  apply ends_validationPass_begun cfg call ref found opened
  · intro rt₁ r₁ h _ stop
    refine (ends_authorizeStop h.stored h.state _ _).imp ?_ fun _ _ none => none.elim
    rintro a rt' ⟨_, _, _, cls, _⟩ _ notStop
    exact absurd (cls.trans (h.cls.trans stop)) notStop
  · intro rt₁ r₁ h _ _ _
    refine (ends_revokeStale h.stored h.state _).imp ?_ fun _ _ none => none.elim
    rintro a rt' ⟨_, _, state, _⟩ authorized
    rw [state] at authorized
    cases authorized
  · intro rt₁ r₁ h _ _ _
    apply ends_evaluate_decided h
    · intro rt₂ r₂ e _ _ _ _ _
      trivial
    · intro rt₂ r₂ outcome reason evaluated _
      by_cases execute : outcome = .execute
      · subst execute
        have plain := decision_plain evaluated.decided
        exact (ends_conclude_execute evaluated.stored evaluated.state _ _ _).imp (fun _ _ _ _ _ => plain) fun _ _ none => none.elim
      · refine (ends_conclude_other evaluated.stored evaluated.state _ _ execute _).imp ?_ fun _ _ _ => trivial
        rintro a rt' ⟨_, _, state, _⟩ authorized
        rw [authorized] at state
        rcases state with h | h | h | h <;> cases h

theorem ends_processIntent_plain (cfg : Config) (call : ProcessCall) (rt : Runtime) (ref : Ref) :
    Ends (processIntent cfg call ref) rt
      (fun a _ => a.state = .authorized → a.actionClass ≠ .stop → rt.records.get (rt.heap ref).id = some a ∨
        (rt.heap ref).payload.degradationPolicy = .none) fun _ _ => True := by
  rw [processIntent, ends_bind, ends_get]
  cases found : rt.records.get (rt.heap ref).id with
  | some record =>
    simp only
    split
    · rename_i opened
      exact (ends_validationPass_plain cfg call ref found opened).imp (fun _ _ h state notStop => Or.inr (h state notStop))
        fun _ _ h => h
    · exact ends_pure.mpr fun _ _ => Or.inl rfl
  | none =>
    simp only
    rw [ends_bind, ends_set]
    have stored : (rt.register ref).records.get ((rt.register ref).heap ref).id = some (.fresh ref) := Dict.get_insert_self _ _ _
    exact (ends_validationPass_plain cfg call ref stored rfl).imp (fun _ _ h state notStop => Or.inr (h state notStop))
      fun _ _ h => h

/-- What a pass leaves authorized was so before, or is its own intent, without a policy. -/
theorem plain_of_processIntent (cfg : Config) (call : ProcessCall) (rt : Runtime) (ref : Ref) {id : Str} {record : IntentRecord}
    (stored : (finalState (processIntent cfg call ref) rt).records.get id = some record) (state : record.state = .authorized)
    (notStop : record.actionClass ≠ .stop) :
    rt.records.get id = some record ∨ record.intent = ref ∧ (rt.heap ref).payload.degradationPolicy = .none := by
  rcases authorized_of_processIntent cfg call rt ref stored state notStop with kept | ⟨rfl, granted⟩
  · exact Or.inl kept
  · revert stored
    refine Ends.finalState (P := fun rt' => rt'.records.get (rt.heap ref).id = some record → _)
      (((ends_processIntent cfg call rt ref).and (ends_processIntent_plain cfg call rt ref)).imp ?_ ?_)
    · rintro a rt' ⟨⟨_, verdict⟩, plain⟩ stored
      have same : a = record := by
        cases verdict with
        | kept present _ unchanged =>
          rw [unchanged, present] at stored
          exact Option.some.inj stored
        | stopped _ stored' => exact Option.some.inj (stored'.symm.trans stored)
        | refused _ stored' => exact Option.some.inj (stored'.symm.trans stored)
        | authorized _ stored' => exact Option.some.inj (stored'.symm.trans stored)
      subst same
      exact (plain state notStop).imp_right fun none => ⟨granted.intent, none⟩
    · rintro _ rt' ⟨⟨_, aborted⟩, _⟩ stored
      obtain ⟨r, present, validating⟩ := aborted.state
      obtain rfl := Option.some.inj (present.symm.trans stored)
      rw [validating] at state
      cases state

/-- Every payload is the submitted one, or that one halved; what is authorized, no stop, has no policy left. -/
structure Payloads (heap : Ref → ActionIntent) (rt : Runtime) : Prop where
  reduced : ∀ r, Reduces (heap r).payload (rt.heap r).payload
  plain : ∀ id record, rt.records.get id = some record → record.state = .authorized → record.actionClass ≠ .stop →
    (rt.heap record.intent).payload.degradationPolicy = .none

variable {heap : Ref → ActionIntent} {rt rt' : Runtime}

theorem Payloads.step (h : Payloads heap rt) (reduces : PayloadsReduce rt rt')
    (grants : ∀ id record, rt'.records.get id = some record → record.state = .authorized → record.actionClass ≠ .stop →
      rt.records.get id = some record ∨ (rt.heap record.intent).payload.degradationPolicy = .none) : Payloads heap rt' := by
  refine ⟨fun r => (h.reduced r).trans (reduces r), fun id record stored state notStop => ?_⟩
  have before : (rt.heap record.intent).payload.degradationPolicy = .none := by
    rcases grants id record stored state notStop with kept | none
    · exact h.plain id record kept state notStop
    · exact none
  rw [(reduces record.intent).of_none before]
  exact before

theorem Payloads.frame (h : Payloads heap rt) (heap' : rt'.heap = rt.heap) (grants : GrantsNothing rt rt') : Payloads heap rt' :=
  h.step (.of_heap heap') fun id record stored state _ => Or.inl (grants id record stored state)

theorem Payloads.operation (h : Payloads heap rt) (cfg : Config) {op : Operation} (other : op.admits = false) :
    Payloads heap (op.exec cfg rt) := by
  refine h.step (payloadsReduce_exec cfg rt other) fun id record stored state notStop => ?_
  cases pass : op.pass rt with
  | none => exact Or.inl (grantsNothing_exec cfg pass id record stored state)
  | some passed =>
    obtain ⟨call, ref⟩ := passed
    obtain ⟨queue, same⟩ := exec_of_pass cfg pass
    rw [same] at stored
    rcases plain_of_processIntent cfg call { rt with queue := queue } ref stored state notStop with kept | ⟨rfl, none⟩
    · exact Or.inl kept
    · exact Or.inr none

namespace Clocked

variable {cfg : Config} {c : Clocked}

theorem payloads_exec (h : Payloads heap c.runtime) (call : TimedCall) : Payloads heap (c.exec cfg call).runtime := by
  cases call with
  | admission ref checked stamped enqueue =>
    have ends := ends_admitTimed_frame cfg ref checked stamped enqueue c.runtime
    rw [Clocked.exec]
    cases run : (admitTimed cfg ref checked stamped enqueue).run c.runtime with
    | error e rt => exact (ends.of_run_error run).elim
    | ok a rt =>
      obtain ⟨record, duplicate⟩ := a
      obtain ⟨same, grants⟩ := ends.of_run_ok run
      cases duplicate with
      | true => exact h.frame same grants
      | false => exact h.frame same grants
  | isDuplicate id checked =>
    have expired : Expired c.runtime (expireSeen cfg checked c.runtime) := expired_expireItems _ _ _
    exact h.frame expired.heap fun id record stored _ => expired.records id record stored
  | prepare ref => exact h.step (.putIntent (Or.inl (Policy.applyTo_payload _ _))) fun _ _ stored _ _ => Or.inl stored
  | updateContext patch => exact h.frame rfl (.of_records rfl)
  | mergeContext snapshot version =>
    rw [Clocked.exec, mergeContextSnapshot]
    split
    · exact h
    · exact h.frame rfl (.of_records rfl)
  | operation op other => exact h.operation cfg other

theorem payloads_run (h : Payloads heap c.runtime) (calls : List TimedCall) : Payloads heap (c.run cfg calls).runtime := by
  induction calls generalizing c with
  | nil => exact h
  | cons call calls ih => exact ih (payloads_exec h call)

/-- In any run an authorized intent that is no stop has the submitted payload without a policy: as it was submitted if it
had none, and else with its speed factor halved once, which is exact where the factor and its half are doubles. An intent submitted
without a policy keeps its payload, and a stop has its payload as it was submitted or halved once by a pass that did not
class it as a stop. -/
theorem authorized_payload (cfg : Config) (heap : Ref → ActionIntent) (context : Members) (policy : Policy) (now : ℚ)
    (calls : List TimedCall) :
    let rt := ((init heap context policy now).run cfg calls).runtime
    (∀ id record, rt.records.get id = some record → record.state = .authorized → record.actionClass ≠ .stop →
      (rt.heap record.intent).payload.degradationPolicy = .none ∧
        (heap record.intent).payload.Follows (rt.heap record.intent).payload ∧
        ((heap record.intent).payload.degradationPolicy = .reduceSpeed →
          ∃ x, toFloat (heap record.intent).payload.speedFactor = .ok x ∧
            (rt.heap record.intent).payload.parameters.get "speed_factor".toList = some (.float x.half) ∧
            ∀ q, (heap record.intent).payload.speedFactor.number? = some (.fin q) → IsDouble q → IsDouble (q / 2) →
              x.half = .fin (q / 2))) ∧
      (∀ r, (heap r).payload.degradationPolicy = .none → (rt.heap r).payload = (heap r).payload) ∧
      ∀ r, Reduces (heap r).payload (rt.heap r).payload := by
  intro rt
  have payloads : Payloads heap rt := payloads_run (c := init heap context policy now)
    ⟨fun _ => Or.inl rfl, fun _ _ present => nomatch present⟩ calls
  refine ⟨fun id record stored state notStop => ?_, fun r none => (payloads.reduced r).of_none none, payloads.reduced⟩
  have plain := payloads.plain id record stored state notStop
  have reduced := payloads.reduced record.intent
  refine ⟨plain, reduced.follows, fun reduce => ?_⟩
  rcases reduced with same | ⟨_, x, value, its⟩
  · rw [same, reduce] at plain
    cases plain
  · refine ⟨x, value, by rw [its, Members.get_set, if_pos rfl], fun q number double half => ?_⟩
    obtain rfl := Except.ok.inj (value.symm.trans (toFloat_exact number double))
    exact PyFloat.half_exact half

/-- A finite factor has become exactly half of the submitted one, and the policy is gone. -/
def ExactlyHalved (p p' : ActionDescriptor) : Prop := ∀ q, p.speedFactor.number? = some (.fin q) →
  p'.degradationPolicy = .none ∧ p'.parameters.get "speed_factor".toList = some (.float (.fin (q / 2)))

end Clocked

end

namespace Clocked

/-- `a`, with the policy `reduce_speed` and these parameters. -/
def reducing (parameters : Members) : Ref → ActionIntent := fun _ =>
  { plainIntent "a" "cell" with payload := ⟨"MOVE".toList, "cell".toList, parameters, .reduceSpeed⟩ }

/-- A policy that classes every move as a stop. -/
def stopPolicy : Policy where
  actions := Dict.empty
  classes := Dict.empty.insert "MOVE".toList .stop
  classPredicates := Dict.empty

/-- `a` is admitted and passes twice. -/
def twoPasses : List TimedCall :=
  [.admission 0 0 0 false, plainPass, plainPass]

/-- A stop is authorized as it is; a factor of 2^53 + 1 is rounded before it is halved. -/
theorem authorized_not_halved :
    (¬∀ (parameters : Members) (policy : Policy), ∀ rt, rt = (@run PyText.ascii plainConfig
        (init (reducing parameters) .nil policy 0) twoPasses).runtime →
      ∀ id record, rt.records.get id = some record → record.state = .authorized →
        ExactlyHalved (reducing parameters record.intent).payload (rt.heap record.intent).payload) ∧
      ¬∀ (parameters : Members) (policy : Policy), ∀ rt, rt = (@run PyText.ascii plainConfig
          (init (reducing parameters) .nil policy 0) twoPasses).runtime →
        ∀ id record, rt.records.get id = some record → record.state = .authorized → record.actionClass ≠ .stop →
          ExactlyHalved (reducing parameters record.intent).payload (rt.heap record.intent).payload := by
  constructor
  · intro halved
    have state : ((@run PyText.ascii plainConfig (init (reducing .nil) .nil stopPolicy 0) twoPasses).runtime.records.get "a".toList).any
        (fun record => decide (record.state = .authorized ∧ record.intent = 0)) = true := by decide +kernel
    obtain ⟨record, stored, its⟩ := Option.any_eq_true _ _ |>.mp state
    obtain ⟨authorized, own⟩ := of_decide_eq_true its
    have none := (halved .nil stopPolicy _ rfl "a".toList record stored authorized 1 rfl).1
    rw [own] at none
    have reduce : ((@run PyText.ascii plainConfig (init (reducing .nil) .nil stopPolicy 0) twoPasses).runtime.heap 0).payload.degradationPolicy =
        .reduceSpeed := by decide +kernel
    rw [reduce] at none
    cases none
  · intro halved
    have state : ((@run PyText.ascii plainConfig (init (reducing (.cons "speed_factor".toList (.int (2 ^ 53 + 1)) .nil)) .nil .empty 0)
        twoPasses).runtime.records.get "a".toList).any
        (fun record => decide (record.state = .authorized ∧ record.actionClass ≠ .stop ∧ record.intent = 0)) = true := by decide +kernel
    obtain ⟨record, stored, its⟩ := Option.any_eq_true _ _ |>.mp state
    obtain ⟨authorized, notStop, own⟩ := of_decide_eq_true its
    have half := (halved (.cons "speed_factor".toList (.int (2 ^ 53 + 1)) .nil) .empty _ rfl "a".toList record stored authorized notStop
      (2 ^ 53 + 1) (by rw [own]; decide +kernel)).2
    rw [own] at half
    have rounded : ((@run PyText.ascii plainConfig (init (reducing (.cons "speed_factor".toList (.int (2 ^ 53 + 1)) .nil)) .nil .empty 0)
        twoPasses).runtime.heap 0).payload.parameters.get "speed_factor".toList = some (.float (.fin (2 ^ 52))) := by decide +kernel
    have wrong := PyFloat.fin.inj (Json.float.inj (Option.some.inj (rounded.symm.trans half)))
    revert wrong
    decide +kernel

end Clocked

end Xair
