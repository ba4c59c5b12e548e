import Xair.Context.Grammar
import Xair.Server.Settling
import Xair.Store.Calls

/-!
# The fence on a part of the context

In the shard layout a validation sees the roots that the registered predicates read. The
fence is not registered, so what it compares is missing there, unless a registered
predicate reads its root.
-/

namespace Xair

open Library

section

variable [PyText]

/-! ### Evaluation on a part -/

/-- The predicates that the evaluation comes to: the last one is not true, or the time is out. -/
def comesTo (timedOut : Nat → Bool) (context : Members) : Nat → List (Str × Str) → List Str
  | _, [] => []
  | k, (_, expr) :: rest =>
    if timedOut k then []
    else expr :: if truth expr context = .ok true then comesTo timedOut context (k + 1) rest else []

/-- The predicate compares a value of the context under a root that is not read. -/
def Unread (reads : Str → Prop) (context : Members) (expr : Str) : Prop :=
  ∃ p, parse (strip expr) = .ok (some p) ∧ ¬reads (rootOf p.path) ∧ resolve context p.path ≠ .null

/-- The part of a context under some roots. -/
structure Members.PartOf (whole : Members) (reads : Str → Prop) (part : Members) : Prop where
  inside : ∀ r, reads r → part.get r = whole.get r
  outside : ∀ r, ¬reads r → part.get r = none

omit [PyText] in
theorem Snapshot.RestrictsTo.partOf {whole part : Snapshot} {reads : Str → Prop} (h : whole.RestrictsTo reads part) :
    whole.context.PartOf reads part.context :=
  ⟨h.context, h.outside⟩

section

variable {whole part : Members} {reads : Str → Prop} {expr : Str}

omit [PyText] in
theorem Members.PartOf.resolve_inside (h : whole.PartOf reads part) {path : Str} (read : reads (rootOf path)) :
    resolve part path = resolve whole path := by
  rw [resolve_eq_getPath, resolve_eq_getPath, getPath_congr_root (h.inside _ read)]

omit [PyText] in
theorem Members.PartOf.resolve_outside (h : whole.PartOf reads part) {path : Str} (unread : ¬reads (rootOf path)) :
    resolve part path = .null := by
  obtain ⟨rest, split⟩ := segments_cons path
  rw [resolve, split, Json.resolve, h.outside _ unread]
  exact Json.resolve_null rest

/-- A predicate that compares a value of the part, or none of the whole. -/
theorem Members.PartOf.check_eq (h : whole.PartOf reads part) (read : ¬Unread reads whole expr) :
    checkExpression expr part = checkExpression expr whole := by
  rw [checkExpression, checkExpression]
  cases parsed : parse (strip expr) with
  | error e => rfl
  | ok result =>
    cases result with
    | none => rfl
    | some p =>
      have same : resolve part p.path = resolve whole p.path := by
        by_cases inside : reads (rootOf p.path)
        · exact h.resolve_inside inside
        · rw [h.resolve_outside inside]
          by_contra present
          exact read ⟨p, parsed, inside, Ne.symm present⟩
      simp only [same]

theorem strip_ne_nil_of_parse {p : Parsed} (parsed : parse (strip expr) = .ok (some p)) : strip expr ≠ [] := by
  intro empty
  rw [empty] at parsed
  cases parsed

theorem Members.PartOf.check_unread (h : whole.PartOf reads part) (unread : Unread reads whole expr) :
    checkExpression expr part = .ok (false, "missing_path: ".toList ++ strip expr) := by
  obtain ⟨p, parsed, outside, _⟩ := unread
  rw [checkExpression, if_neg (strip_ne_nil_of_parse parsed), parsed]
  simp only [h.resolve_outside outside, if_true]

/-- An evaluation that comes to no unread value. -/
theorem Members.PartOf.evaluateFrom_eq (h : whole.PartOf reads part) {timedOut : Nat → Bool} {k : Nat} {items : List (Str × Str)}
    (read : ∀ e ∈ comesTo timedOut whole k items, ¬Unread reads whole e) :
    evaluateFrom timedOut part k items = evaluateFrom timedOut whole k items := by
  induction items generalizing k with
  | nil => rfl
  | cons item rest ih =>
    obtain ⟨label, expr⟩ := item
    rw [comesTo] at read
    rw [evaluateFrom, evaluateFrom]
    by_cases out : timedOut k = true
    · rw [if_pos out, if_pos out]
    · rw [if_neg out] at read ⊢
      rw [if_neg out, h.check_eq (read expr List.mem_cons_self)]
      cases checked : checkExpression expr whole with
      | error e => rfl
      | ok verdict =>
        obtain ⟨ok, msg⟩ := verdict
        cases ok with
        | false => rfl
        | true =>
          have holds : truth expr whole = .ok true := by rw [truth, checked]; rfl
          rw [if_pos holds] at read
          exact ih fun e member => read e (List.mem_cons_of_mem _ member)

/-- The first unread value that an evaluation comes to is missing. -/
theorem Members.PartOf.evaluateFrom_unread (h : whole.PartOf reads part) {timedOut : Nat → Bool} {k : Nat} {items : List (Str × Str)}
    (unread : ∃ e ∈ comesTo timedOut whole k items, Unread reads whole e) :
    ∃ item ∈ items, Unread reads whole item.2 ∧ evaluateFrom timedOut part k items =
      .ok (false, item.1 ++ ": ".toList ++ ("missing_path: ".toList ++ strip item.2)) := by
  induction items generalizing k with
  | nil =>
    obtain ⟨e, member, _⟩ := unread
    cases member
  | cons item rest ih =>
    obtain ⟨label, expr⟩ := item
    obtain ⟨e, member, missing⟩ := unread
    rw [comesTo] at member
    by_cases out : timedOut k = true
    · rw [if_pos out] at member
      cases member
    · rw [if_neg out] at member
      rw [evaluateFrom, if_neg out]
      by_cases here : Unread reads whole expr
      · refine ⟨(label, expr), List.mem_cons_self, here, ?_⟩
        rw [h.check_unread here]
      · rcases List.mem_cons.mp member with rfl | later
        · exact absurd missing here
        · split at later
          · rename_i holds
            obtain ⟨item, listed, unread', ended⟩ := ih ⟨e, later, missing⟩
            refine ⟨item, List.mem_cons_of_mem _ listed, unread', ?_⟩
            rw [h.check_eq here]
            rw [truth] at holds
            cases checked : checkExpression expr whole with
            | error e' =>
              rw [checked] at holds
              cases holds
            | ok verdict =>
              obtain ⟨ok, msg⟩ := verdict
              rw [checked] at holds
              obtain rfl : ok = true := Except.ok.inj holds
              exact ended
          · cases later

end

/-! ### The reason of a missing value -/

def evaluationLabels : List Str := ["safety_constraint_failed".toList, "precondition_failed".toList]

omit [PyText] in
theorem mem_labelled {safetyConstraints preconditions : List Str} {item : Str × Str}
    (member : item ∈ labelled safetyConstraints preconditions) : item.1 ∈ evaluationLabels := by
  rcases List.mem_append.mp member with safety | pre
  · obtain ⟨e, _, rfl⟩ := List.mem_map.mp safety
    exact List.mem_cons_self
  · obtain ⟨e, _, rfl⟩ := List.mem_map.mp pre
    exact List.mem_cons_of_mem _ List.mem_cons_self

omit [PyText] in
theorem evaluationLabels_inj {label label' msg msg' : Str} (known : label ∈ evaluationLabels) (known' : label' ∈ evaluationLabels)
    (same : label ++ ": ".toList ++ msg = label' ++ ": ".toList ++ msg') : msg = msg' := by
  simp only [evaluationLabels, List.mem_cons, List.not_mem_nil, or_false] at known known'
  rcases known with rfl | rfl <;> rcases known' with rfl | rfl
  · exact List.append_cancel_left same
  · cases same
  · cases same
  · exact List.append_cancel_left same

/-- The colon is no operator. -/
theorem parse_missing (text : Str) : parse ("missing_path: ".toList ++ text) = .ok none := by
  have isPath : IsPath "missing_path".toList := by
    have all : ("missing_path".toList.all fun c => (c.isAlphanum || c == '_') && decide (c.toNat < 128)) = true := by decide
    have words : ∀ c ∈ "missing_path".toList, (c.isAlphanum || c == '_') = true ∧ c.toNat < 128 := fun c here => by
      have word := List.all_eq_true.mp all c here
      rw [Bool.and_eq_true, decide_eq_true_eq] at word
      exact word
    rw [IsPath, segments_of_no_dot (by decide)]
    intro name member
    obtain rfl := List.mem_singleton.mp member
    exact ⟨by decide, fun c here => by rw [isWord, PyText.alnum_ascii c (words c here).2, (words c here).1]⟩
  have nonword : isWord ':' = false := by
    rw [isWord, PyText.alnum_ascii ':' (by decide)]
    decide
  have named : dottedName ("missing_path".toList ++ (": ".toList ++ text)) = some ("missing_path".toList, ": ".toList ++ text) :=
    dottedName_append isPath ⟨nonword, fun dot => by cases dot⟩
  have solid : PyText.isSpace ':' = false := (PyText.space_ascii ':' (by decide)).trans (by decide)
  have operator : takeOp (lstrip (": ".toList ++ text)) = none := by
    rw [lstrip]
    show takeOp (List.dropWhile PyText.isSpace (':' :: ' ' :: text)) = none
    rw [List.dropWhile_cons_of_neg (by rw [solid]; exact Bool.false_ne_true)]
    rfl
  rw [parse, show "missing_path: ".toList ++ text = "missing_path".toList ++ (": ".toList ++ text) from rfl, named]
  simp only [operator]

/-- A value that is there is never reported missing. -/
theorem evaluateFrom_ne_missing {context : Members} {expr : Str} {p : Parsed} (parsed : parse (strip expr) = .ok (some p))
    (present : resolve context p.path ≠ .null) {label : Str} (known : label ∈ evaluationLabels) (timedOut : Nat → Bool) (k : Nat)
    {items : List (Str × Str)} (labels : ∀ item ∈ items, item.1 ∈ evaluationLabels) :
    evaluateFrom timedOut context k items ≠ .ok (false, label ++ ": ".toList ++ ("missing_path: ".toList ++ strip expr)) := by
  induction items generalizing k with
  | nil => exact fun h => by cases h
  | cons item rest ih =>
    obtain ⟨label', expr'⟩ := item
    have known' := labels _ List.mem_cons_self
    rw [evaluateFrom]
    split
    · intro same
      have text := (Prod.mk.inj (Except.ok.inj same)).2
      simp only [evaluationLabels, List.mem_cons, List.not_mem_nil, or_false] at known
      rcases known with rfl | rfl <;> cases text
    · cases checked : checkExpression expr' context with
      | error e => exact fun h => by cases h
      | ok verdict =>
        obtain ⟨ok, msg⟩ := verdict
        cases ok with
        | true => exact ih (k + 1) fun item member => labels item (List.mem_cons_of_mem _ member)
        | false =>
          intro same
          have text := evaluationLabels_inj known' known (Prod.mk.inj (Except.ok.inj same)).2
          subst text
          rw [checkExpression] at checked
          split at checked
          · cases checked
          · cases parsed' : parse (strip expr') with
            | error e =>
              rw [parsed'] at checked
              cases checked
            | ok found =>
              rw [parsed'] at checked
              cases found with
              | none => cases (Prod.mk.inj (Except.ok.inj checked)).2
              | some p' =>
                simp only at checked
                split at checked
                · rename_i missing
                  have own := List.append_cancel_left (Prod.mk.inj (Except.ok.inj checked)).2
                  rw [own, parsed] at parsed'
                  obtain rfl := Option.some.inj (Except.ok.inj parsed')
                  exact present missing
                · split at checked
                  · cases (Prod.mk.inj (Except.ok.inj checked)).2
                  · rw [(Prod.mk.inj (Except.ok.inj checked)).2, parse_missing] at parsed'
                    cases parsed'

/-! ### The decision on a part -/

/-- An evaluation is answered if nothing that it comes to raises. -/
theorem evaluateFrom_ok_iff (timedOut : Nat → Bool) (context : Members) (k : Nat) (items : List (Str × Str)) :
    (∃ verdict, evaluateFrom timedOut context k items = .ok verdict) ↔
      ∀ e ∈ comesTo timedOut context k items, ∃ b, truth e context = .ok b := by
  induction items generalizing k with
  | nil => exact ⟨fun _ _ member => (by cases member), fun _ => ⟨_, rfl⟩⟩
  | cons item rest ih =>
    obtain ⟨label, expr⟩ := item
    rw [evaluateFrom, comesTo]
    by_cases out : timedOut k = true
    · rw [if_pos out, if_pos out]
      exact ⟨fun _ _ member => (by cases member), fun _ => ⟨_, rfl⟩⟩
    · rw [if_neg out, if_neg out, List.forall_mem_cons, truth]
      cases checked : checkExpression expr context with
      | error e =>
        constructor
        · rintro ⟨_, answered⟩
          cases answered
        · rintro ⟨⟨_, answered⟩, _⟩
          cases answered
      | ok verdict =>
        obtain ⟨ok, msg⟩ := verdict
        cases ok with
        | false => exact ⟨fun _ => ⟨⟨_, rfl⟩, fun _ member => (by cases member)⟩, fun _ => ⟨_, rfl⟩⟩
        | true => exact (ih (k + 1)).trans ⟨fun later => ⟨⟨_, rfl⟩, later⟩, And.right⟩

/-- The predicates of an intent that a validation pass on this context comes to. -/
def ProcessCall.comesTo (call : ProcessCall) (i : ActionIntent) (context : Members) : List Str :=
  Xair.comesTo call.timedOut context 0 (labelled i.safetyConstraints i.preconditions)

/-- What is read of the context decides the intent: the evaluation on the whole comes to no value that is not read, or the
intent is out of time and the evaluation raises nothing. -/
def Config.Suffices (cfg : Config) (call : ProcessCall) (i : ActionIntent) (reads : Str → Prop) (whole : Members) : Prop :=
  (∀ e ∈ call.comesTo i whole, ¬Unread reads whole e) ∨
    (cfg.validate i call.now).1 = false ∧ ∀ e ∈ call.comesTo i whole, ∃ b, truth e whole = .ok b

/-- The reason that a value is missing where it is there. -/
def MissingIn (whole : Members) (reason : Str) : Prop := ∃ label expr p, label ∈ evaluationLabels ∧
  parse (strip expr) = .ok (some p) ∧ resolve whole p.path ≠ .null ∧
    reason = label ++ ": ".toList ++ ("missing_path: ".toList ++ strip expr)

section

variable {cfg : Config} {call : ProcessCall} {rt : Runtime} {i : ActionIntent} {whole part : Members} {reads : Str → Prop}

theorem evaluatePredicates_ne_missing {reason : Str} (missing : MissingIn whole reason) (timedOut : Nat → Bool)
    (safetyConstraints preconditions : List Str) :
    evaluatePredicates timedOut safetyConstraints preconditions whole ≠ .ok (false, reason) := by
  obtain ⟨label, expr, p, known, parsed, present, rfl⟩ := missing
  exact evaluateFrom_ne_missing parsed present known timedOut 0 fun _ => mem_labelled

theorem Members.PartOf.evaluatePredicates_unread (h : whole.PartOf reads part) (unread : ∃ e ∈ call.comesTo i whole, Unread reads whole e) :
    ∃ reason, MissingIn whole reason ∧
      evaluatePredicates call.timedOut i.safetyConstraints i.preconditions part = .ok (false, reason) := by
  obtain ⟨item, member, ⟨p, parsed, _, present⟩, evaluated⟩ := h.evaluateFrom_unread unread
  exact ⟨_, ⟨item.1, item.2, p, mem_labelled member, parsed, present, rfl⟩, evaluated⟩

theorem Members.PartOf.decision_eq (h : whole.PartOf reads part) (suffices_ : cfg.Suffices call i reads whole) :
    decision cfg call rt i part = decision cfg call rt i whole := by
  by_cases all : ∀ e ∈ call.comesTo i whole, ¬Unread reads whole e
  · rw [decision, decision, evaluatePredicates, evaluatePredicates, h.evaluateFrom_eq all]
  · obtain ⟨late, answers⟩ := suffices_.resolve_left all
    obtain ⟨verdict, answered⟩ := (evaluateFrom_ok_iff _ _ _ _).mpr answers
    have evaluated : evaluatePredicates call.timedOut i.safetyConstraints i.preconditions whole = .ok verdict := answered
    obtain ⟨reason, _, evaluated'⟩ := h.evaluatePredicates_unread (by simpa using all)
    rw [decision, decision, evaluated, evaluated']
    simp only [Except.map, decideOutcome, late, Bool.not_false, if_true]

variable (rt) in
/-- Where it does not suffice, an intent in time is revoked on the part for a value that is there, and an intent out of
time is revoked where the evaluation on the whole raises. -/
theorem Members.PartOf.decision_unread (h : whole.PartOf reads part) (not : ¬cfg.Suffices call i reads whole) :
    ∃ reason, decision cfg call rt i part = .ok (.revoke, reason) ∧
      ((cfg.validate i call.now).1 = true ∧ MissingIn whole reason ∨ ∃ e, decision cfg call rt i whole = .error e) := by
  obtain ⟨unread, raises⟩ := not_or.mp not
  obtain ⟨reason, missing, evaluated⟩ := h.evaluatePredicates_unread (by simpa using unread)
  rw [decision, evaluated]
  cases timely : (cfg.validate i call.now).1 with
  | true => exact ⟨reason, by simp only [Except.map, decideOutcome, timely]; rfl, Or.inl ⟨rfl, missing⟩⟩
  | false =>
    refine ⟨(cfg.validate i call.now).2, by simp only [Except.map, decideOutcome, timely]; rfl, Or.inr ?_⟩
    rw [decision]
    cases evaluated' : evaluatePredicates call.timedOut i.safetyConstraints i.preconditions whole with
    | error e => exact ⟨e, rfl⟩
    | ok verdict => exact absurd ⟨timely, (evaluateFrom_ok_iff _ _ _ _).mp ⟨verdict, evaluated'⟩⟩ raises

/-- No decision on the whole is the one for a value that is missing there. -/
theorem decision_ne_missing {reason : Str} (timely : (cfg.validate i call.now).1 = true) (missing : MissingIn whole reason) :
    decision cfg call rt i whole ≠ .ok (.revoke, reason) := by
  rw [decision]
  cases evaluated : evaluatePredicates call.timedOut i.safetyConstraints i.preconditions whole with
  | error e => exact fun h => by cases h
  | ok verdict =>
    obtain ⟨ok, msg⟩ := verdict
    intro same
    have decided : decideOutcome i (cfg.validate i call.now) (ok, msg) (rt.busy i.target) = _ := Except.ok.inj same
    simp only [decideOutcome, timely, Bool.not_true, Bool.false_eq_true, if_false] at decided
    cases ok with
    | false =>
      obtain rfl : msg = reason := (Prod.mk.inj decided).2
      exact evaluatePredicates_ne_missing missing _ _ _ evaluated
    | true =>
      simp only [Bool.not_true, Bool.false_eq_true, if_false] at decided
      split at decided
      · cases decided
      · split at decided <;> cases decided

end

/-! ### What a pass tells -/

/-- The outcome and the reason of a pass on an intent that is no stop, policy applied. -/
def Runtime.tells (cfg : Config) (call : ProcessCall) (rt : Runtime) (i : ActionIntent) : Except PyError (DecisionOutcome × Str) :=
  if call.contextVersion.any fun v => decide (v < rt.contextVersion) then .ok (.revoke, "stale_context_snapshot".toList)
  else
    match decision cfg call rt i (call.snapshot rt) with
    | .ok (.degrade, reason) => (applyDegradation i).map fun _ => (.degrade, reason)
    | verdict => verdict

/-- Those of `_validate_now`: a degraded intent goes through a second pass. -/
def Runtime.validated (cfg : Config) (call : (Nat → Bool) → ProcessCall) (timedOut : Nat → Nat → Bool) (rt : Runtime)
    (i : ActionIntent) : Except PyError (DecisionOutcome × Str) :=
  match rt.tells cfg (call (timedOut 0)) i with
  | .ok (.degrade, _) => (applyDegradation i).bind fun j => rt.tells cfg (call (timedOut 1)) j
  | verdict => verdict

/-- The record tells the outcome and the reason; a degraded one is that of this intent. -/
structure Told (verdict : Except PyError (DecisionOutcome × Str)) (ref : Ref) (a : IntentRecord) : Prop where
  told : ∃ outcome, verdict = .ok (outcome, a.reason) ∧ a.outcome = some outcome ∧ (outcome = .degrade ↔ a.state = .degraded)
  degraded : a.state = .degraded → a.intent = ref

section

variable {cfg : Config} {call : ProcessCall} {rt : Runtime} {ref : Ref}

theorem ends_conclude_told {rt' : Runtime} {record : IntentRecord} {outcome : DecisionOutcome} {reason : Str}
    (h : Evaluated cfg call rt ref rt' record outcome reason) (fresh : (call.contextVersion.any fun v => decide (v < rt.contextVersion)) = false) :
    Ends (conclude ref (rt.heap ref).id call.requeue outcome reason) rt'
      (fun a _ => Told (rt.tells cfg call (rt.prepared ref)) ref a)
      fun e _ => (∃ e', e = .py e') ∧ ∃ e', rt.tells cfg call (rt.prepared ref) = .error e' := by
  have itself : rt'.heap ref = rt.prepared ref := by rw [h.heap, Function.update_self]
  rw [Runtime.tells, fresh, if_neg Bool.false_ne_true, h.decided]
  cases outcome with
  | degrade =>
    simp only [conclude]
    rw [ends_bind, ends_get, itself]
    cases degraded : applyDegradation (rt.prepared ref) with
    | error e => exact ends_throw.mpr ⟨⟨e, rfl⟩, e, rfl⟩
    | ok i =>
      simp only
      rw [ends_bind, ends_modify]
      refine (ends_assign_transition (by exact h.stored) (by simp [h.state, IntentState.allowed])).mpr ?_
      rw [ends_bind, ends_modify, ends_bind, ends_modify, ends_pure]
      exact ⟨⟨_, rfl, rfl, iff_of_true rfl rfl⟩, fun _ => rfl⟩
  | execute =>
    refine (ends_conclude_execute h.stored h.state ref call.requeue reason).imp ?_ fun _ _ h => h.elim
    rintro a rt'' ⟨_, _, rfl, _⟩
    exact ⟨⟨_, rfl, rfl, iff_of_false (fun h => by cases h) (fun h => by cases h)⟩, (fun h => by cases h)⟩
  | delay =>
    simp only [conclude]
    rw [ends_bind]
    refine (ends_transition h.stored (by simp [h.state, IntentState.allowed])).mpr ?_
    rw [ends_bind, ends_modify, ends_bind, ends_modify, ends_pure]
    exact ⟨⟨_, rfl, rfl, iff_of_false (fun h => by cases h) (fun h => by cases h)⟩, (fun h => by cases h)⟩
  | revoke =>
    simp only [conclude]
    rw [ends_bind]
    refine (ends_transition h.stored (by rw [h.state]; split <;> decide)).mpr ?_
    rw [ends_bind, ends_modify, ends_pure]
    have other : (if startsWith "deadline".toList reason then IntentState.expired else .revoked) ≠ .degraded := by split <;> decide
    exact ⟨⟨_, rfl, rfl, iff_of_false (fun h => by cases h) other⟩, fun degraded => absurd degraded other⟩

variable (cfg call) in
theorem ends_processIntent_told {record : IntentRecord} (found : rt.records.get (rt.heap ref).id = some record)
    (opened : record.state.validatable = true) (notStop : rt.policy.actionClass (rt.heap ref) ≠ .stop) :
    Ends (processIntent cfg call ref) rt (fun a _ => Told (rt.tells cfg call (rt.prepared ref)) ref a)
      fun e _ => (∃ e', e = .py e') ∧ ∃ e', rt.tells cfg call (rt.prepared ref) = .error e' := by
  rw [processIntent, ends_bind, ends_get]
  simp only [found, opened, if_true]
  apply ends_validationPass_begun cfg call ref found opened
  · intro _ _ _ _ stop
    exact absurd stop notStop
  · intro rt₁ r₁ h _ _ stale
    rw [Runtime.tells, if_pos stale, revokeStale]
    refine (ends_assign_transition (by exact h.stored) (by simp [h.state, IntentState.allowed])).mpr ?_
    rw [ends_bind, ends_modify, ends_pure]
    exact ⟨⟨_, rfl, rfl, iff_of_false (fun h => by cases h) (fun h => by cases h)⟩, (fun h => by cases h)⟩
  · intro rt₁ r₁ h _ _ fresh
    have current : (call.contextVersion.any fun v => decide (v < rt.contextVersion)) = false := by
      cases supplied : call.contextVersion with
      | none => rfl
      | some v => exact decide_eq_false (Nat.not_lt.mpr (fresh v supplied))
    apply ends_evaluate_decided h
    · intro _ _ e _ _ _ _ raised
      refine ⟨⟨e, rfl⟩, e, ?_⟩
      rw [Runtime.tells, current, if_neg Bool.false_ne_true, raised]
    · intro rt₂ r₂ outcome reason evaluated _
      exact ends_conclude_told evaluated current

end

/-! ### What `_validate_now` tells -/

/-- The outcome and the reason of a record that a handler ends with. -/
def told (reply : Except HttpError IntentRecord) : Except HttpError (Option DecisionOutcome × Str) :=
  reply.map fun record => (record.outcome, record.reason)

section

variable {cfg : SiteConfig} {s : Site} {ref : Ref} {record : IntentRecord}

theorem Runtime.tells_congr {config : Config} {call call' : ProcessCall} {rt rt' : Runtime} (locks : rt'.activeTargets = rt.activeTargets)
    (installed : rt'.contextVersion = rt.contextVersion) (snapshot : call'.snapshot rt' = call.snapshot rt)
    (version : call'.contextVersion = call.contextVersion) (now : call'.now = call.now) (timedOut : call'.timedOut = call.timedOut)
    (i : ActionIntent) : rt'.tells config call' i = rt.tells config call i := by
  have decides : decision config call' rt' i (call'.snapshot rt') = decision config call rt i (call.snapshot rt) := by
    rw [decision, decision, Runtime.busy, Runtime.busy, locks, snapshot, now, timedOut]
  rw [Runtime.tells, Runtime.tells, version, installed, decides]

/-- `_validate_now` of an intent that is no stop. -/
theorem told_validateNow (found : s.runtime.records.get (s.runtime.heap ref).id = some record)
    (opened : record.state.validatable = true) (notStop : s.runtime.policy.actionClass (s.runtime.heap ref) ≠ .stop) (ticket : Nat)
    (call : (Nat → Bool) → ProcessCall) (alike : ∀ timedOut timedOut', (call timedOut).context = (call timedOut').context ∧
      (call timedOut).contextVersion = (call timedOut').contextVersion) (timedOut : Nat → Nat → Bool) :
    told (result (validateNow ticket ref (s.runtime.heap ref).id call timedOut : Handler cfg IntentRecord) s).1 =
      match s.runtime.validated cfg.config (fun timedOut => (call timedOut).atSite s) timedOut (s.runtime.prepared ref) with
      | .ok (outcome, reason) => .ok (some outcome, reason)
      | .error _ => .error .internal := by
  have served : Serves (validateNow ticket ref (s.runtime.heap ref).id call timedOut : Handler cfg IntentRecord) s
      (fun a _ => ∃ outcome, s.runtime.validated cfg.config (fun timedOut => (call timedOut).atSite s) timedOut (s.runtime.prepared ref) =
        .ok (outcome, a.reason) ∧ a.outcome = some outcome)
      fun http _ => http = .internal ∧ ∃ e, s.runtime.validated cfg.config (fun timedOut => (call timedOut).atSite s) timedOut
        (s.runtime.prepared ref) = .error e := by
    rw [Runtime.validated]
    have first := (ends_processIntent_told cfg.config ((call (timedOut 0)).atSite s) found opened notStop).and
      ((ends_processIntent_passes cfg.config ((call (timedOut 0)).atSite s) found opened).and
        (ends_processIntent cfg.config ((call (timedOut 0)).atSite s) s.runtime ref))
    refine serves_bind.mpr ((serves_processNow first).imp ?_ ?_)
    · rintro a s₁ ⟨⟨⟨⟨outcome, tells, own, degrades⟩, itself⟩, ⟨⟨alone, stored, state⟩, _⟩, _, verdict⟩, clock, _⟩
      refine (serves_current_bind stored).mpr ?_
      by_cases degraded : a.state = .degraded
      · obtain rfl := degrades.mpr degraded
        obtain ⟨_, revised⟩ := state.resolve_left fun rest => by
          rw [degraded] at rest
          revert rest
          decide
        have locks : s₁.runtime.activeTargets = s.runtime.activeTargets := by
          cases verdict with
          | kept present closed _ =>
            rw [Option.some.inj (present.symm.trans found), opened] at closed
            cases closed
          | stopped _ _ authorized =>
            rw [degraded] at authorized
            cases authorized
          | refused _ _ _ _ locks => exact locks
          | authorized _ _ granted =>
            have authorized := granted.state
            rw [degraded] at authorized
            cases authorized
        have names := alone.ids ref
        have stored' : s₁.runtime.records.get (s₁.runtime.heap ref).id = some a := names ▸ stored
        have reopened : a.state.validatable = true := by rw [degraded]; rfl
        have moving : s₁.runtime.policy.actionClass (s₁.runtime.heap ref) ≠ .stop := by
          rw [alone.policy, Policy.actionClass, actionKey, alone.actions]
          exact notStop
        have second := (ends_processIntent_told cfg.config ((call (timedOut 1)).atSite s₁) stored' reopened moving).and
          (ends_processIntent_degraded cfg.config alone revised (alike (timedOut 1) (timedOut 0)).1 stored' reopened)
        rw [if_pos degraded, itself degraded, tells]
        refine (serves_processNow second).imp ?_ ?_
        · rintro b s₂ ⟨⟨⟨⟨outcome', tells', own', _⟩, _⟩, _⟩, _⟩
          refine ⟨outcome', ?_, own'⟩
          simp only [revised.applied, Except.bind]
          rw [← tells', revised.prepared]
          have snapshot : ((call (timedOut 1)).atSite s₁).snapshot s₁.runtime = ((call (timedOut 1)).atSite s).snapshot s.runtime := by
            rw [ProcessCall.snapshot, ProcessCall.snapshot, alone.context]
            rfl
          symm
          exact Runtime.tells_congr locks alone.contextVersion snapshot rfl clock rfl _
        · rintro http _ ⟨_, _, _, never⟩
          exact never.elim
      · rw [if_neg degraded, tells]
        refine serves_pure.mpr ⟨outcome, ?_, own⟩
        cases outcome with
        | degrade => exact absurd (degrades.mp rfl) degraded
        | _ => rfl
    · rintro http _ ⟨_, rfl, ⟨⟨e, rfl⟩, raised⟩, _⟩
      obtain ⟨e', raised⟩ := raised
      exact ⟨rfl, e', by rw [raised]⟩
  rw [Serves] at served
  rcases ended : result (validateNow ticket ref (s.runtime.heap ref).id call timedOut : Handler cfg IntentRecord) s with ⟨a | e, s'⟩ <;>
    rw [ended] at served
  · obtain ⟨rfl, e', raised⟩ := served
    rw [raised]
    rfl
  · obtain ⟨outcome, tells, own⟩ := served
    rw [tells, told, Except.map, own]

end

/-! ### Validation on a part -/

theorem mem_of_comesTo {timedOut : Nat → Bool} {context : Members} {k : Nat} {items : List (Str × Str)} {e : Str}
    (member : e ∈ comesTo timedOut context k items) : e ∈ items.map Prod.snd := by
  induction items generalizing k with
  | nil => cases member
  | cons item rest ih =>
    obtain ⟨label, expr⟩ := item
    rw [comesTo] at member
    split at member
    · cases member
    · rcases List.mem_cons.mp member with rfl | later
      · exact List.mem_cons_self
      · split at later
        · exact List.mem_cons_of_mem _ (ih later)
        · cases later

theorem ProcessCall.mem_predicates {call : ProcessCall} {i : ActionIntent} {context : Members} {e : Str}
    (member : e ∈ call.comesTo i context) : e ∈ i.predicates := by
  obtain ⟨item, listed, rfl⟩ := List.mem_map.mp (mem_of_comesTo member)
  rcases List.mem_append.mp listed with safety | pre
  · obtain ⟨e, its, rfl⟩ := List.mem_map.mp safety
    exact List.mem_append_left _ its
  · obtain ⟨e, its, rfl⟩ := List.mem_map.mp pre
    exact List.mem_append_right _ its

omit [PyText] in
theorem of_map_ok {ε α β : Type} {f : α → β} {x : Except ε α} {b : β} (h : x.map f = .ok b) : ∃ a, x = .ok a ∧ f a = b := by
  cases x with
  | error e => cases h
  | ok a => exact ⟨a, rfl, Except.ok.inj h⟩

/-- A degradation changes the payload only. -/
theorem applyDegradation_only {i j : ActionIntent} (h : applyDegradation i = .ok j) : ∃ payload, j = { i with payload := payload } := by
  simp only [applyDegradation] at h
  split at h
  · obtain ⟨x, _, rfl⟩ := of_map_ok h
    exact ⟨_, rfl⟩
  · cases h

section

variable {cfg : Config} {call : ProcessCall} {rt : Runtime} {i : ActionIntent} {whole part : Members} {reads : Str → Prop}

/-- An intent that is degraded on the part is decided there from then on. -/
theorem Members.PartOf.suffices_degraded (h : whole.PartOf reads part) {call' : ProcessCall} {reason : Str} {j : ActionIntent}
    (decided : decision cfg call rt i part = .ok (.degrade, reason)) (degraded : applyDegradation i = .ok j) :
    cfg.Suffices call' j reads whole := by
  refine Or.inl fun e member unread => ?_
  have own : e ∈ i.predicates := by
    rw [← (applyDegradation_ok degraded).2.2.2]
    exact ProcessCall.mem_predicates member
  rw [decision] at decided
  obtain ⟨⟨ok, msg⟩, evaluated, verdict⟩ := of_map_ok decided
  obtain rfl : ok = true := (decideOutcome_degrade verdict).1
  have holds := truth_of_evaluatePredicates evaluated e own
  rw [truth, h.check_unread unread] at holds
  cases holds

theorem of_tells_degrade {reason : Str} (h : rt.tells cfg call i = .ok (.degrade, reason)) :
    decision cfg call rt i (call.snapshot rt) = .ok (.degrade, reason) := by
  rw [Runtime.tells] at h
  split at h
  · cases h
  · cases decided : decision cfg call rt i (call.snapshot rt) with
    | error e =>
      rw [decided] at h
      cases h
    | ok verdict =>
      obtain ⟨outcome, reason'⟩ := verdict
      rw [decided] at h
      cases outcome with
      | degrade =>
        obtain ⟨_, _, same⟩ := of_map_ok h
        rw [(Prod.mk.inj same).2]
      | _ => cases h

theorem tells_ne_missing {reason : Str} (fresh : ¬(call.contextVersion.any fun v => decide (v < rt.contextVersion)) = true)
    (here : call.snapshot rt = whole) (timely : (cfg.validate i call.now).1 = true) (missing : MissingIn whole reason) :
    rt.tells cfg call i ≠ .ok (.revoke, reason) := by
  rw [Runtime.tells, if_neg fresh, here]
  have other : decision cfg call rt i whole ≠ .ok (.revoke, reason) := decision_ne_missing timely missing
  cases decided : decision cfg call rt i whole with
  | error e => exact nofun
  | ok verdict =>
    obtain ⟨outcome, reason'⟩ := verdict
    rw [decided] at other
    cases outcome with
    | degrade =>
      intro same
      obtain ⟨_, _, verdict⟩ := of_map_ok same
      cases verdict
    | _ => exact other

end

section

variable {cfg : SiteConfig} {s : Site} {ref : Ref} {record : IntentRecord}

/-- Two validations that differ in what they see of one snapshot. -/
theorem validated_eq {reads : Str → Prop} {doc full : SnapshotDoc} (part : full.snapshot.RestrictsTo reads doc.snapshot) (i : ActionIntent)
    (timedOut : Nat → Nat → Bool) (enough : full.snapshot.version < s.runtime.contextVersion ∨
      cfg.config.Suffices ((snapshotCall full (timedOut 0)).atSite s) i reads full.snapshot.context) :
    s.runtime.validated cfg.config (fun timedOut => (snapshotCall doc timedOut).atSite s) timedOut i =
      s.runtime.validated cfg.config (fun timedOut => (snapshotCall full timedOut).atSite s) timedOut i := by
  have again : ∀ (n : Nat) (j : ActionIntent), full.snapshot.version < s.runtime.contextVersion ∨
      cfg.config.Suffices ((snapshotCall full (timedOut n)).atSite s) j reads full.snapshot.context →
      s.runtime.tells cfg.config ((snapshotCall doc (timedOut n)).atSite s) j =
        s.runtime.tells cfg.config ((snapshotCall full (timedOut n)).atSite s) j := by
    intro n j enough
    have version : ((snapshotCall doc (timedOut n)).atSite s).contextVersion = ((snapshotCall full (timedOut n)).atSite s).contextVersion :=
      congrArg some part.version
    rw [Runtime.tells, Runtime.tells, version]
    by_cases stale : full.snapshot.version < s.runtime.contextVersion
    · have stale' : (((snapshotCall full (timedOut n)).atSite s).contextVersion.any fun v => decide (v < s.runtime.contextVersion)) = true :=
        decide_eq_true stale
      rw [if_pos stale', if_pos stale']
    · have decides : decision cfg.config ((snapshotCall doc (timedOut n)).atSite s) s.runtime j doc.snapshot.context =
          decision cfg.config ((snapshotCall full (timedOut n)).atSite s) s.runtime j full.snapshot.context :=
        part.partOf.decision_eq (enough.resolve_left stale)
      have here : ∀ d : SnapshotDoc, ((snapshotCall d (timedOut n)).atSite s).snapshot s.runtime = d.snapshot.context := fun _ => rfl
      rw [here, here, decides]
  have first := again 0 i enough
  simp only [Runtime.validated]
  rw [← first]
  cases tells : s.runtime.tells cfg.config ((snapshotCall doc (timedOut 0)).atSite s) i with
  | error e => rfl
  | ok verdict =>
    obtain ⟨outcome, reason⟩ := verdict
    cases outcome with
    | degrade =>
      cases degraded : applyDegradation i with
      | error e => rfl
      | ok j => exact again 1 j (Or.inr (part.partOf.suffices_degraded (of_tells_degrade tells) degraded))
    | _ => rfl

/-- Where it sees too little, the validation tells something else. -/
theorem validated_ne {reads : Str → Prop} {doc full : SnapshotDoc} (part : full.snapshot.RestrictsTo reads doc.snapshot) {i : ActionIntent}
    {timedOut : Nat → Nat → Bool} (fresh : ¬full.snapshot.version < s.runtime.contextVersion)
    (not : ¬cfg.config.Suffices ((snapshotCall full (timedOut 0)).atSite s) i reads full.snapshot.context) :
    ∃ reason, s.runtime.validated cfg.config (fun timedOut => (snapshotCall doc timedOut).atSite s) timedOut i = .ok (.revoke, reason) ∧
      s.runtime.validated cfg.config (fun timedOut => (snapshotCall full timedOut).atSite s) timedOut i ≠ .ok (.revoke, reason) := by
  have current : ∀ n, ¬(((snapshotCall full (timedOut n)).atSite s).contextVersion.any fun v => decide (v < s.runtime.contextVersion)) = true :=
    fun _ stale => fresh (of_decide_eq_true stale)
  have current' : ¬(((snapshotCall doc (timedOut 0)).atSite s).contextVersion.any fun v => decide (v < s.runtime.contextVersion)) = true :=
    fun stale => fresh (part.version ▸ of_decide_eq_true stale)
  obtain ⟨reason, decided, other⟩ := part.partOf.decision_unread s.runtime not
  refine ⟨reason, ?_, ?_⟩
  · have tells : s.runtime.tells cfg.config ((snapshotCall doc (timedOut 0)).atSite s) i = .ok (.revoke, reason) := by
      rw [Runtime.tells, if_neg current']
      show (match decision cfg.config ((snapshotCall doc (timedOut 0)).atSite s) s.runtime i doc.snapshot.context with
        | .ok (.degrade, reason) => _ | verdict => verdict) = _
      rw [show decision cfg.config ((snapshotCall doc (timedOut 0)).atSite s) s.runtime i doc.snapshot.context = _ from decided]
    simp only [Runtime.validated, tells]
  · simp only [Runtime.validated]
    rcases other with ⟨timely, missing⟩ | ⟨e, raised⟩
    · have first : s.runtime.tells cfg.config ((snapshotCall full (timedOut 0)).atSite s) i ≠ .ok (.revoke, reason) :=
        tells_ne_missing (current 0) rfl timely missing
      cases tells : s.runtime.tells cfg.config ((snapshotCall full (timedOut 0)).atSite s) i with
      | error e => exact nofun
      | ok verdict =>
        obtain ⟨outcome, reason'⟩ := verdict
        rw [tells] at first
        cases outcome with
        | degrade =>
          cases degraded : applyDegradation i with
          | error e => exact nofun
          | ok j =>
            obtain ⟨payload, rfl⟩ := applyDegradation_only degraded
            exact tells_ne_missing (current 1) rfl timely missing
        | _ => exact first
    · have tells : s.runtime.tells cfg.config ((snapshotCall full (timedOut 0)).atSite s) i = .error e := by
        rw [Runtime.tells, if_neg (current 0)]
        show (match decision cfg.config ((snapshotCall full (timedOut 0)).atSite s) s.runtime i full.snapshot.context with
          | .ok (.degrade, reason) => _ | verdict => verdict) = _
        rw [show decision cfg.config ((snapshotCall full (timedOut 0)).atSite s) s.runtime i full.snapshot.context = _ from raised]
      rw [tells]
      exact nofun

variable (cfg) in
/-- A snapshot is returned with the part that the registered predicates read. -/
theorem restrictsTo_read (exprs : List Str) (m : MemoryStore) :
    m.snapshot.RestrictsTo (cfg.layout.reads exprs) (cfg.read exprs m).snapshot := by
  rw [SiteConfig.read]
  by_cases shard : cfg.layout = .shard
  · have reads : ∀ r, cfg.layout.reads exprs r ↔ r ∈ rootsOf exprs := fun r => ⟨fun read => read shard, fun member _ => member⟩
    rw [if_pos shard]
    refine ⟨rfl, fun r read => ?_, fun r unread => ?_, fun p read => ?_, fun p unread => ?_⟩
    · exact (Members.get_keep _ _ r).trans (if_pos ((reads r).mp read))
    · exact (Members.get_keep _ _ r).trans (if_neg fun member => unread ((reads r).mpr member))
    · rw [Dict.get_filter]
      cases m.snapshot.pathVersions.get p <;> simp [(reads _).mp read]
    · have outside : rootOf p ∉ rootsOf exprs := fun member => unread ((reads _).mpr member)
      rw [Dict.get_filter]
      cases m.snapshot.pathVersions.get p <;> simp [outside]
  · have reads : ∀ r, cfg.layout.reads exprs r := fun r is => absurd is shard
    rw [if_neg shard]
    exact ⟨rfl, fun _ _ => rfl, fun r unread => absurd (reads r) unread, fun _ _ => rfl, fun p unread => absurd (reads _) unread⟩

/-- An intent that is no stop is validated on what its registered predicates read as on the whole context exactly if
the snapshot is stale, or what they read decides it. -/
theorem validated_alike_iff (found : s.runtime.records.get (s.runtime.heap ref).id = some record)
    (opened : record.state.validatable = true) (notStop : s.runtime.policy.actionClass (s.runtime.heap ref) ≠ .stop)
    {doc full : SnapshotDoc} (part : full.snapshot.RestrictsTo (cfg.layout.reads (registered (s.runtime.prepared ref).predicates)) doc.snapshot)
    (ticket : Nat) (timedOut : Nat → Nat → Bool) :
    told (result (validateNow ticket ref (s.runtime.heap ref).id (snapshotCall doc) timedOut : Handler cfg IntentRecord) s).1 =
        told (result (validateNow ticket ref (s.runtime.heap ref).id (snapshotCall full) timedOut : Handler cfg IntentRecord) s).1 ↔
      full.snapshot.version < s.runtime.contextVersion ∨ cfg.config.Suffices ((snapshotCall full (timedOut 0)).atSite s)
        (s.runtime.prepared ref) (cfg.layout.reads (registered (s.runtime.prepared ref).predicates)) full.snapshot.context := by
  rw [told_validateNow found opened notStop ticket (snapshotCall doc) (fun _ _ => ⟨rfl, rfl⟩) timedOut,
    told_validateNow found opened notStop ticket (snapshotCall full) (fun _ _ => ⟨rfl, rfl⟩) timedOut]
  constructor
  · intro same
    by_contra neither
    obtain ⟨fresh, not⟩ := not_or.mp neither
    obtain ⟨reason, tells, other⟩ := validated_ne part fresh not
    rw [tells] at same
    cases whole : s.runtime.validated cfg.config (fun timedOut => (snapshotCall full timedOut).atSite s) timedOut
        (s.runtime.prepared ref) with
    | error e =>
      rw [whole] at same
      cases same
    | ok verdict =>
      obtain ⟨outcome, reason'⟩ := verdict
      rw [whole] at same other
      obtain ⟨sameOutcome, rfl⟩ := Prod.mk.inj (Except.ok.inj same)
      obtain rfl := Option.some.inj sameOutcome
      exact other rfl
  · intro enough
    rw [validated_eq part _ timedOut enough]

end

end

/-! ### The fence in the shard layout -/

def shardedConfig : SiteConfig := ⟨plainConfig, .shard, 3600, true, 64, fun _ => 0, true⟩

/-- The steps of a submission up to its validation. -/
def fencing [PyText] (i : ActionIntent) : Handler shardedConfig (Ref × SnapshotDoc) := do
  let ref : Ref ← step (.create i)
  let _ ← step (.admitIntent ref)
  fenceIntent 0 ref
  let exprs : List Str ← step (.prepare ref)
  let doc ← registeredSnapshot exprs
  return (ref, doc)

/-- A store with a line that stands still. -/
def idleStart : Site :=
  { Site.init (fun _ => plainIntent "" "") .nil .empty (.boot none 0) with
    store := { MemoryStore.init with
      snapshot := ⟨.single "line" (.obj (.single "state" (.str "IDLE".toList))), 1, Dict.empty⟩ } }

def fencedSite (i : ActionIntent) : Site := (@result PyText.ascii shardedConfig _ (@fencing PyText.ascii i) idleStart).2

/-- The whole snapshot of the store. -/
def Site.whole (s : Site) : SnapshotDoc := ⟨s.store.snapshot, s.store.preds, true⟩

/-- What a validation of the first intent tells. -/
def validation (i : ActionIntent) (doc : SnapshotDoc) : Except HttpError (Option DecisionOutcome × Str) :=
  told (@result PyText.ascii shardedConfig _ (@validateNow PyText.ascii shardedConfig 0 0 i.id (snapshotCall doc) fun _ _ => false)
    (fencedSite i)).1

/-- It waits for the line to run. -/
def whenRunning : ActionIntent := { plainIntent "a" "cell" with preconditions := ["line.state == 'RUN'".toList] }

/-- What the store returns of it when the predicates of the first intent are registered. -/
def partSeen (i : ActionIntent) : SnapshotDoc :=
  @SiteConfig.read PyText.ascii shardedConfig (@registered PyText.ascii
    (@Runtime.prepared PyText.ascii (fencedSite i).runtime 0).predicates) (fencedSite i).store

theorem restrictsTo_seen (i : ActionIntent) : (fencedSite i).whole.snapshot.RestrictsTo (@Layout.reads PyText.ascii shardedConfig.layout
    (@registered PyText.ascii (@Runtime.prepared PyText.ascii (fencedSite i).runtime 0).predicates)) (partSeen i).snapshot :=
  @restrictsTo_read PyText.ascii shardedConfig _ (fencedSite i).store

/-- Where the line stands still, the evaluation does not come to the fence. -/
theorem comesTo_whenRunning : @ProcessCall.comesTo PyText.ascii
    (@ProcessCall.atSite (snapshotCall (fencedSite whenRunning).whole fun _ => false) (fencedSite whenRunning))
    (@Runtime.prepared PyText.ascii (fencedSite whenRunning).runtime 0) (fencedSite whenRunning).whole.snapshot.context =
      ["line.state == 'RUN'".toList] := by decide +kernel

theorem validated_alike_whenRunning : validation whenRunning (partSeen whenRunning) = validation whenRunning (fencedSite whenRunning).whole := by
  have named : ((fencedSite whenRunning).runtime.heap 0).id = whenRunning.id := by decide +kernel
  have found : (fencedSite whenRunning).runtime.records.get whenRunning.id = some (.fresh 0) := by decide +kernel
  have alike := @validated_alike_iff PyText.ascii shardedConfig (fencedSite whenRunning) 0 (.fresh 0) (by rw [named]; exact found) rfl
    (by decide +kernel) (partSeen whenRunning) (fencedSite whenRunning).whole (restrictsTo_seen whenRunning) 0 fun _ _ => false
  rw [named] at alike
  refine alike.mpr (Or.inr (Or.inl ?_))
  rw [comesTo_whenRunning]
  intro e member
  obtain rfl := List.mem_singleton.mp member
  rintro ⟨p, parsed, outside, _⟩
  have reads : @parse PyText.ascii (@strip PyText.ascii "line.state == 'RUN'".toList) =
      .ok (some ⟨"line.state".toList, .eq, .str "RUN".toList⟩) := by decide +kernel
  rw [reads] at parsed
  obtain rfl := Option.some.inj (Except.ok.inj parsed)
  refine outside fun _ => ?_
  decide +kernel

/-- What the validation of a submission tells, on the snapshot that its registration returns. -/
def submittedValidation (i : ActionIntent) : Except HttpError (Except HttpError (Option DecisionOutcome × Str)) :=
  (@result PyText.ascii shardedConfig _ (@fencing PyText.ascii i) idleStart).1.map fun out => validation i out.2

example : submittedValidation (plainIntent "a" "cell") =
    .ok (.ok (some .revoke, "precondition_failed: missing_path: stop.b0 <= 0".toList)) := by decide +kernel

/-- A plain intent that would be executed is revoked, since its fence is missing. -/
theorem fence_missing : ¬∀ i : ActionIntent, @Policy.actionClass PyText.ascii idleStart.runtime.policy i ≠ .stop →
    submittedValidation i = .ok (validation i (fencedSite i).whole) := by
  intro alike
  have same := alike (plainIntent "a" "cell") (by decide)
  revert same
  decide +kernel

end Xair
