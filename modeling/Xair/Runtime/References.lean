import Xair.Runtime.Outcomes

/-!
# The intent of a record

A validation pass may make its record refer to the intent it was given, and to no other.
-/

namespace Xair

open Library

/-- The record of `id`, if there is one, has such an intent. -/
def Runtime.Refers (id : Str) (P : Ref → Prop) (rt : Runtime) : Prop := ∀ r, rt.records.get id = some r → P r.intent

section

variable {id : Str} {P : Ref → Prop} {rt rt' : Runtime}

theorem Runtime.Refers.of_records (h : rt.Refers id P) (same : rt'.records = rt.records) : rt'.Refers id P := by
  intro r stored
  rw [same] at stored
  exact h r stored

theorem Runtime.Refers.putRecord {record : IntentRecord} (own : P record.intent) : (rt.putRecord id record).Refers id P := by
  intro r stored
  obtain rfl := Option.some.inj ((Dict.get_insert_self _ _ _).symm.trans stored)
  exact own

theorem refers_transition (h : rt.Refers id P) (state : IntentState) (outcome : Option DecisionOutcome) (reason : Str) :
    Ends (transition id state outcome reason) rt (fun _ rt' => rt'.Refers id P) fun _ rt' => rt'.Refers id P := by
  cases found : rt.records.get id with
  | none =>
    rw [transition, ends_bind, ends_get]
    simp only [found]
    exact ends_throw.mpr h
  | some record =>
    by_cases allowed : state ∈ record.state.allowed
    · refine (ends_transition found allowed).mpr ?_
      exact (Runtime.Refers.putRecord (by exact h record found)).of_records rfl
    · exact (ends_transition_refused found allowed).mpr h

theorem refers_assign (h : rt.Refers id P) {f : IntentRecord → IntentRecord} (kept : ∀ r, P r.intent → P (f r).intent) :
    Ends (assign id f) rt (fun _ rt' => rt'.Refers id P) fun _ rt' => rt'.Refers id P := by
  rw [assign, ends_modify]
  cases found : rt.records.get id with
  | none => exact h
  | some record => exact Runtime.Refers.putRecord (kept record (h record found))

theorem refers_bind {α β : Type} {m : RuntimeM α} {f : α → RuntimeM β}
    (h : Ends m rt (fun _ rt' => rt'.Refers id P) fun _ rt' => rt'.Refers id P)
    (later : ∀ a rt', rt'.Refers id P → Ends (f a) rt' (fun _ rt'' => rt''.Refers id P) fun _ rt'' => rt''.Refers id P) :
    Ends (m >>= f) rt (fun _ rt' => rt'.Refers id P) fun _ rt' => rt'.Refers id P := by
  rw [ends_bind]
  exact h.imp later fun _ _ h => h

theorem refers_modify (h : rt.Refers id P) {f : Runtime → Runtime} (same : ∀ rt, (f rt).records = rt.records) :
    Ends (modify f : RuntimeM PUnit) rt (fun _ rt' => rt'.Refers id P) fun _ rt' => rt'.Refers id P :=
  ends_modify.mpr (h.of_records (same rt))

variable [PyText] {ref : Ref}

theorem refers_conclude (own : P ref) (h : rt.Refers id P) (requeue : Bool) (outcome : DecisionOutcome) (reason : Str) :
    Ends (conclude ref id requeue outcome reason) rt (fun _ rt' => rt'.Refers id P) fun _ rt' => rt'.Refers id P := by
  have requeued : ∀ rt : Runtime, (if requeue then rt.submit ref else rt).records = rt.records := fun rt => by split <;> rfl
  cases outcome with
  | degrade =>
    simp only [conclude]
    rw [ends_bind, ends_get]
    cases applyDegradation (rt.heap ref) with
    | error e => exact ends_throw.mpr h
    | ok i =>
      refine refers_bind (refers_modify h fun _ => rfl) fun _ rt₁ h₁ => ?_
      refine refers_bind (refers_assign h₁ fun _ _ => own) fun _ rt₂ h₂ => ?_
      refine refers_bind (refers_transition h₂ _ _ _) fun record rt₃ h₃ => ?_
      refine refers_bind (refers_modify h₃ fun _ => rfl) fun _ rt₄ h₄ => ?_
      exact refers_bind (refers_modify h₄ requeued) fun _ rt₅ h₅ => ends_pure.mpr h₅
  | execute =>
    simp only [conclude]
    refine refers_bind (refers_modify h fun _ => rfl) fun _ rt₁ h₁ => ?_
    refine refers_bind (refers_assign h₁ fun _ _ => own) fun _ rt₂ h₂ => ?_
    refine refers_bind (refers_transition h₂ _ _ _) fun record rt₃ h₃ => ?_
    exact refers_bind (refers_modify h₃ fun _ => rfl) fun _ rt₄ h₄ => ends_pure.mpr h₄
  | delay =>
    simp only [conclude]
    refine refers_bind (refers_transition h _ _ _) fun record rt₁ h₁ => ?_
    refine refers_bind (refers_modify h₁ fun _ => rfl) fun _ rt₂ h₂ => ?_
    exact refers_bind (refers_modify h₂ requeued) fun _ rt₃ h₃ => ends_pure.mpr h₃
  | revoke =>
    simp only [conclude]
    refine refers_bind (refers_transition h _ _ _) fun record rt₁ h₁ => ?_
    exact refers_bind (refers_modify h₁ fun _ => rfl) fun _ rt₂ h₂ => ends_pure.mpr h₂

theorem refers_validationPass (cfg : Config) (call : ProcessCall) (own : P ref) (h : rt.Refers (rt.heap ref).id P) :
    Ends (validationPass cfg call ref) rt (fun _ rt' => rt'.Refers (rt.heap ref).id P)
      fun _ rt' => rt'.Refers (rt.heap ref).id P := by
  rw [validationPass, ends_bind, ends_get]
  simp only
  refine refers_bind (refers_transition h _ _ _) fun _ rt₁ h₁ => ?_
  refine refers_bind (refers_transition h₁ _ _ _) fun _ rt₂ h₂ => ?_
  refine refers_bind (refers_assign h₂ fun _ kept => kept) fun _ rt₃ h₃ => ?_
  rw [ends_ite]
  refine ⟨fun _ => ?_, fun _ => ?_⟩
  · refine refers_bind (refers_modify h₃ fun _ => rfl) fun _ rt₄ h₄ => ?_
    refine refers_bind (refers_assign h₄ fun _ _ => own) fun _ rt₅ h₅ => ?_
    refine refers_bind (refers_transition h₅ _ _ _) fun record rt₆ h₆ => ?_
    exact refers_bind (refers_modify h₆ fun _ => rfl) fun _ rt₇ h₇ => ends_pure.mpr h₇
  · rw [ends_ite]
    refine ⟨fun _ => ?_, fun _ => ?_⟩
    · refine refers_bind (refers_assign h₃ fun _ kept => kept) fun _ rt₄ h₄ => ?_
      refine refers_bind (refers_transition h₄ _ _ _) fun record rt₅ h₅ => ?_
      exact refers_bind (refers_modify h₅ fun _ => rfl) fun _ rt₆ h₆ => ends_pure.mpr h₆
    · rw [evaluate, ends_bind, ends_get]
      simp only
      rw [ends_bind, ends_set]
      have written : (rt₃.putIntent ref (rt₃.policy.applyTo (rt₃.heap ref)).1).Refers (rt.heap ref).id P := h₃.of_records rfl
      refine refers_bind (refers_assign written (by exact fun _ kept => kept)) fun _ rt₄ h₄ => ?_
      rw [ends_bind, ends_get]
      cases decision cfg call rt₄ (rt₃.policy.applyTo (rt₃.heap ref)).1 (call.context.getD rt.context) with
      | error e => exact ends_throw.mpr h₄
      | ok verdict =>
        obtain ⟨outcome, reason⟩ := verdict
        exact refers_bind (refers_assign h₄ fun _ kept => kept) fun _ rt₅ h₅ => refers_conclude own h₅ _ _ _

/-- The record of a pass refers to the intent it referred to or to the one of the pass. -/
theorem refers_processIntent (cfg : Config) (call : ProcessCall) (own : P ref) (h : rt.Refers (rt.heap ref).id P) :
    Ends (processIntent cfg call ref) rt (fun _ rt' => rt'.Refers (rt.heap ref).id P)
      fun _ rt' => rt'.Refers (rt.heap ref).id P := by
  rw [processIntent, ends_bind, ends_get]
  cases found : rt.records.get (rt.heap ref).id with
  | some record =>
    simp only
    rw [ends_ite]
    exact ⟨fun _ => refers_validationPass cfg call own h, fun _ => ends_pure.mpr h⟩
  | none =>
    simp only
    rw [ends_bind, ends_set]
    have registered : (rt.register ref).Refers (rt.heap ref).id P :=
      (Runtime.Refers.putRecord (show P (IntentRecord.fresh ref).intent from own)).of_records rfl
    exact refers_validationPass cfg call own registered

/-- The states that a pass leaves its record in. -/
def passStates : List IntentState := [.validating, .delayed, .degraded, .revoked, .expired, .authorized]

/-- A pass for the intent at `ref`: it finds its record closed and does nothing, or leaves it in some state. -/
structure Attempt (id : Str) (ref : Ref) (rt rt' : Runtime) : Prop where
  alone : Local id rt rt'
  opened : rt' = rt ∨ rt.Open id
  present : ∃ r, rt'.records.get id = some r
  intent : ∀ r', rt'.records.get id = some r' →
    r'.intent = ref ∨ ∃ r, rt.records.get id = some r ∧ r'.intent = r.intent
  reached : rt' = rt ∨ ∀ r', rt'.records.get id = some r' → r'.state ∈ passStates

theorem attempt_processIntent (cfg : Config) (call : ProcessCall) (rt : Runtime) (ref : Ref) :
    Ends (processIntent cfg call ref) rt
      (fun a rt' => Attempt (rt.heap ref).id ref rt rt' ∧ rt'.records.get (rt.heap ref).id = some a)
      fun _ rt' => Attempt (rt.heap ref).id ref rt rt' := by
  have refers := refers_processIntent (P := fun q => q = ref ∨ ∃ r, rt.records.get (rt.heap ref).id = some r ∧ q = r.intent)
    cfg call (Or.inl rfl) fun r stored => Or.inr ⟨r, stored, rfl⟩
  have only : ∀ {rt' : Runtime} {a : IntentRecord}, rt'.records.get (rt.heap ref).id = some a → a.state ∈ passStates →
      ∀ r', rt'.records.get (rt.heap ref).id = some r' → r'.state ∈ passStates := by
    intro rt' a stored reached r' stored'
    rw [stored] at stored'
    exact Option.some.inj stored' ▸ reached
  refine ((ends_processIntent cfg call rt ref).and refers).imp ?_ ?_
  · rintro a rt' ⟨⟨alone, verdict⟩, intent⟩
    cases verdict with
    | kept present closed same =>
      subst same
      exact ⟨⟨alone, Or.inl rfl, ⟨a, present⟩, intent, Or.inl rfl⟩, present⟩
    | stopped opened stored state =>
      exact ⟨⟨alone, Or.inr opened, ⟨a, stored⟩, intent, Or.inr (only stored (by rw [state]; decide))⟩, stored⟩
    | refused opened stored state =>
      refine ⟨⟨alone, Or.inr opened, ⟨a, stored⟩, intent, Or.inr (only stored ?_)⟩, stored⟩
      rcases state with state | state | state | state <;> rw [state] <;> decide
    | authorized opened stored granted =>
      exact ⟨⟨alone, Or.inr opened, ⟨a, stored⟩, intent, Or.inr (only stored (by rw [granted.state]; decide))⟩, stored⟩
  · rintro _ rt' ⟨⟨alone, opened, ⟨record, stored, state⟩, _⟩, intent⟩
    exact ⟨alone, Or.inr opened, ⟨record, stored⟩, intent, Or.inr (only stored (by rw [state]; decide))⟩

end

end Xair
