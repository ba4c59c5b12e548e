import Xair.Gateway.Starts
import Xair.Server.Grounds

/-!
# A gateway keeps what is known of the API

A gateway run submits, commits, reads and reports through the API, and calls an actuator
outside it.
-/

namespace Xair

open Library

section

variable [PyText] {cfg : SiteConfig} {s s' : Site} {id : Str} {t ticket : Nat} {job : HttpJob} {α β : Type}

/-! ### Steps outside the process -/

/-- The steps of a gateway outside the process. -/
def SiteCommand.Outward : SiteCommand → Prop
  | .sendReport _ => True
  | .startCall _ _ _ => True
  | c => c.Calls

/-- The store, the process and its histories are as they were. -/
structure Site.SameInside (s s' : Site) : Prop where
  store : s'.store = s.store
  view : s'.view = s.view
  runtime : s'.runtime = s.runtime
  authorizations : s'.authorizations = s.authorizations
  allocated : s'.allocated = s.allocated

theorem Site.SameInside.keeps (same : s.SameInside s') (inv : s.Named ∧ s.Grounded) :
    (s'.Named ∧ s'.Grounded) ∧ s.Grows s' ∧ s.RetainedBy s' := by
  obtain ⟨named, h⟩ := inv
  obtain ⟨store, view, runtime, authorizations, allocated⟩ := same
  have grows : s.Grows s' := ⟨Nat.le_of_eq allocated.symm, fun r _ => by rw [runtime]⟩
  refine ⟨⟨?_, ?_⟩, grows, by rw [store], by rw [authorizations], by rw [store]⟩
  · intro x r stored
    rw [runtime] at stored
    exact (named x r stored).grows grows
  · constructor
    · rw [store]
      exact h.store
    · rw [view, store]
      exact h.view
    · rw [runtime, store]
      exact h.installed
    · rw [authorizations, store]
      exact h.passes
    · rw [runtime]
      exact h.decided
    · rw [runtime, authorizations]
      exact h.records
    · rw [store, authorizations]
      exact h.log

variable (cfg) in
theorem sameInside_outward {c : SiteCommand} (outward : c.Outward) (s : Site) : s.SameInside (Site.exec cfg c s).2 := by
  cases c <;> first | exact ⟨rfl, rfl, rfl, rfl, rfl⟩ | exact outward.elim

theorem grounding_outward {m : Handler cfg α} (sends : Method.Sends SiteCommand.Outward m) : Grounding cfg t job m s fun _ _ => True :=
  (Method.Runs.of_sends (fun _ s _ outward inv _ => (sameInside_outward cfg outward s).keeps inv) sends).imp (fun _ _ _ _ _ => trivial) fun _ _ _ _ _ => trivial

theorem grounding_done {m : Handler cfg α} {ok : α → Site → Prop} (h : Grounding cfg t job m s ok) : Grounding cfg t job m s fun _ _ => True :=
  h.imp (fun _ _ _ _ _ => trivial) fun _ _ _ _ _ => trivial

theorem grounding_pure (a : α) : Grounding cfg t job (pure a : Handler cfg α) s fun _ _ => True := Method.runs_pure fun _ _ _ => trivial

/-- A bind of which nothing is to be known. -/
theorem grounding_then (inv : s.Named ∧ s.Grounded) {m : Handler cfg β} {f : β → Handler cfg α}
    (h : Grounding cfg t job m s fun _ _ => True)
    (later : ∀ b (s' : Site), s'.Named ∧ s'.Grounded → Grounding cfg t job (f b) s' fun _ _ => True) :
    Grounding cfg t job (m >>= f) s fun _ _ => True :=
  grounding_bind inv h fun b s' inv' _ _ => later b s' inv'

theorem grounding_tryCatch (inv : s.Named ∧ s.Grounded) {m : Handler cfg α} {handler : HttpError → Handler cfg α}
    (h : Grounding cfg t job m s fun _ _ => True)
    (handled : ∀ e (s' : Site), s'.Named ∧ s'.Grounded → Grounding cfg t job (handler e) s' fun _ _ => True) :
    Grounding cfg t job (tryCatch m handler) s fun _ _ => True :=
  Method.runs_tryCatch inv (h.imp (fun _ _ _ _ _ => trivial) fun e _ s' _ _ inv' => handled e s' inv')

theorem grounding_both {m : Handler cfg α} {ok ok' : α → Site → Prop} (named : Naming cfg t job m s ok) (backed : Backing cfg t job m s ok') :
    Grounding cfg t job m s fun _ _ => True := by
  have named : Method.Runs (naming cfg) t job (fun _ _ _ => True) m () s (fun a _ => ok a) fun _ _ _ => True := named
  exact (Method.Runs.both (fun _ _ _ _ _ _ => ⟨trivial, trivial⟩) named backed).imp (fun _ _ _ _ _ => trivial) fun _ _ _ _ _ => trivial

/-- Steps that keep the names and need nothing. -/
theorem grounding_sends {m : Handler cfg α} (routine : Method.Sends SiteCommand.Routine m)
    (ungrounded : Method.Sends SiteCommand.Ungrounded m) : Grounding cfg t job m s fun _ _ => True :=
  grounding_both (naming_routine routine) (backing_sends ungrounded)

theorem grounding_http (inv : s.Named ∧ s.Grounded) {handler : Handler cfg α}
    (h : ∀ s' : Site, s'.Named ∧ s'.Grounded → Grounding cfg t job handler s' fun _ _ => True) :
    Grounding cfg t job (http handler) s fun _ _ => True :=
  grounding_then inv (grounding_sent (c := .send) trivial trivial fun _ => trivial) fun _ s₁ inv₁ =>
    grounding_then inv₁ (h s₁ inv₁) fun _ _ inv₂ =>
      grounding_then inv₂ (grounding_sent (c := .send) trivial trivial fun _ => trivial) fun _ _ _ => grounding_pure _

theorem grounding_sendReport (report : LifecycleReport) : Grounding cfg t job (step (.sendReport report)) s fun _ _ => True :=
  grounding_outward (sends_step (by exact trivial))

theorem grounding_startCall (id : Str) (witness : Option Json) : Grounding cfg t job (step (.startCall ticket id witness)) s fun _ _ => True :=
  grounding_outward (sends_step (by exact trivial))

theorem grounding_callActuator (id : Str) (actuator : Actuator) (witness : Option Json) (deadlineMs : ℚ) :
    Grounding cfg t job (callActuator ticket id actuator witness deadlineMs) s fun _ _ => True := by
  refine grounding_outward ((sends_callActuator id actuator witness deadlineMs).imp fun c calls => ?_)
  cases c <;> first | exact calls | exact trivial

theorem ungrounded_releaseReport (id : Str) (released : Bool) (reason : Str) (cv rv : Option Int) (effect : Option (EffectStatus × Str)) :
    Method.Sends SiteCommand.Ungrounded (releaseReport id released reason cv rv effect : Handler cfg IntentRecord) := by
  refine Method.sends_bind (sends_step (by exact trivial)) fun reply => Method.sends_bind (sends_answered reply) fun record => ?_
  cases effect with
  | none => exact Method.sends_pure _
  | some observed =>
    exact Method.sends_ite (Method.sends_bind (sends_step (by exact trivial)) fun reply => sends_answered reply) (Method.sends_pure _)

theorem ungrounded_withheldReport (id reason : Str) (append : Fate) :
    Method.Sends SiteCommand.Ungrounded (withheldReport id reason append : Handler cfg IntentRecord) :=
  Method.sends_bind (sends_step (by exact trivial)) fun reply => sends_answered reply

theorem grounding_sendRelease (inv : s.Named ∧ s.Grounded) (id : Str) (released : Bool) (reason : Str) (cv rv : Option Int)
    (effect : Option (EffectStatus × Str)) : Grounding cfg t job (sendRelease ticket id released reason cv rv effect) s fun _ _ => True :=
  grounding_tryCatch inv (grounding_then inv (grounding_sendReport _) fun _ _ inv₁ =>
    grounding_then inv₁ (grounding_http inv₁ fun _ _ => grounding_sends (sends_releaseReport id released reason cv rv effect)
      (ungrounded_releaseReport id released reason cv rv effect)) fun _ _ _ => grounding_pure _) fun _ _ _ => grounding_pure _

theorem grounding_sendWithheld (inv : s.Named ∧ s.Grounded) (id reason : Str) (append : Fate) :
    Grounding cfg t job (sendWithheld ticket id reason append) s fun _ _ => True :=
  grounding_tryCatch inv (grounding_then inv (grounding_sendReport _) fun _ _ inv₁ =>
    grounding_then inv₁ (grounding_http inv₁ fun _ _ => grounding_sends (sends_withheldReport id reason append)
      (ungrounded_withheldReport id reason append)) fun _ _ _ => grounding_pure _) fun _ _ _ => grounding_pure _

theorem grounding_releaseStop (inv : s.Named ∧ s.Grounded) (id : Str) :
    Grounding cfg t job (releaseStop ticket id) s fun _ _ => True := by
  refine grounding_then inv (grounding_startCall id none) fun _ s₁ inv₁ => ?_
  refine grounding_then inv₁ (grounding_tryCatch inv₁ (grounding_callActuator id .middleware none 0) fun _ _ _ => grounding_pure _) fun called s₂ inv₂ => ?_
  exact grounding_then inv₂ (grounding_sendRelease inv₂ id true _ none none _) fun _ _ _ => grounding_pure _

theorem grounding_commitAndCall (inv : s.Named ∧ s.Grounded) (q : GatewayQuery) (i : ActionIntent) (result : SubmitAnswer) :
    Grounding cfg t job (commitAndCall ticket q i result) s fun _ _ => True := by
  refine grounding_then inv (grounding_http inv fun _ inv' => grounding_commitIntent inv' result.id _ q.commitMarginMs) fun act s₁ inv₁ => ?_
  refine Method.runs_ite (fun _ => ?_) fun _ => grounding_pure _
  refine grounding_then inv₁ (grounding_sent (c := .time) trivial trivial fun _ => trivial) fun now s₂ inv₂ => ?_
  refine Method.runs_ite (fun _ => ?_) fun _ => grounding_then inv₂ (grounding_sendWithheld inv₂ result.id _ q.append) fun _ _ _ => grounding_pure _
  refine grounding_then inv₂ (grounding_startCall result.id _) fun _ s₃ inv₃ => ?_
  exact grounding_then inv₃ (grounding_tryCatch inv₃ (grounding_callActuator result.id q.actuator _ _) fun _ _ _ => grounding_pure _)
    fun _ _ _ => grounding_pure _

theorem grounding_releaseAtomic (inv : s.Named ∧ s.Grounded) (q : GatewayQuery) (i : ActionIntent) (result : SubmitAnswer) :
    Grounding cfg t job (releaseAtomic ticket q i result) s fun _ _ => True := by
  refine grounding_then inv (grounding_tryCatch inv (grounding_commitAndCall inv q i result) fun _ _ _ => grounding_pure _) fun release s₁ inv₁ => ?_
  cases release with
  | blocked reason => exact grounding_pure _
  | called reason cellResult rosOk =>
    exact grounding_then inv₁ (grounding_sendRelease inv₁ result.id true reason none none _) fun _ _ _ => grounding_pure _

theorem grounding_contextSnapshot (inv : s.Named ∧ s.Grounded) (exprs : Option (List Str)) (id : Str) :
    Grounding cfg t job (contextSnapshot exprs (some id)) s fun _ _ => True :=
  grounding_both (naming_plain (sends_contextSnapshot exprs (some id))) (backing_bind inv.2 (backing_snapshotDocument inv.2 exprs)
    fun _ _ _ _ _ => backing_sends (Method.sends_bind (sends_step (by exact trivial)) fun _ => Method.sends_pure _))

theorem grounding_checkAndCall (inv : s.Named ∧ s.Grounded) (q : GatewayQuery) (i : ActionIntent) (result : SubmitAnswer) (doc : SnapshotDoc)
    (state : Option IntentState) (timedOut : Nat → Nat → Bool) :
    Grounding cfg t job (checkAndCall ticket q i result doc state timedOut) s fun _ _ => True := by
  refine grounding_then inv (grounding_sent (c := .time) trivial trivial fun _ => trivial) fun now s₁ inv₁ => ?_
  cases gateCheck cfg result i q.scope doc state now timedOut with
  | error e => exact Method.runs_throw fun _ _ _ => trivial
  | ok out =>
    obtain ⟨passed, reason⟩ := out
    cases passed with
    | false => exact grounding_pure _
    | true =>
      refine grounding_then inv₁ (grounding_startCall result.id _) fun _ _ inv₂ => ?_
      exact grounding_then inv₂ (grounding_callActuator result.id q.actuator _ _) fun _ _ _ => grounding_pure _

theorem grounding_releaseOptimistic (inv : s.Named ∧ s.Grounded) (q : GatewayQuery) (i : ActionIntent) (result : SubmitAnswer)
    (timedOut : Nat → Nat → Bool) : Grounding cfg t job (releaseOptimistic ticket q i result timedOut) s fun _ _ => True := by
  refine grounding_then inv (grounding_tryCatch inv (grounding_http inv fun _ inv' => grounding_contextSnapshot inv' _ result.id)
    fun _ _ _ => grounding_pure _) fun read s₁ inv₁ => ?_
  refine grounding_then inv₁ (grounding_tryCatch inv₁ (grounding_checkAndCall inv₁ q i result read.1 read.2 timedOut)
    fun _ _ _ => grounding_pure _) fun release s₂ inv₂ => ?_
  cases release with
  | blocked reason => exact grounding_then inv₂ (grounding_sendRelease inv₂ result.id false reason _ _ none) fun _ _ _ => grounding_pure _
  | called reason cellResult rosOk =>
    exact grounding_then inv₂ (grounding_sendRelease inv₂ result.id true reason _ _ _) fun _ _ _ => grounding_pure _

theorem grounding_submission (inv : s.Named ∧ s.Grounded) (body : ActionIntent) (timedOut : Nat → Nat → Bool) :
    Grounding cfg t job (submitIntent t (some body) timedOut) s fun _ _ => True :=
  grounding_both (naming_leads ((namingCourse cfg t job t body.id).leads_submitIntent inv.1 rfl timedOut))
    (backing_submitIntent inv.2 (some body) timedOut)

theorem grounding_xairPolicy (inv : s.Named ∧ s.Grounded) (q : GatewayQuery) (body : ActionIntent) (timedOut gateTimedOut : Nat → Nat → Bool) :
    Grounding cfg t job (xairPolicy t q body timedOut gateTimedOut) s fun _ _ => True := by
  refine grounding_then inv (grounding_tryCatch inv (grounding_then inv (grounding_http inv fun _ inv' =>
    grounding_submission inv' body timedOut) fun _ _ _ => grounding_pure _) fun _ _ _ => grounding_pure _) fun submitted s₁ inv₁ => ?_
  cases submitted with
  | none => exact grounding_pure _
  | some result =>
    refine Method.runs_ite (fun _ => grounding_pure _) fun _ => Method.runs_ite (fun _ => grounding_pure _) fun _ => ?_
    refine Method.runs_ite (fun _ => grounding_releaseStop inv₁ result.id) fun _ => ?_
    exact Method.runs_ite (fun _ => grounding_releaseAtomic inv₁ q _ result) fun _ => grounding_releaseOptimistic inv₁ q _ result gateTimedOut

end

end Xair
