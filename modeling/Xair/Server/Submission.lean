import Xair.Server.Routine

/-!
# What a submission answers

An answer with the outcome `EXECUTE` that is not one to a duplicate shows a record which the
submission has read after its own validation pass. What this tells of the record depends on
the run it is part of, and is a parameter here.
-/

namespace Xair

open Library

variable [PyText] {cfg : SiteConfig} {Role : Type}

/-- What is known along a submission of `id`, and why its steps may rely on it. -/
structure Course (D : Discipline (site cfg) Role) (t : Nat) (role : Role) (may : SiteCommand → Site → Fate → Prop)
    (ticket : Nat) (id : Str) where
  /-- What any step of the submission does, and the others. -/
  Moves : Site → Site → Prop
  /-- What a plain step does, and the others. -/
  Keeps : Site → Site → Prop
  /-- The intent may be validated. -/
  Ready : Ref → Site → Prop
  /-- The context is one to validate on. -/
  Source : Members → Site → Prop
  /-- The record is one that a pass on this context has left, or what has become of it. -/
  Good : Option Members → IntentRecord → Site → Prop
  moves_trans : ∀ s s' s'', Moves s s' → Moves s' s'' → Moves s s''
  keeps_refl : ∀ s, Keeps s s
  keeps_trans : ∀ s s' s'', Keeps s s' → Keeps s' s'' → Keeps s s''
  moves_of_keeps : ∀ s s', Keeps s s' → Moves s s'
  keeps_of_rely : ∀ s s', D.Rely t s s' → Keeps s s'
  ready_moves : ∀ ref s s', Ready ref s → Moves s s' → Ready ref s'
  source_moves : ∀ context s s', Source context s → Moves s s' → Source context s'
  good_keeps : ∀ context a s s', Good context a s → Keeps s s' → Good context a s'
  ready_of_good : ∀ context a s, D.Inv s → Good context a s → Ready a.intent s
  plain : ∀ c s fate, c.Plain → D.Inv s → may c s fate →
    D.Inv (Site.exec cfg c s).2 ∧ D.Step t role s (Site.exec cfg c s).2 ∧ Keeps s (Site.exec cfg c s).2
  withdrawn : ∀ outcome reason s fate, D.Inv s → may (.transition id .revoked outcome reason) s fate →
    D.Inv (Site.exec cfg (.transition id .revoked outcome reason) s).2 ∧
      D.Step t role s (Site.exec cfg (.transition id .revoked outcome reason) s).2 ∧
      Moves s (Site.exec cfg (.transition id .revoked outcome reason) s).2
  created : ∀ i s, i.id = id → D.Inv s → may (.create i) s .done → Ready s.allocated (Site.exec cfg (.create i) s).2
  admission : ∀ ref s fate, D.Inv s → Ready ref s → may (.admitIntent ref) s fate →
    D.Inv (Site.exec cfg (.admitIntent ref) s).2 ∧ D.Step t role s (Site.exec cfg (.admitIntent ref) s).2 ∧
      Moves s (Site.exec cfg (.admitIntent ref) s).2
  admitted : ∀ ref s a, D.Inv s → Ready ref s → may (.admitIntent ref) s .done →
    (s.runs (admitIntent cfg.config ref s.mono false)).1 = .ok a →
      Ready a.1.intent (Site.exec cfg (.admitIntent ref) s).2
  registered : ∀ exprs s, D.Inv s → may (.registerAndSnapshot exprs) s .done →
    ∀ doc : SnapshotDoc, (Site.exec cfg (.registerAndSnapshot exprs) s).1 = doc → doc.trusted = true →
      Source doc.snapshot.context (Site.exec cfg (.registerAndSnapshot exprs) s).2
  process : ∀ ref call s fate, D.Inv s → Ready ref s → (∀ context, call.context = some context → Source context s) →
    may (.process ticket ref call) s fate →
      D.Inv (s.process cfg ticket ref call).2 ∧ D.Step t role s (s.process cfg ticket ref call).2 ∧
        Moves s (s.process cfg ticket ref call).2
  processed : ∀ ref call s a, D.Inv s → Ready ref s → (∀ context, call.context = some context → Source context s) →
    may (.process ticket ref call) s .done → (s.process cfg ticket ref call).1 = .ok a →
      Good call.context a (s.process cfg ticket ref call).2
  read : ∀ context a s, D.Inv s → Good context a s → may (.current id a) s .done → Good context (s.current id a) s

namespace Course

variable {D : Discipline (site cfg) Role} {t : Nat} {role : Role} {may : SiteCommand → Site → Fate → Prop}
  {ticket : Nat} {id : Str} (C : Course D t role may ticket id) {α β : Type} {s : Site}

/-- The answer is one to a duplicate, not an `EXECUTE`, or shows a record of the submission. -/
def Answers (a : SubmitAnswer) (s : Site) : Prop := a.duplicate = true ∨ a.outcome ≠ some .execute ∨
  ∃ context record payload, C.Good context record s ∧ a = submitAnswer id record false context payload

theorem Answers.keeps {a : SubmitAnswer} {s' : Site} (h : C.Answers a s) (kept : C.Keeps s s') : C.Answers a s' := by
  rcases h with duplicate | other | ⟨context, record, payload, good, same⟩
  · exact Or.inl duplicate
  · exact Or.inr (Or.inl other)
  · exact Or.inr (Or.inr ⟨context, record, payload, C.good_keeps _ _ _ _ good kept, same⟩)

/-- The judgement along a submission. -/
abbrev Leads (m : Handler cfg α) (s : Site) (ok : α → Site → Prop) : Prop :=
  Method.Runs D t role may m () s (fun a _ s' => C.Moves s s' ∧ ok a s') fun _ _ _ => True

/-! ### Steps -/

theorem leads_bind {m : Handler cfg β} {f : β → Handler cfg α} {P : β → Site → Prop} {ok : α → Site → Prop} (inv : D.Inv s)
    (h : C.Leads m s P) (later : ∀ b (s' : Site), D.Inv s' → C.Moves s s' → P b s' → C.Leads (f b) s' ok) :
    C.Leads (m >>= f) s ok := by
  refine Method.runs_bind inv (h.imp (fun b _ s' _ ends inv' => ?_) fun _ _ _ _ _ => trivial)
  exact (later b s' inv' ends.1 ends.2).imp (fun _ _ _ _ rest => ⟨C.moves_trans _ _ _ ends.1 rest.1, rest.2⟩)
    fun _ _ _ _ _ => trivial

theorem leads_pure {a : α} {ok : α → Site → Prop} (h : ∀ s', C.Keeps s s' → ok a s') : C.Leads (pure a) s ok :=
  Method.runs_pure fun s' rely _ => ⟨C.moves_of_keeps _ _ (C.keeps_of_rely _ _ rely), h s' (C.keeps_of_rely _ _ rely)⟩

/-- Plain steps, and what follows them. -/
theorem leads_plain {m : Handler cfg β} {f : β → Handler cfg α} {ok : α → Site → Prop} (inv : D.Inv s)
    (sends : Method.Sends SiteCommand.Plain m)
    (later : ∀ b (s' : Site), D.Inv s' → C.Keeps s s' → C.Leads (f b) s' ok) : C.Leads (m >>= f) s ok := by
  refine C.leads_bind inv (P := fun _ s' => C.Keeps s s') ?_ fun b s' inv' _ kept => later b s' inv' kept
  refine (Method.Runs.keeping (K := C.Keeps s) (fun _ _ kept rely => C.keeps_trans _ _ _ kept (C.keeps_of_rely _ _ rely))
    (fun c s' fate plain inv' kept allowed => ?_) sends (C.keeps_refl s)).imp (fun _ _ s' _ kept => ?_) fun _ _ _ _ _ => trivial
  · obtain ⟨after, moved, further⟩ := C.plain c s' fate plain inv' allowed
    exact ⟨after, moved, C.keeps_trans _ _ _ kept further⟩
  · exact ⟨C.moves_of_keeps _ _ kept, kept⟩

section

variable {c : SiteCommand} {P : c.Reply → Site → Prop}
  (effect : ∀ s' fate, C.Keeps s s' → D.Inv s' → may c s' fate →
    D.Inv (Site.exec cfg c s').2 ∧ D.Step t role s' (Site.exec cfg c s').2 ∧ C.Moves s' (Site.exec cfg c s').2)
  (replied : ∀ s', C.Keeps s s' → D.Inv s' → may c s' .done → ∀ s'', C.Keeps (Site.exec cfg c s').2 s'' →
    P (Site.exec cfg c s').1 s'')

include effect replied

/-- One step that moves the state whatever becomes of it, and what it replies. -/
theorem runs_step : Method.Runs D t role may (step c) () s (fun a _ s' => C.Moves s s' ∧ P a s')
    fun _ _ s' => C.Moves s s' := by
  have before : ∀ s', D.Rely t s s' → C.Moves s s' := fun s' rely => C.moves_of_keeps _ _ (C.keeps_of_rely _ _ rely)
  have across : ∀ s' fate, D.Rely t s s' → D.Inv s' → may c s' fate → C.Moves s' (Site.exec cfg c s').2 :=
    fun s' fate rely inv' allowed => (effect s' fate (C.keeps_of_rely _ _ rely) inv' allowed).2.2
  refine Method.runs_sent (fun s' fate rely inv' allowed => ?_) (fun s' rely inv' allowed s'' rely' _ => ⟨?_, ?_⟩)
    fun s' fate rely inv' allowed _ s'' rely' _ _ => ?_
  · obtain ⟨after, moved, _⟩ := effect s' fate (C.keeps_of_rely _ _ rely) inv' allowed
    exact ⟨after, moved⟩
  · have after := C.moves_of_keeps _ _ (C.keeps_of_rely _ _ rely')
    exact C.moves_trans _ _ _ (C.moves_trans _ _ _ (before s' rely) (across s' .done rely inv' allowed)) after
  · exact replied s' (C.keeps_of_rely _ _ rely) inv' allowed s'' (C.keeps_of_rely _ _ rely')
  · have here : C.Moves s ((site cfg).perform c s' fate).2 := Service.perform_of (S := site cfg) (P := C.Moves s) (before s' rely)
      (C.moves_trans _ _ _ (before s' rely) (across s' fate rely inv' allowed)) fate
    exact C.moves_trans _ _ _ here (C.moves_of_keeps _ _ (C.keeps_of_rely _ _ rely'))

theorem leads_step : C.Leads (step c) s P :=
  (C.runs_step effect replied).imp (fun _ _ _ _ ends => ends) fun _ _ _ _ _ => trivial

theorem leads_attempted (inv : D.Inv s) :
    C.Leads (attempted c) s fun reply s' => ∀ a, reply = some a → P a s' := by
  refine Method.runs_tryCatch inv (Method.runs_map inv ((C.runs_step effect replied).imp (fun _ _ _ _ ends => ends)
    fun _ _ s' _ moved _ => ?_) fun a _ s' _ ends => ⟨ends.1, fun a' same => Option.some.inj same ▸ ends.2⟩)
  refine Method.runs_pure fun s'' rely _ => ⟨?_, fun _ none => nomatch none⟩
  exact C.moves_trans _ _ _ moved (C.moves_of_keeps _ _ (C.keeps_of_rely _ _ rely))

end

theorem leads_answered (reply : Except RuntimeError α) {P : α → Site → Prop}
    (h : ∀ a, reply = .ok a → ∀ s', C.Keeps s s' → P a s') : C.Leads (answered reply) s P := by
  cases reply with
  | ok a => exact C.leads_pure (h a rfl)
  | error e => exact Method.runs_throw fun _ _ _ => trivial

variable {ref : Ref}

theorem ready_keeps {s' : Site} (ready : C.Ready ref s) (kept : C.Keeps s s') : C.Ready ref s' :=
  C.ready_moves ref _ _ ready (C.moves_of_keeps _ _ kept)

theorem source_keeps {context : Members} {s' : Site} (source : C.Source context s) (kept : C.Keeps s s') :
    C.Source context s' :=
  C.source_moves context _ _ source (C.moves_of_keeps _ _ kept)

/-- The context of the call, if it has one of its own, is one to validate on. -/
def From (context : Option Members) (s : Site) : Prop := ∀ members, context = some members → C.Source members s

theorem From.moves {context : Option Members} {s' : Site} (h : C.From context s) (moved : C.Moves s s') :
    C.From context s' :=
  fun members same => C.source_moves _ _ _ (h members same) moved

theorem leads_processNow (inv : D.Inv s) (ready : C.Ready ref s) (call : ProcessCall) (source : C.From call.context s) :
    C.Leads (processNow ticket ref call) s fun a s' => C.Good call.context a s' := by
  refine C.leads_bind inv (P := fun reply s' => ∀ a, reply = .ok a → C.Good call.context a s')
    (C.leads_step (fun s' fate kept inv' allowed => ?_) fun s' kept inv' allowed s'' kept' a same => ?_)
    fun reply s₁ _ _ good => C.leads_answered reply fun a same s₂ kept => C.good_keeps _ _ _ _ (good a same) kept
  · exact C.process ref call s' fate inv' (C.ready_keeps ready kept) (source.moves C (C.moves_of_keeps _ _ kept)) allowed
  · have good := C.processed ref call s' a inv' (C.ready_keeps ready kept) (source.moves C (C.moves_of_keeps _ _ kept))
      allowed same
    exact C.good_keeps _ _ _ _ good kept'

theorem leads_current {context : Option Members} {record : IntentRecord} (good : C.Good context record s) :
    C.Leads (step (.current id record)) s fun now s' => C.Good context now s' := by
  refine C.leads_step (fun s' fate kept inv' allowed => ?_) fun s' kept inv' allowed s'' kept' => ?_
  · obtain ⟨after, moved, keeps⟩ := C.plain (.current id record) s' fate trivial inv' allowed
    exact ⟨after, moved, C.moves_of_keeps _ _ keeps⟩
  · exact C.good_keeps _ _ _ _ (C.read context record s' inv' (C.good_keeps _ _ _ _ good kept) allowed) kept'

/-! ### `_validate_now` and the answer -/

theorem leads_validateNow (inv : D.Inv s) (ready : C.Ready ref s) {context : Option Members} (source : C.From context s)
    (call : (Nat → Bool) → ProcessCall) (same : ∀ timedOut, (call timedOut).context = context)
    (timedOut : Nat → Nat → Bool) :
    C.Leads (validateNow ticket ref id call timedOut) s fun a s' => C.Good context a s' := by
  have pass : ∀ {ref : Ref} {s : Site} (n : Nat), D.Inv s → C.Ready ref s → C.From context s →
      C.Leads (processNow ticket ref (call (timedOut n))) s fun a s' => C.Good context a s' := by
    intro ref s n inv ready source
    have judged := C.leads_processNow inv ready (call (timedOut n)) (by rw [same]; exact source)
    rwa [same] at judged
  refine C.leads_bind inv (pass 0 inv ready source) fun record s₁ inv₁ moved₁ good₁ => ?_
  refine C.leads_bind inv₁ (C.leads_current good₁) fun now s₂ inv₂ moved₂ good₂ => ?_
  refine Method.runs_ite (fun _ => ?_) fun _ => C.leads_pure fun s' kept => C.good_keeps _ _ _ _ good₂ kept
  exact pass 1 inv₂ (C.ready_of_good _ _ _ inv₂ good₂) ((source.moves C moved₁).moves C moved₂)

theorem leads_answer (inv : D.Inv s) {context : Option Members} {record : IntentRecord} (good : C.Good context record s) :
    C.Leads (answer id record false context) s C.Answers := by
  refine C.leads_bind inv (C.leads_current good) fun now s₁ inv₁ _ good₁ => ?_
  have shown : ∀ {s' : Site} payload, C.Good context now s' → C.Answers (submitAnswer id now false context payload) s' :=
    fun payload good => Or.inr (Or.inr ⟨context, now, payload, good, rfl⟩)
  refine Method.runs_ite (fun _ => ?_) fun _ => C.leads_pure fun s' kept => shown _ (C.good_keeps _ _ _ _ good₁ kept)
  exact C.leads_plain inv₁ (sends_step (c := .intent (IntentRecord.intent now)) trivial) fun i s₂ _ kept₂ =>
    C.leads_pure fun s' kept => shown _ (C.good_keeps _ _ _ _ (C.good_keeps _ _ _ _ good₁ kept₂) kept)

theorem leads_withdraw (inv : D.Inv s) (reason : String) : C.Leads (withdraw id reason) s fun _ _ => True := by
  refine C.leads_bind inv (P := fun _ _ => True) (C.leads_step (fun s' fate _ inv' allowed => ?_) fun _ _ _ _ _ _ => trivial)
    fun reply _ _ _ _ => C.leads_answered reply fun _ _ _ _ => trivial
  exact C.withdrawn _ _ s' fate inv' allowed

/-- An intent that is withdrawn is answered with a rejection. -/
theorem leads_rejected (inv : D.Inv s) (reason : String) (answered : SubmitAnswer)
    (rejected : answered.outcome ≠ some .execute) :
    C.Leads (do let _ ← withdraw id reason; return answered) s C.Answers :=
  C.leads_bind inv (C.leads_withdraw inv reason) fun _ _ _ _ _ => C.leads_pure fun _ _ => Or.inr (Or.inl rejected)

/-! ### `POST /v1/intents` -/

theorem leads_registeredSnapshot (inv : D.Inv s) (exprs : List Str) :
    C.Leads (registeredSnapshot exprs) s fun doc s' => doc.trusted = true → C.Source doc.snapshot.context s' := by
  refine C.leads_bind inv (P := fun reply s' => ∀ doc : SnapshotDoc, reply = some doc → doc.trusted = true →
    C.Source doc.snapshot.context s') (C.leads_attempted (c := .registerAndSnapshot exprs) (P := fun doc s' => SnapshotDoc.trusted doc = true →
    C.Source doc.snapshot.context s') (fun s' fate _ inv' allowed => ?_) (fun s' _ inv' allowed s'' kept' trusted => ?_) inv)
    fun reply s₁ inv₁ _ source => ?_
  · obtain ⟨after, moved, keeps⟩ := C.plain (.registerAndSnapshot exprs) s' fate trivial inv' allowed
    exact ⟨after, moved, C.moves_of_keeps _ _ keeps⟩
  · exact C.source_keeps (C.registered exprs s' inv' allowed _ rfl trusted) kept'
  · cases reply with
    | some doc =>
      exact Method.runs_ite (fun _ => Method.runs_throw fun _ _ _ => trivial) fun _ =>
        C.leads_pure fun s' kept trusted => C.source_keeps (source doc rfl trusted) kept
    | none =>
      exact C.leads_plain inv₁ (sends_step (c := .lastView) trivial) fun last s₂ _ _ =>
        C.leads_pure fun _ _ trusted => nomatch trusted

theorem leads_validateFresh (inv : D.Inv s) (ready : C.Ready ref s) (timedOut : Nat → Nat → Bool) :
    C.Leads (validateFresh ticket ref id timedOut) s C.Answers := by
  refine C.leads_plain inv (sends_fenceIntent ticket ref) fun _ s₁ inv₁ kept₁ => ?_
  refine C.leads_plain inv₁ (sends_step (c := .prepare ref) trivial) fun exprs s₂ inv₂ kept₂ => ?_
  refine C.leads_bind inv₂ (C.leads_registeredSnapshot inv₂ exprs) fun doc s₃ inv₃ moved₃ source => ?_
  have ready₃ := C.ready_moves _ _ _ (C.ready_keeps (C.ready_keeps ready kept₁) kept₂) moved₃
  refine Method.runs_ite (fun trusted => ?_) fun _ => C.leads_rejected inv₃ _ _ (by simp [rejection])
  have validated : ∀ s : Site, D.Inv s → C.Ready ref s → C.Source doc.snapshot.context s → C.Leads (do
      let record ← validateNow ticket ref id (snapshotCall doc) timedOut
      answer id record false (some doc.snapshot.context)) s C.Answers := by
    intro s inv ready source
    have from_ : C.From (some doc.snapshot.context) s := fun members same => Option.some.inj same ▸ source
    exact C.leads_bind inv (C.leads_validateNow inv ready from_ (snapshotCall doc) (fun _ => rfl) timedOut)
      fun record s₁ inv₁ _ good => C.leads_answer inv₁ good
  refine Method.runs_ite (fun _ => ?_) fun _ => validated s₃ inv₃ ready₃ (source trusted)
  exact C.leads_plain inv₃ (sends_step (c := .install doc.snapshot) trivial) fun _ s₄ inv₄ kept₄ =>
    validated s₄ inv₄ (C.ready_keeps ready₃ kept₄) (C.source_keeps (source trusted) kept₄)

theorem leads_submitAdmitted (inv : D.Inv s) (ready : C.Ready ref s) (firstAdmission : Bool) (timedOut : Nat → Nat → Bool) :
    C.Leads (submitAdmitted ticket ref id firstAdmission timedOut) s C.Answers := by
  refine C.leads_plain inv (sends_step (c := .actionClass ref) trivial) fun cls s₁ inv₁ kept₁ => ?_
  have ready₁ := C.ready_keeps ready kept₁
  refine Method.runs_ite (fun _ => ?_) fun _ => Method.runs_ite (fun _ => ?_) fun _ =>
    C.leads_validateFresh inv₁ ready₁ timedOut
  · refine C.leads_bind inv₁ (C.leads_validateNow inv₁ ready₁ (show C.From none s₁ from fun _ same => nomatch same) installedCall
      (fun _ => rfl) timedOut) fun record s₂ inv₂ _ good₂ => ?_
    exact C.leads_plain inv₂ (sends_recordStop _ _ _ _) fun _ s₃ inv₃ kept₃ =>
      C.leads_answer inv₃ (C.good_keeps _ _ _ _ good₂ kept₃)
  · refine C.leads_plain inv₁ (sends_attempted (c := .claimIntent id) trivial) fun claimed s₂ inv₂ kept₂ => ?_
    exact Method.runs_ite (fun _ => C.leads_validateFresh inv₂ (C.ready_keeps ready₁ kept₂) timedOut) fun _ =>
      C.leads_rejected inv₂ _ _ (by simp [rejection])

theorem leads_submitIntent (inv : D.Inv s) {i : ActionIntent} (own : i.id = id) (timedOut : Nat → Nat → Bool) :
    C.Leads (submitIntent ticket (some i) timedOut) s C.Answers := by
  subst own
  refine C.leads_bind inv (P := fun ref s' => C.Ready ref s') (C.leads_step (fun s' fate _ inv' allowed => ?_)
    fun s' _ inv' allowed s'' kept => ?_) fun ref s₁ inv₁ _ ready₁ => ?_
  · obtain ⟨after, moved, keeps⟩ := C.plain (.create { i with policyAdded := none }) s' fate trivial inv' allowed
    exact ⟨after, moved, C.moves_of_keeps _ _ keeps⟩
  · exact C.ready_keeps (C.created { i with policyAdded := none } s' rfl inv' allowed) kept
  refine C.leads_bind inv₁ (P := fun reply s' => ∀ a, reply = .ok a → C.Ready ref s' ∧ C.Ready (a : IntentRecord × Bool).1.intent s')
    (C.leads_step (fun s' fate kept inv' allowed => ?_) fun s' kept inv' allowed s'' kept' a same => ?_)
    fun reply s₂ inv₂ _ ready₂ => ?_
  · exact C.admission ref s' fate inv' (C.ready_keeps ready₁ kept) allowed
  · have ready := C.ready_keeps ready₁ kept
    have moved := (C.admission ref s' .done inv' ready allowed).2.2
    exact ⟨C.ready_keeps (C.ready_moves _ _ _ ready moved) kept', C.ready_keeps (C.admitted ref s' a inv' ready allowed same) kept'⟩
  refine C.leads_bind inv₂ (C.leads_answered (P := fun a s' => C.Ready ref s' ∧ C.Ready (IntentRecord.intent a.1) s') reply
    fun a same s' kept => ⟨C.ready_keeps (ready₂ a same).1 kept, C.ready_keeps (ready₂ a same).2 kept⟩)
    fun a s₃ inv₃ _ ready₃ => ?_
  obtain ⟨record, duplicate⟩ := a
  refine Method.runs_ite (fun _ => ?_) fun _ => C.leads_submitAdmitted inv₃ ready₃.1 true timedOut
  refine C.leads_bind inv₃ (P := fun now s' => C.Ready (IntentRecord.intent now) s')
    (C.leads_step (fun s' fate _ inv' allowed => ?_) fun s' kept _ _ s'' kept' => ?_) fun now s₄ inv₄ _ ready₄ => ?_
  · obtain ⟨after, moved, keeps⟩ := C.plain (.current i.id record) s' fate trivial inv' allowed
    exact ⟨after, moved, C.moves_of_keeps _ _ keeps⟩
  · have same := Site.current_intent i.id record s'
    exact same ▸ C.ready_keeps (C.ready_keeps ready₃.2 kept) kept'
  refine Method.runs_ite (fun _ => C.leads_submitAdmitted inv₄ ready₄ false timedOut) fun _ => ?_
  refine C.leads_plain inv₄ (sends_step (c := .current i.id record) trivial) fun now s₅ inv₅ _ => ?_
  refine Method.runs_ite (fun _ => ?_) fun _ => C.leads_pure fun _ _ => Or.inl rfl
  exact C.leads_plain inv₅ (sends_step (c := .intent (IntentRecord.intent now)) trivial) fun _ _ _ _ =>
    C.leads_pure fun _ _ => Or.inl rfl

end Course

end Xair
