import Xair.Server.Submission

/-!
# Records and their intents

At every site that requests and restarts can lead to, the record of an id refers to an
intent that a request has created, and that has this id.
-/

namespace Xair

open Library

namespace Site

/-- Every record refers to an intent of its own id. -/
def Named (s : Site) : Prop := ∀ id r, s.runtime.records.get id = some r → s.Names r.intent id

/-- Intents in use keep their ids. -/
structure Grows (s s' : Site) : Prop where
  allocated : s.allocated ≤ s'.allocated
  ids : ∀ ref, ref < s.allocated → (s'.runtime.heap ref).id = (s.runtime.heap ref).id

variable {s s' s'' : Site}

theorem Grows.refl (s : Site) : s.Grows s := ⟨Nat.le_refl _, fun _ _ => rfl⟩

theorem Grows.trans (first : s.Grows s') (second : s'.Grows s'') : s.Grows s'' :=
  ⟨Nat.le_trans first.allocated second.allocated,
    fun ref used => (second.ids ref (Nat.lt_of_lt_of_le used first.allocated)).trans (first.ids ref used)⟩

theorem Names.grows {ref : Ref} {id : Str} (h : s.Names ref id) (grown : s.Grows s') : s'.Names ref id :=
  ⟨Nat.lt_of_lt_of_le h.1 grown.allocated, (grown.ids ref h.1).trans h.2⟩

theorem Reported.grows {reach : Str → IntentState → Prop} (moved : s.Reported reach s') : s.Grows s' :=
  ⟨moved.allocated, moved.ids⟩

theorem Reported.named {reach : Str → IntentState → Prop} (moved : s.Reported reach s') (h : s.Named) : s'.Named := by
  intro id r' now
  rcases moved.records id with same | ⟨r, q, was, after, further⟩
  · exact (h id r' (same.symm.trans now)).grows moved.grows
  · obtain rfl := Option.some.inj (after.symm.trans now)
    rw [further.intent]
    exact (h id r was).grows moved.grows

theorem Named.process [PyText] (h : s.Named) {ref : Ref} (used : ref < s.allocated) {ticket : Nat}
    {reply : Except RuntimeError IntentRecord} (processed : s.Processed ticket ref reply s') : s'.Named ∧ s.Grows s' := by
  obtain ⟨⟨alone, _, _, intent, _⟩, _, allocated, _⟩ := processed
  have grown : s.Grows s' := ⟨Nat.le_of_eq allocated.symm, fun r _ => alone.ids r⟩
  refine ⟨fun id r' stored => ?_, grown⟩
  by_cases own : id = (s.runtime.heap ref).id
  · subst own
    rcases intent r' stored with same | ⟨r, was, same⟩
    · rw [same]
      exact Names.grows ⟨used, rfl⟩ grown
    · rw [same]
      exact (h _ r was).grows grown
  · exact (h id r' ((alone.others id own).symm.trans stored)).grows grown

variable [PyText] {cfg : SiteConfig}

variable (cfg) in
/-- An admission, with the record it answers. -/
theorem Named.admitIntent (h : s.Named) {ref : Ref} {id : Str} (names : s.Names ref id) :
    ∃ a s', Site.exec cfg (.admitIntent ref) s = (.ok a, s') ∧ s'.Named ∧ s.Grows s' ∧ s'.Names a.1.intent id := by
  have ends := ends_admitIntent cfg.config ref s.mono false s.runtime
  cases run : Xair.admitIntent cfg.config ref s.mono false s.runtime with
  | error e rt => exact (ends.of_run_error run).elim
  | ok a rt =>
    obtain ⟨admission, stored, _⟩ := ends.of_run_ok run
    have grown : s.Grows { s with runtime := rt } := ⟨Nat.le_refl _, fun r _ => by rw [admission.heap]⟩
    have named : Named { s with runtime := rt } := by
      intro id' r now
      rcases admission.records id' r now with before | ⟨rfl, rfl⟩
      · exact (h id' r before).grows grown
      · exact Names.grows ⟨names.1, rfl⟩ grown
    refine ⟨a, { s with runtime := rt }, by simp only [Site.exec, Site.runs, run]; rfl, named, grown, ?_⟩
    rw [names.2] at stored
    exact named id a.1 stored

end Site

/-! ### The discipline -/

section

variable [PyText] (cfg : SiteConfig)

def naming : Discipline (site cfg) HttpJob where
  Inv := Site.Named
  Step _ _ s s' := s.Grows s'
  Rely _ s s' := s.Grows s'
  step_refl _ _ s := Site.Grows.refl s
  rely_refl _ s := Site.Grows.refl s
  rely_trans _ _ _ _ first second := first.trans second
  rely_of_step _ _ _ _ _ _ step := step

variable {cfg} {t : Nat} {job : HttpJob} {ticket : Nat} {s : Site} {α β : Type}

variable (cfg) in
theorem keeps_naming (c : SiteCommand) (s : Site) (_ : Fate) (routine : c.Routine) (inv : s.Named) (_ : True) :
    (Site.exec cfg c s).2.Named ∧ s.Grows (Site.exec cfg c s).2 :=
  have moved : s.Reported _ (Site.exec cfg c s).2 := Site.reported_exec routine s
  ⟨moved.named inv, moved.grows⟩

/-- What is known along a submission of `id`: its intents have this id. -/
def namingCourse (cfg : SiteConfig) (t : Nat) (job : HttpJob) (ticket : Nat) (id : Str) :
    Course (naming cfg) t job (fun _ _ _ => True) ticket id where
  Moves := Site.Grows
  Keeps := Site.Grows
  Ready ref s := s.Names ref id
  Source _ _ := True
  Good _ a s := s.Names a.intent id
  moves_trans _ _ _ first second := first.trans second
  keeps_refl := Site.Grows.refl
  keeps_trans _ _ _ first second := first.trans second
  moves_of_keeps _ _ h := h
  keeps_of_rely _ _ h := h
  ready_moves _ _ _ h moved := h.grows moved
  source_moves _ _ _ _ _ := trivial
  good_keeps _ _ _ _ h moved := h.grows moved
  ready_of_good _ _ _ _ h := h
  plain c s fate plain inv _ :=
    have kept := keeps_naming cfg c s fate plain.routine inv trivial
    ⟨kept.1, kept.2, kept.2⟩
  withdrawn outcome reason s fate inv _ :=
    have kept := keeps_naming cfg _ s fate (routine_withdraw id outcome reason) inv trivial
    ⟨kept.1, kept.2, kept.2⟩
  created i s own _ _ :=
    ⟨Nat.lt_succ_self _, (congrArg ActionIntent.id ((Runtime.heap_putIntent _ _ _ _).trans (if_pos rfl))).trans own⟩
  admission ref s _ inv names _ := by
    obtain ⟨a, s', run, named, grown, _⟩ := Site.Named.admitIntent cfg inv names
    rw [run]
    exact ⟨named, grown, grown⟩
  admitted ref s a inv names _ same := by
    obtain ⟨b, s', run, _, _, its⟩ := Site.Named.admitIntent cfg inv names
    have answer : Except.ok a = Except.ok b := same.symm.trans (congrArg Prod.fst run)
    rw [run, Except.ok.inj answer]
    exact its
  registered _ _ _ _ _ _ _ := trivial
  process ref call s _ inv names _ _ := by
    obtain ⟨named, grown⟩ := Site.Named.process inv names.1 (Site.processed_process cfg ticket ref call s)
    exact ⟨named, grown, grown⟩
  processed ref call s a inv names _ _ same := by
    have processed := Site.processed_process cfg ticket ref call s
    have stored := processed.answered a same
    rw [names.2] at stored
    exact (Site.Named.process inv names.1 processed).1 id a stored
  read _ a s _ h _ := by
    rw [Site.current_intent]
    exact h

/-- The judgement for a call of a request. -/
abbrev Naming (cfg : SiteConfig) (t : Nat) (job : HttpJob) (m : Handler cfg α) (s : Site) (ok : α → Site → Prop) : Prop :=
  Method.Runs (naming cfg) t job (fun _ _ _ => True) m () s (fun a _ => ok a) fun _ _ _ => True

theorem naming_bind {m : Handler cfg β} {f : β → Handler cfg α} {P : β → Site → Prop} {ok : α → Site → Prop}
    (inv : s.Named) (h : Naming cfg t job m s P)
    (later : ∀ b (s' : Site), s'.Named → s.Grows s' → P b s' → Naming cfg t job (f b) s' ok) :
    Naming cfg t job (m >>= f) s ok :=
  Method.runs_bind_since (fun _ _ _ first second => first.trans second) (fun _ _ h => h) (fun _ _ h => h) inv h
    fun b _ s' => later b s'

theorem naming_done {m : Handler cfg α} {ok : α → Site → Prop} (h : Naming cfg t job m s ok) :
    Naming cfg t job m s fun _ _ => True :=
  h.imp (fun _ _ _ _ _ => trivial) fun _ _ _ _ _ => trivial

theorem naming_routine {m : Handler cfg α} (sends : Method.Sends SiteCommand.Routine m) :
    Naming cfg t job m s fun _ _ => True :=
  (Method.Runs.of_sends (keeps_naming cfg) sends).imp (fun _ _ _ _ h => h) fun _ _ _ _ h => h

theorem naming_plain {m : Handler cfg α} (sends : Method.Sends SiteCommand.Plain m) :
    Naming cfg t job m s fun _ _ => True :=
  naming_routine (sends.imp fun _ plain => plain.routine)

theorem naming_leads {id : Str} {m : Handler cfg α} {ok : α → Site → Prop}
    (h : (namingCourse cfg t job ticket id).Leads m s ok) : Naming cfg t job m s ok :=
  h.imp (fun _ _ _ _ ends => ends.2) fun _ _ _ _ _ => trivial

theorem naming_create (i : ActionIntent) : Naming cfg t job (step (.create i)) s fun ref s' => s'.Names ref i.id := by
  refine Method.runs_guarded (fun s' fate rely inv _ => keeps_naming cfg (.create i) s' fate trivial inv trivial)
    fun s' rely inv _ s'' rely' _ => ?_
  have names : (Site.exec cfg (.create i) s').2.Names s'.allocated i.id :=
    ⟨Nat.lt_succ_self _, congrArg ActionIntent.id ((Runtime.heap_putIntent _ _ _ _).trans (if_pos rfl))⟩
  exact names.grows rely'

/-! ### Batches -/

variable {item : Item}

omit [PyText] in
theorem Site.NamesItem.grows {s' : Site} (h : s.NamesItem item) (grown : s.Grows s') : s'.NamesItem item :=
  Site.Names.grows h grown

theorem naming_admitItem (inv : s.Named) (names : s.NamesItem item) : Naming cfg t job (admitItem item) s fun _ _ => True := by
  refine naming_bind inv (P := fun _ _ => True) (Method.runs_guarded (fun s' fate rely inv' _ => ?_) fun _ _ _ _ _ _ _ => trivial)
    fun reply _ _ _ _ => naming_routine (sends_answered reply)
  obtain ⟨a, s₁, run, named, grown, _⟩ := Site.Named.admitIntent cfg inv' (names.grows rely)
  show (Site.exec cfg (.admitIntent item.1) s').2.Named ∧ s'.Grows (Site.exec cfg (.admitIntent item.1) s').2
  rw [run]
  exact ⟨named, grown⟩

theorem naming_validateNow (inv : s.Named) (names : s.NamesItem item) (call : (Nat → Bool) → ProcessCall) {context : Option Members}
    (same : ∀ timedOut, (call timedOut).context = context) (timedOut : Nat → Nat → Bool) :
    Naming cfg t job (validateNow ticket item.1 item.2.id call timedOut) s fun _ _ => True :=
  naming_done (naming_leads ((namingCourse cfg t job ticket item.2.id).leads_validateNow inv names
    (fun _ _ => trivial) call same timedOut))

theorem naming_batchStop (inv : s.Named) (names : s.NamesItem item) (timedOut : Ref → Nat → Nat → Bool) :
    Naming cfg t job (batchStop ticket timedOut item) s fun _ _ => True := by
  refine naming_bind inv (naming_admitItem inv names) fun a s₁ inv₁ grown₁ _ => ?_
  obtain ⟨record, duplicate⟩ := a
  refine naming_bind inv₁ (naming_plain (sends_step (c := .current item.2.id record) trivial)) fun now s₂ inv₂ grown₂ _ => ?_
  refine Method.runs_ite (fun _ => ?_) fun _ => naming_plain (sends_itemResult item now)
  refine naming_bind inv₂ (naming_validateNow inv₂ ((names.grows grown₁).grows grown₂) installedCall (fun _ => rfl) _)
    fun record _ _ _ _ => ?_
  exact naming_plain (Method.sends_bind (sends_recordStop _ _ _ _) fun _ => sends_itemResult _ _)

theorem naming_batchLoser (reason : String) (inv : s.Named) (names : s.NamesItem item) :
    Naming cfg t job (batchLoser reason item) s fun _ _ => True := by
  refine naming_bind inv (naming_admitItem inv names) fun a _ _ _ _ => ?_
  obtain ⟨record, duplicate⟩ := a
  refine Method.runs_ite (fun _ => naming_plain (sends_itemResult item record)) fun _ => ?_
  exact naming_routine (Method.sends_bind (sends_withdraw _ _) fun _ =>
    (sends_itemResult _ _).imp fun _ plain => plain.routine)

theorem naming_batchWinner (inv : s.Named) (names : s.NamesItem item) (timedOut : Ref → Nat → Nat → Bool) :
    Naming cfg t job (batchWinner ticket timedOut item) s fun _ _ => True := by
  refine naming_bind inv (naming_admitItem inv names) fun a s₁ inv₁ grown₁ _ => ?_
  obtain ⟨record, duplicate⟩ := a
  refine Method.runs_ite (fun _ => naming_plain (sends_itemResult item record)) fun _ => ?_
  refine naming_bind inv₁ (naming_plain (sends_fenceIntent ticket item.1)) fun _ s₂ inv₂ grown₂ _ => ?_
  refine naming_bind inv₂ (naming_plain sends_readSnapshot) fun read s₃ inv₃ grown₃ _ => ?_
  refine naming_bind inv₃ (naming_validateNow inv₃ (((names.grows grown₁).grows grown₂).grows grown₃) (contextCall read.1)
    (fun _ => rfl) _) fun record _ _ _ _ => ?_
  refine naming_plain (Method.sends_bind (sends_step (c := .current item.2.id record) trivial) fun now => ?_)
  exact Method.sends_ite (Method.sends_bind (sends_step (c := .releaseTarget now) trivial) fun _ => sends_itemResult _ _)
    (sends_itemResult _ _)

/-- A sorted item refers to its intent. -/
def Site.SortedNames (s : Site) (sorted : Sorted) : Prop :=
  ∀ item, sorted.stopItem = some item ∨ sorted.otherItem = some item → s.NamesItem item

theorem naming_sortItem (inv : s.Named) (trusted : Bool) (body : Except BatchResult ActionIntent) :
    Naming cfg t job (sortItem trusted body) s fun sorted s' => s'.SortedNames sorted := by
  cases body with
  | error result => exact Method.runs_pure fun _ _ _ _ none => by rcases none with none | none <;> cases none
  | ok i =>
    refine naming_bind inv (naming_create _) fun ref s₁ inv₁ _ names => ?_
    refine naming_bind inv₁ (naming_plain (sends_step (c := .actionClass ref) trivial)) fun cls s₂ _ grown₂ _ => ?_
    have named : ∀ {s₃ : Site}, s₂.Grows s₃ → s₃.NamesItem (ref, i) := fun grown₃ => (names.grows grown₂).grows grown₃
    refine Method.runs_ite (fun _ => ?_) fun _ => Method.runs_ite (fun _ => ?_) fun _ => ?_
    · refine Method.runs_pure fun s₃ grown₃ _ item its => ?_
      rcases its with same | none
      · exact Option.some.inj same ▸ named grown₃
      · cases none
    · refine Method.runs_pure fun s₃ grown₃ _ item its => ?_
      rcases its with none | same
      · cases none
      · exact Option.some.inj same ▸ named grown₃
    · exact Method.runs_pure fun _ _ _ _ none => by rcases none with none | none <;> cases none

/-- What is done for every item of a part of the batch. -/
theorem naming_items {f : Item → Handler cfg β} (items : List Item)
    (item : ∀ (s : Site) item, s.Named → s.NamesItem item → Naming cfg t job (f item) s fun _ _ => True) (inv : s.Named)
    (names : ∀ item ∈ items, s.NamesItem item) : Naming cfg t job (each f items) s fun _ _ => True :=
  naming_done (runs_each (R := Site.Grows) (K := Site.NamesItem) (Q := fun _ _ => True) (fun _ _ _ first second => first.trans second) (fun _ _ h => h)
    (fun _ _ h => h) (fun _ _ _ moved h => Site.NamesItem.grows h moved) (fun _ _ _ _ h => h) item items inv names)

theorem naming_submitIntentBatch (inv : s.Named) (bodies : List (Except BatchResult ActionIntent)) (timedOut : Ref → Nat → Nat → Bool) :
    Naming cfg t job (submitIntentBatch ticket bodies timedOut) s fun _ _ => True := by
  refine naming_bind inv (naming_plain sends_readSnapshot) fun read s₁ inv₁ _ _ => ?_
  obtain ⟨_, trusted⟩ := read
  refine naming_bind inv₁ (runs_each (R := Site.Grows) (K := fun _ _ => True) (Q := Site.SortedNames)
    (fun _ _ _ first second => first.trans second) (fun _ _ h => h) (fun _ _ h => h) (fun _ _ _ _ h => h)
    (fun _ _ _ moved h item its => (h item its).grows moved) (fun s body inv _ => naming_sortItem inv trusted body) bodies inv₁
    fun _ _ => trivial) fun sorted s₂ inv₂ _ sorts => ?_
  have stops : ∀ item ∈ sorted.filterMap Sorted.stopItem, s₂.NamesItem item := by
    intro item member
    obtain ⟨place, there, its⟩ := List.mem_filterMap.mp member
    exact sorts place there item (Or.inl its)
  have others : ∀ item ∈ sorted.filterMap Sorted.otherItem, s₂.NamesItem item := by
    intro item member
    obtain ⟨place, there, its⟩ := List.mem_filterMap.mp member
    exact sorts place there item (Or.inr its)
  generalize sorted.filterMap Sorted.stopItem = stopped at stops
  generalize sorted.filterMap Sorted.otherItem = intents at others
  refine naming_bind inv₂ (naming_items stopped (fun s item inv names => naming_batchStop inv names timedOut) inv₂ stops)
    fun _ s₃ inv₃ grown₃ _ => ?_
  have others₃ : ∀ item ∈ intents, s₃.NamesItem item := fun item member => (others item member).grows grown₃
  refine naming_bind inv₃ (naming_items _ (fun s item inv names => naming_batchLoser _ inv names) inv₃ fun item member =>
    others₃ item (List.mem_of_mem_filter member)) fun _ s₄ inv₄ grown₄ _ => ?_
  refine naming_bind inv₄ (naming_items _ (fun s item inv names => naming_batchLoser _ inv names) inv₄ fun item member => ?_)
    fun _ s₅ inv₅ grown₅ _ => ?_
  · obtain ⟨group, there, its⟩ := List.mem_flatMap.mp member
    obtain ⟨target, _, rfl⟩ := List.mem_map.mp there
    have inside := List.mem_of_mem_filter (List.mem_of_mem_filter (mem_resolveItems (Or.inl its)))
    exact (others₃ item inside).grows grown₄
  · refine naming_bind inv₅ (naming_items _ (fun s item inv names => naming_batchWinner inv names timedOut) inv₅ fun item member => ?_)
      fun _ _ _ _ _ => Method.runs_pure fun _ _ _ => trivial
    obtain ⟨group, there, its⟩ := List.mem_filterMap.mp member
    obtain ⟨target, _, rfl⟩ := List.mem_map.mp there
    have inside := List.mem_of_mem_filter (List.mem_of_mem_filter (mem_resolveItems (Or.inr its)))
    exact ((others₃ item inside).grows grown₄).grows grown₅

/-! ### Every run -/

theorem naming_handle (inv : s.Named) : Naming cfg t job (job.request.handle cfg t) s fun _ _ => True := by
  obtain ⟨life, request⟩ := job
  by_cases submits : request.Submits
  · cases request with
    | submit body timedOut =>
      refine naming_bind inv (P := fun _ _ => True) ?_ fun _ _ _ _ _ => Method.runs_pure fun _ _ _ => trivial
      cases body with
      | none => exact naming_plain (Method.sends_bind sends_readSnapshot fun _ => Method.sends_pure _)
      | some i => exact naming_done (naming_leads ((namingCourse cfg t _ t i.id).leads_submitIntent inv rfl timedOut))
    | batch bodies timedOut =>
      exact naming_bind inv (naming_submitIntentBatch inv bodies timedOut) fun _ _ _ _ _ => Method.runs_pure fun _ _ _ => trivial
    | _ => exact submits.elim
  · exact naming_routine (Request.sends_handle t submits)

def namingContract (cfg : SiteConfig) : Contract (site cfg) (endpoints cfg) (naming cfg) where
  Starts _ := True
  May _ _ _ _ _ := True
  LocalOk _ _ := True
  Fresh _ _ := True
  Since _ _ _ := True
  Post _ _ _ _ := True
  local_rely _ _ _ _ _ _ _ _ := trivial
  fresh_rely _ _ _ _ _ := trivial
  since_fresh _ _ _ _ := trivial
  since_step _ _ _ _ _ _ := trivial
  since_rely _ _ _ _ _ _ := trivial
  env_inv change s inv := by
    cases change with
    | tick clock mono => exact inv
    | restart context policy => exact fun _ _ stored => nomatch stored
  env_rely change _ s _ := by
    cases change with
    | tick clock mono => exact ⟨Nat.le_refl _, fun _ _ => rfl⟩
    | restart context policy => exact ⟨Nat.le_refl _, fun _ _ => rfl⟩

/-- A site that requests, restarts and the clocks can lead to. -/
def Reached (cfg : SiteConfig) (s : Site) : Prop :=
  ∃ heap context policy cell, ∃ events : List (PoolEvent (site cfg) (endpoints cfg)),
    (Pool.run (Pool.init (Site.init heap context policy cell) fun _ => ()) events).shared = s

/-- At every site that can be reached, records refer to intents of their own ids. -/
theorem Reached.named (reached : Reached cfg s) : s.Named := by
  obtain ⟨heap, context, policy, cell, events, rfl⟩ := reached
  have start : Pool.Sound (namingContract cfg) (Pool.init (Site.init heap context policy cell) fun _ => ()) :=
    Pool.sound_init (fun _ _ stored => nomatch stored) (fun _ => trivial) fun _ => trivial
  refine (start.run (fun t job l s _ inv _ _ => ?_) (Pool.along_of_forall fun e _ _ => ?_)).inv
  · exact Safe.imp (naming_handle (t := t) inv) fun _ _ _ _ => ⟨trivial, trivial⟩
  · cases e with
    | step pid fate => exact fun _ _ _ _ _ => trivial
    | _ => trivial

end

end Xair
