import Mathlib.Tactic.Linarith
import Xair.Library.Solo
import Xair.Server.Routine

/-!
# Batches

What `POST /v1/intents/batch` leaves behind when no other request comes in between: a
result for every item, a verdict for every record it writes, and the target locks as
they were.
-/

namespace Xair

open Library

/-- What may change while no request of this process takes a step. -/
structure Site.Elsewhere (s s' : Site) : Prop where
  runtime : s'.runtime = s.runtime
  allocated : s'.allocated = s.allocated
  mono : s.mono ≤ s'.mono

theorem Site.Elsewhere.refl (s : Site) : s.Elsewhere s := ⟨rfl, rfl, Rat.le_refl⟩

theorem Site.Elsewhere.trans {s s' s'' : Site} (h : s.Elsewhere s') (h' : s'.Elsewhere s'') : s.Elsewhere s'' :=
  ⟨h'.runtime.trans h.runtime, h'.allocated.trans h.allocated, Rat.le_trans h.mono h'.mono⟩

/-- The process has gone on, and has created nothing. -/
structure Site.Since (s s' : Site) : Prop where
  allocated : s'.allocated = s.allocated
  mono : s.mono ≤ s'.mono

theorem Site.Since.trans {s s' s'' : Site} (h : s.Since s') (h' : s'.Since s'') : s.Since s'' :=
  ⟨h'.allocated.trans h.allocated, Rat.le_trans h.mono h'.mono⟩

theorem Site.Elsewhere.since {s s' : Site} (h : s.Elsewhere s') : s.Since s' := ⟨h.allocated, h.mono⟩

/-- Records, locks and policy stay, and so does what every intent is about. -/
structure Runtime.Calm (rt rt' : Runtime) : Prop where
  records : rt'.records = rt.records
  seen : rt'.seen = rt.seen
  locks : rt'.activeTargets = rt.activeTargets
  policy : rt'.policy = rt.policy
  ids : ∀ r, (rt'.heap r).id = (rt.heap r).id
  targets : ∀ r, (rt'.heap r).target = (rt.heap r).target
  actions : ∀ r, (rt'.heap r).payload.actionType = (rt.heap r).payload.actionType

theorem Runtime.Calm.refl (rt : Runtime) : rt.Calm rt := ⟨rfl, rfl, rfl, rfl, fun _ => rfl, fun _ => rfl, fun _ => rfl⟩

theorem Runtime.Calm.trans {rt rt' rt'' : Runtime} (h : rt.Calm rt') (h' : rt'.Calm rt'') : rt.Calm rt'' :=
  ⟨h'.records.trans h.records, h'.seen.trans h.seen, h'.locks.trans h.locks, h'.policy.trans h.policy,
    fun r => (h'.ids r).trans (h.ids r), fun r => (h'.targets r).trans (h.targets r),
    fun r => (h'.actions r).trans (h.actions r)⟩

theorem Runtime.calm_putIntent (rt : Runtime) {ref : Ref} {i : ActionIntent} (id : i.id = (rt.heap ref).id)
    (payload : i.payload = (rt.heap ref).payload) : rt.Calm (rt.putIntent ref i) := by
  refine ⟨rfl, rfl, rfl, rfl, fun r => ?_, fun r => ?_, fun r => ?_⟩ <;> rw [Runtime.heap_putIntent] <;> split
  · rename_i here
    rw [here, id]
  · rfl
  · rename_i here
    rw [here, ActionIntent.target, payload]
  · rfl
  · rename_i here
    rw [here, payload]
  · rfl

section

variable [PyText] {cfg : SiteConfig} {α β : Type}

/-- The handler runs without interleaved requests, and returns. -/
def Completes (m : Handler cfg α) (s : Site) (a : α) (s' : Site) : Prop := Method.Returns Site.Elsewhere m () s a () s'

theorem completes_pure {a b : α} {s s' : Site} (run : Completes (pure b : Handler cfg α) s a s') : a = b ∧ s.Elsewhere s' := by
  obtain ⟨same, _, moved⟩ := Method.of_returns_pure run
  exact ⟨same, moved⟩

theorem completes_bind {m : Handler cfg β} {f : β → Handler cfg α} {s s' : Site} {a : α} (run : Completes (m >>= f) s a s') :
    ∃ b s₁, Completes m s b s₁ ∧ Completes (f b) s₁ a s' := by
  obtain ⟨b, _, s₁, first, later⟩ := Method.of_returns_bind Site.Elsewhere.refl run
  exact ⟨b, s₁, first, later⟩

theorem completes_step {c : SiteCommand} {s s' : Site} {reply : c.Reply} (run : Completes (step c : Handler cfg c.Reply) s reply s') :
    ∃ s₁, s.Elsewhere s₁ ∧ reply = (Site.exec cfg c s₁).1 ∧ (Site.exec cfg c s₁).2.Elsewhere s' := by
  obtain ⟨s₁, before, answer, _, after⟩ := Method.of_returns_command run
  exact ⟨s₁, before, answer, after⟩

theorem completes_answered {reply : Except RuntimeError α} {a : α} {s s' : Site}
    (run : Completes (answered reply : Handler cfg α) s a s') : reply = .ok a ∧ s.Elsewhere s' := by
  cases reply with
  | ok b =>
    obtain ⟨rfl, moved⟩ := completes_pure run
    exact ⟨rfl, moved⟩
  | error e => exact absurd run Method.not_returns_throw

/-! ### Methods of the runtime -/

omit [PyText] in
/-- A method of the runtime between changes elsewhere. -/
theorem Site.Elsewhere.runs {m : RuntimeM α} {s s₁ s' : Site} {a : α} (before : s.Elsewhere s₁)
    (done : (Site.runs m s₁).1 = .ok a) (after : (Site.runs m s₁).2.Elsewhere s') :
    m.run s.runtime = .ok a s'.runtime ∧ s.Since s' := by
  rw [Site.runs, before.runtime] at done after
  cases run : m s.runtime with
  | ok b rt =>
    simp only [run] at done after
    obtain rfl := Except.ok.inj done
    exact ⟨by rw [after.runtime]; exact run, after.allocated.trans before.allocated, Rat.le_trans before.mono after.mono⟩
  | error e rt =>
    simp only [run] at done
    cases done

theorem completes_withdraw {id : Str} {reason : String} {record : IntentRecord} {s s' : Site}
    (run : Completes (withdraw id reason : Handler cfg IntentRecord) s record s') :
    (transition id .revoked (some .revoke) reason.toList).run s.runtime = .ok record s'.runtime ∧ s.Since s' := by
  obtain ⟨reply, s₁, sent, rest⟩ := completes_bind run
  obtain ⟨s₂, before, rfl, between⟩ := completes_step sent
  obtain ⟨done, after⟩ := completes_answered rest
  exact before.runs done (between.trans after)

theorem completes_admitItem {item : Item} {a : IntentRecord × Bool} {s s' : Site}
    (run : Completes (admitItem item : Handler cfg (IntentRecord × Bool)) s a s') :
    ∃ mono, s.mono ≤ mono ∧ mono ≤ s'.mono ∧ (admitIntent cfg.config item.1 mono false).run s.runtime = .ok a s'.runtime ∧
      s.Since s' := by
  obtain ⟨reply, s₁, sent, rest⟩ := completes_bind run
  obtain ⟨s₂, before, rfl, between⟩ := completes_step sent
  obtain ⟨done, after⟩ := completes_answered rest
  have moved := between.trans after
  have later : s₂.mono ≤ s'.mono := (Site.Elsewhere.runs (Site.Elsewhere.refl s₂) done moved).2.mono
  exact ⟨s₂.mono, before.mono, later, before.runs done moved⟩

theorem completes_processNow {ticket : Nat} {ref : Ref} {call : ProcessCall} {record : IntentRecord} {s s' : Site}
    (run : Completes (processNow ticket ref call : Handler cfg IntentRecord) s record s') :
    ∃ call', (processIntent cfg.config call' ref).run s.runtime = .ok record s'.runtime ∧ s.Since s' := by
  obtain ⟨reply, s₁, sent, rest⟩ := completes_bind run
  obtain ⟨s₂, before, rfl, between⟩ := completes_step sent
  obtain ⟨done, after⟩ := completes_answered rest
  have moved := between.trans after
  refine ⟨{ call with now := s₂.clock, requeue := false }, before.runs done ?_⟩
  exact ⟨moved.runtime, moved.allocated, moved.mono⟩

theorem completes_current {id : Str} {held record : IntentRecord} {s s' : Site}
    (run : Completes (step (.current id held) : Handler cfg IntentRecord) s record s') :
    record = s.current id held ∧ s.Elsewhere s' := by
  obtain ⟨s₁, before, rfl, after⟩ := completes_step run
  have same : s₁.current id held = s.current id held := by rw [Site.current, Site.current, before.runtime]
  exact ⟨same, before.trans after⟩

/-! ### Steps aside -/

theorem calm_exec {c : SiteCommand} (aside : c.Aside) (s : Site) :
    s.runtime.Calm (Site.exec cfg c s).2.runtime ∧ s.Since (Site.exec cfg c s).2 := by
  cases c with
  | setPreconditions ref preconditions => exact ⟨s.runtime.calm_putIntent rfl rfl, rfl, Rat.le_refl⟩
  | prepare ref =>
    exact ⟨s.runtime.calm_putIntent (Policy.applyTo_id _ _) (Policy.applyTo_payload _ _), rfl, Rat.le_refl⟩
  | install snapshot =>
    refine ⟨?_, rfl, Rat.le_refl⟩
    simp only [Site.exec, installContextSnapshot]
    split
    · exact .refl _
    · exact ⟨rfl, rfl, rfl, rfl, fun _ => rfl, fun _ => rfl, fun _ => rfl⟩
  | registerAndSnapshot exprs =>
    simp only [Site.exec]
    split
    · exact ⟨.refl _, rfl, Rat.le_refl⟩
    · exact ⟨.refl _, rfl, Rat.le_refl⟩
  | update patch =>
    simp only [Site.exec]
    split
    · exact ⟨.refl _, rfl, Rat.le_refl⟩
    · exact ⟨.refl _, rfl, Rat.le_refl⟩
  | claimIntent id =>
    simp only [Site.exec, Site.claimIntent]
    split
    · split
      · split
        · exact ⟨.refl _, rfl, Rat.le_refl⟩
        · exact ⟨.refl _, rfl, Rat.le_refl⟩
      · exact ⟨.refl _, rfl, Rat.le_refl⟩
    · exact ⟨.refl _, rfl, Rat.le_refl⟩
  | _ => first | exact ⟨.refl _, rfl, Rat.le_refl⟩ | exact aside.elim

theorem calm_of_aside {m : Handler cfg α} (sends : Method.Sends SiteCommand.Aside m) {s s' : Site} {a : α}
    (run : Completes m s a s') : s.runtime.Calm s'.runtime ∧ s.Since s' := by
  refine Method.Returns.along (R := fun (s s' : Site) => s.runtime.Calm s'.runtime ∧ s.Since s') (fun s => ⟨.refl _, rfl, Rat.le_refl⟩)
    (fun _ _ _ h h' => ⟨h.1.trans h'.1, h.2.trans h'.2⟩) (fun s s' moved => ⟨?_, moved.since⟩) (fun c s aside => calm_exec aside s)
    sends run
  rw [moved.runtime]
  exact .refl _

end

/-! ### What an item may do -/

/-- Only the record of this id may differ, and the locks. -/
structure Runtime.Only (id : Str) (rt rt' : Runtime) : Prop where
  others : ∀ other, other ≠ id → rt'.records.get other = rt.records.get other
  seen : rt'.seen = rt.seen
  policy : rt'.policy = rt.policy
  ids : ∀ r, (rt'.heap r).id = (rt.heap r).id
  targets : ∀ r, (rt'.heap r).target = (rt.heap r).target
  actions : ∀ r, (rt'.heap r).payload.actionType = (rt.heap r).payload.actionType

namespace Runtime

variable {id : Str} {rt rt' rt'' : Runtime}

theorem Only.trans (h : rt.Only id rt') (h' : rt'.Only id rt'') : rt.Only id rt'' :=
  ⟨fun other ne => (h'.others other ne).trans (h.others other ne), h'.seen.trans h.seen, h'.policy.trans h.policy,
    fun r => (h'.ids r).trans (h.ids r), fun r => (h'.targets r).trans (h.targets r),
    fun r => (h'.actions r).trans (h.actions r)⟩

theorem Calm.only (h : rt.Calm rt') (id : Str) : rt.Only id rt' :=
  ⟨fun _ _ => by rw [h.records], h.seen, h.policy, h.ids, h.targets, h.actions⟩

/-- The intent of the item is the one at its reference, as far as no request changes it. -/
structure Knows (rt : Runtime) (item : Item) : Prop where
  id : (rt.heap item.1).id = item.2.id
  target : (rt.heap item.1).target = item.2.target
  action : (rt.heap item.1).payload.actionType = item.2.payload.actionType

theorem Knows.only {item : Item} (h : rt.Knows item) (only : rt.Only id rt') : rt'.Knows item :=
  ⟨(only.ids _).trans h.id, (only.targets _).trans h.target, (only.actions _).trans h.action⟩

theorem Knows.actionClass [PyText] {item : Item} (h : rt.Knows item) (policy : Policy) :
    policy.actionClass (rt.heap item.1) = policy.actionClass item.2 := by
  rw [Policy.actionClass, Policy.actionClass, actionKey, actionKey, h.action]

end Runtime

theorem Local.only {id : Str} {rt rt' : Runtime} (h : Local id rt rt') : rt.Only id rt' :=
  ⟨h.others, h.seen, h.policy, h.ids, h.targets, h.actions⟩

/-- What handling these items does: it writes records of theirs only, with such states, and locks nothing for good. -/
structure Handles (cfg : SiteConfig) (verdict : Item → IntentState → Prop) (items : List Item) (s s' : Site) : Prop where
  since : s.Since s'
  policy : s'.runtime.policy = s.runtime.policy
  knows : ∀ item, s.runtime.Knows item → s'.runtime.Knows item
  locks : ∀ t, t ∈ s'.runtime.activeTargets ↔ t ∈ s.runtime.activeTargets
  written : ∀ id record, s'.runtime.records.get id = some record → s.runtime.records.get id = some record ∨
    ∃ item ∈ items, item.2.id = id ∧ record.intent = item.1 ∧ verdict item record.state
  kept : ∀ id record, s.runtime.records.get id = some record → record.state.settled = false →
    (∀ item ∈ items, item.2.id ≠ id) → s'.runtime.records.get id = some record
  /-- What is remembered for long enough stays authorized. -/
  young : ∀ id time record, s.runtime.seen.get id = some time → s'.mono - cfg.config.idempotencyRetentionS ≤ time →
    s.runtime.records.get id = some record → record.state = .authorized →
      s'.runtime.seen.get id = some time ∧ s'.runtime.records.get id = some record
  unknown : ∀ id, ¬s.runtime.Remembers id → (∀ item ∈ items, item.2.id ≠ id) → ¬s'.runtime.Remembers id

namespace Handles

variable {cfg : SiteConfig} {verdict : Item → IntentState → Prop} {items more : List Item} {s s' s'' : Site}

theorem imp {verdict' : Item → IntentState → Prop} (h : Handles cfg verdict items s s')
    (weaker : ∀ item ∈ items, ∀ state, verdict item state → verdict' item state) : Handles cfg verdict' items s s' := by
  obtain ⟨since, policy, knows, locks, written, kept, young, unknown⟩ := h
  refine ⟨since, policy, knows, locks, fun id record stored => ?_, kept, young, unknown⟩
  refine (written id record stored).imp_right ?_
  rintro ⟨item, member, own, intent, state⟩
  exact ⟨item, member, own, intent, weaker item member _ state⟩

theorem append (h : Handles cfg verdict items s s') (h' : Handles cfg verdict more s' s'') :
    Handles cfg verdict (items ++ more) s s'' := by
  refine ⟨h.since.trans h'.since, h'.policy.trans h.policy, fun item known => h'.knows item (h.knows item known),
    fun t => (h'.locks t).trans (h.locks t), fun id record stored => ?_, fun id record stored unsettled others => ?_,
    fun id time record seen recent stored state => ?_, fun id unseen others => ?_⟩
  · rcases h'.written id record stored with before | ⟨item, member, written⟩
    · rcases h.written id record before with first | ⟨item, member, written⟩
      · exact Or.inl first
      · exact Or.inr ⟨item, List.mem_append_left _ member, written⟩
    · exact Or.inr ⟨item, List.mem_append_right _ member, written⟩
  · refine h'.kept id record (h.kept id record stored unsettled fun item member => ?_) unsettled fun item member => ?_
    · exact others item (List.mem_append_left _ member)
    · exact others item (List.mem_append_right _ member)
  · have earlier : s'.mono - cfg.config.idempotencyRetentionS ≤ time := by
      have later := h'.since.mono
      linarith
    obtain ⟨seen, stored⟩ := h.young id time record seen earlier stored state
    exact h'.young id time record seen recent stored state
  · refine h'.unknown id (h.unknown id unseen fun item member => ?_) fun item member => ?_
    · exact others item (List.mem_append_left _ member)
    · exact others item (List.mem_append_right _ member)

/-- Nothing is handled while requests of this process do not touch their records. -/
theorem of_calm (calm : s.runtime.Calm s'.runtime) (since : s.Since s') : Handles cfg verdict [] s s' := by
  refine ⟨since, calm.policy, fun item known => known.only (calm.only []), fun t => by rw [calm.locks],
    fun id record stored => Or.inl (by rw [← calm.records]; exact stored), fun id record stored _ _ => by rw [calm.records]; exact stored,
    fun id time record seen _ stored _ => by rw [calm.seen, calm.records]; exact ⟨seen, stored⟩, fun id unseen _ => ?_⟩
  rw [Runtime.Remembers, calm.seen, calm.records]
  exact unseen

end Handles

section

variable [PyText] {cfg : SiteConfig} {verdict : Item → IntentState → Prop} {item : Item}

/-- An item is admitted; what follows touches no record but its own, and that one only if it is new. -/
theorem handles_of_admitted {a : IntentRecord × Bool} {s s₁ s' : Site} (knows : s.runtime.Knows item)
    (admitted : Completes (admitItem item : Handler cfg (IntentRecord × Bool)) s a s₁)
    (only : s₁.runtime.Only item.2.id s'.runtime) (since : s₁.Since s')
    (locks : ∀ t, t ∈ s'.runtime.activeTargets ↔ t ∈ s₁.runtime.activeTargets)
    (own : s'.runtime.records.get item.2.id = some a.1 ∧ a.2 = true ∨ a.1.state = .created ∧
      ∀ record, s'.runtime.records.get item.2.id = some record → record.intent = item.1 ∧ verdict item record.state) :
    Handles cfg verdict [item] s s' := by
  obtain ⟨mono, _, within, run, first⟩ := completes_admitItem admitted
  obtain ⟨admission, stored, isNew, isOld⟩ := (ends_admitIntent cfg.config item.1 mono false s.runtime).of_run_ok run
  obtain ⟨young, unknown, _, _⟩ := (ends_admitIntent_seen cfg.config item.1 mono s.runtime).of_run_ok run
  rw [knows.id] at stored isOld unknown
  have others : ∀ {id : Str}, (∀ other ∈ [item], other.2.id ≠ id) → id ≠ item.2.id := fun others =>
    (others item List.mem_cons_self).symm
  have same : ∀ {id : Str}, id ≠ item.2.id → s'.runtime.records.get id = s₁.runtime.records.get id := fun ne => only.others _ ne
  refine ⟨first.trans since, only.policy.trans admission.policy, fun other known => ?_, fun t => ?_, fun id record now => ?_,
    fun id record before unsettled apart => ?_, fun id time record seen recent before state => ?_, fun id unseen apart => ?_⟩
  · refine Runtime.Knows.only ⟨?_, ?_, ?_⟩ only <;> rw [admission.heap]
    · exact known.id
    · exact known.target
    · exact known.action
  · rw [locks t, admission.locks]
  · by_cases here : id = item.2.id
    · subst here
      rcases own with ⟨kept, duplicate⟩ | ⟨_, written⟩
      · rw [kept] at now
        exact Or.inl (Option.some.inj now ▸ isOld duplicate)
      · exact Or.inr ⟨item, List.mem_cons_self, rfl, written record now⟩
    · rw [same here] at now
      rcases admission.records id record now with before | ⟨its, _⟩
      · exact Or.inl before
      · exact absurd (its.trans knows.id) here
  · rw [same (others apart)]
    rcases admission.kept id record before with kept | settled | fresh
    · exact kept
    · rw [unsettled] at settled
      cases settled
    · rcases admission.records id _ fresh with was | ⟨its, _⟩
      · rw [before] at was
        exact was ▸ fresh
      · exact absurd (its.trans knows.id) (others apart)
  · have earlier : mono - cfg.config.idempotencyRetentionS ≤ time := by
      have later := since.mono
      linarith
    obtain ⟨seen, stored'⟩ := young id time record seen earlier before
    refine ⟨by rw [only.seen]; exact seen, ?_⟩
    by_cases here : id = item.2.id
    · subst here
      obtain rfl := Option.some.inj (stored'.symm.trans stored)
      rcases own with ⟨kept, _⟩ | ⟨created, _⟩
      · exact kept
      · rw [state] at created
        cases created
    · rw [same here]
      exact stored'
  · rintro ⟨seen, record, now⟩
    rw [only.seen] at seen
    rw [same (others apart)] at now
    exact unknown id (others apart) unseen ⟨seen, record, now⟩

theorem completes_itemResult {record : IntentRecord} {r : BatchResult} {s s' : Site}
    (run : Completes (itemResult item record : Handler cfg BatchResult) s r s') : r.id = item.2.id ∧ s.Elsewhere s' := by
  obtain ⟨now, s₁, read, rest⟩ := completes_bind run
  obtain ⟨_, before⟩ := completes_current read
  obtain ⟨rfl, after⟩ := completes_pure rest
  exact ⟨rfl, before.trans after⟩

omit [PyText] in
theorem Site.Elsewhere.calm {s s' : Site} (h : s.Elsewhere s') : s.runtime.Calm s'.runtime := by
  rw [h.runtime]
  exact .refl _

/-- What is known of an item after its admission. -/
structure ItemAdmitted (item : Item) (s : Site) (a : IntentRecord × Bool) (s' : Site) : Prop where
  stored : s'.runtime.records.get item.2.id = some a.1
  isNew : a.2 = false → a.1 = .fresh item.1
  isOld : a.2 = true → s.runtime.records.get item.2.id = some a.1
  knows : s'.runtime.Knows item
  policy : s'.runtime.policy = s.runtime.policy

theorem admitted_admitItem {a : IntentRecord × Bool} {s s' : Site} (knows : s.runtime.Knows item)
    (run : Completes (admitItem item : Handler cfg (IntentRecord × Bool)) s a s') : ItemAdmitted item s a s' := by
  obtain ⟨mono, _, _, run, _⟩ := completes_admitItem run
  obtain ⟨admission, stored, isNew, isOld⟩ := (ends_admitIntent cfg.config item.1 mono false s.runtime).of_run_ok run
  rw [knows.id] at stored isOld
  refine ⟨stored, isNew, isOld, ?_, admission.policy⟩
  obtain ⟨id, target, action⟩ := knows
  constructor <;> rw [admission.heap]
  · exact id
  · exact target
  · exact action

/-- A loser is withdrawn, unless it is a duplicate. -/
theorem handles_batchLoser {reason : String} {r : BatchResult} {s s' : Site} (knows : s.runtime.Knows item)
    (run : Completes (batchLoser reason item : Handler cfg BatchResult) s r s') :
    Handles cfg (fun _ state => state = .revoked) [item] s s' ∧ r.id = item.2.id := by
  obtain ⟨a, s₁, admitted, rest⟩ := completes_bind run
  have known := admitted_admitItem knows admitted
  obtain ⟨held, duplicate⟩ := a
  simp only at rest
  split at rest
  · rename_i old
    obtain ⟨answer, moved⟩ := completes_itemResult rest
    refine ⟨handles_of_admitted knows admitted (moved.calm.only _) moved.since (fun t => by rw [moved.runtime]) (Or.inl ⟨?_, old⟩), answer⟩
    rw [moved.runtime]
    exact known.stored
  · rename_i fresh
    obtain rfl : held = .fresh item.1 := known.isNew (Bool.eq_false_iff.mpr fresh)
    obtain ⟨record, s₂, withdrawn, rest⟩ := completes_bind rest
    obtain ⟨answer, moved⟩ := completes_itemResult rest
    obtain ⟨run, since⟩ := completes_withdraw withdrawn
    obtain ⟨stored, alone, locks⟩ := ((ends_transition known.stored (show IntentState.revoked ∈ IntentState.created.allowed by decide)).mpr
      ⟨Dict.get_insert_self _ _ _, (Local.refl item.2.id s₁.runtime).move _ _ _ _, rfl⟩ :
      Ends (transition item.2.id .revoked (some .revoke) reason.toList) s₁.runtime
        (fun a rt => rt.records.get item.2.id = some (Runtime.movedRecord (.fresh item.1) .revoked (some .revoke) reason.toList) ∧
          Local item.2.id s₁.runtime rt ∧ rt.activeTargets = s₁.runtime.activeTargets) fun _ _ => False).of_run_ok run
    refine ⟨handles_of_admitted knows admitted (alone.only.trans (moved.calm.only _)) (since.trans moved.since)
      (fun t => by rw [moved.runtime, locks]) (Or.inr ⟨rfl, fun record' now => ?_⟩), answer⟩
    rw [moved.runtime, stored] at now
    obtain rfl := Option.some.inj now
    exact ⟨rfl, rfl⟩

/-! ### Validation -/

/-- Passes over an item on a record of its own: it is authorized with the lock of its target, or no lock has changed. -/
structure ItemPassed (item : Item) (s : Site) (a : IntentRecord) (s' : Site) : Prop where
  only : s.runtime.Only item.2.id s'.runtime
  since : s.Since s'
  stored : s'.runtime.records.get item.2.id = some a
  intent : a.intent = item.1
  locks : a.state = .authorized ∧ item.2.target ∉ s.runtime.activeTargets ∧
      s'.runtime.activeTargets = (s.runtime.acquire item.2.target).activeTargets ∨
    a.state ≠ .authorized ∧ s'.runtime.activeTargets = s.runtime.activeTargets

theorem passed_processNow {ticket : Nat} {call : ProcessCall} {record a : IntentRecord} {s s' : Site} (knows : s.runtime.Knows item)
    (stored : s.runtime.records.get item.2.id = some record) (own : record.intent = item.1)
    (opened : record.state.validatable = true) (notStop : s.runtime.policy.actionClass item.2 ≠ .stop)
    (run : Completes (processNow ticket item.1 call : Handler cfg IntentRecord) s a s') : ItemPassed item s a s' := by
  obtain ⟨call', run, since⟩ := completes_processNow run
  obtain ⟨attempt, now⟩ := (attempt_processIntent cfg.config call' s.runtime item.1).of_run_ok run
  obtain ⟨alone, verdict⟩ := (ends_processIntent cfg.config call' s.runtime item.1).of_run_ok run
  have intent := attempt.intent a now
  rw [knows.id] at now alone intent
  refine ⟨alone.only, since, now, ?_, ?_⟩
  · rcases intent with its | ⟨before, was, same⟩
    · exact its
    · obtain rfl := Option.some.inj (stored.symm.trans was)
      exact same.trans own
  · cases verdict with
    | kept present closed same =>
      rw [knows.id, stored] at present
      obtain rfl := Option.some.inj present
      rw [opened] at closed
      cases closed
    | stopped _ _ _ _ policy =>
      rw [knows.actionClass] at policy
      exact absurd policy notStop
    | refused _ _ state _ locks =>
      refine Or.inr ⟨?_, locks⟩
      rcases state with state | state | state | state <;> rw [state] <;> decide
    | authorized _ _ granted locks =>
      rw [knows.target] at locks
      exact Or.inl ⟨granted.state, by rw [← knows.target]; exact granted.free, locks⟩

/-- A pass over a stop. -/
theorem authorized_processNow {ticket : Nat} {call : ProcessCall} {record a : IntentRecord} {s s' : Site}
    (knows : s.runtime.Knows item) (stored : s.runtime.records.get item.2.id = some record)
    (opened : record.state.validatable = true) (stop : s.runtime.policy.actionClass item.2 = .stop)
    (run : Completes (processNow ticket item.1 call : Handler cfg IntentRecord) s a s') :
    Local item.2.id s.runtime s'.runtime ∧ s.Since s' ∧ s'.runtime.records.get item.2.id = some a ∧ a.state = .authorized ∧
      a.intent = item.1 ∧ s'.runtime.activeTargets = s.runtime.activeTargets := by
  obtain ⟨call', run, since⟩ := completes_processNow run
  rw [← knows.id] at stored
  rw [← knows.actionClass] at stop
  obtain ⟨alone, now, state, intent, locks⟩ := (ends_processIntent_stop cfg.config call' stored opened stop).of_run_ok run
  rw [knows.id] at alone now
  exact ⟨alone, since, now, state, intent, locks⟩

theorem passed_validateNow {ticket : Nat} {call : (Nat → Bool) → ProcessCall} {timedOut : Nat → Nat → Bool}
    {record a : IntentRecord} {s s' : Site} (knows : s.runtime.Knows item)
    (stored : s.runtime.records.get item.2.id = some record) (own : record.intent = item.1)
    (opened : record.state.validatable = true) (notStop : s.runtime.policy.actionClass item.2 ≠ .stop)
    (run : Completes (validateNow ticket item.1 item.2.id call timedOut : Handler cfg IntentRecord) s a s') :
    ItemPassed item s a s' := by
  obtain ⟨first, s₁, passed, rest⟩ := completes_bind run
  have passed := passed_processNow knows stored own opened notStop passed
  obtain ⟨now, s₂, read, rest⟩ := completes_bind rest
  obtain ⟨rfl, moved⟩ := completes_current read
  rw [Site.current_of_stored passed.stored] at rest
  split at rest
  · rename_i degraded
    rw [passed.intent] at rest
    have knows : s₂.runtime.Knows item := (knows.only passed.only).only (moved.calm.only item.2.id)
    have again := passed_processNow knows (by rw [moved.runtime]; exact passed.stored) passed.intent
      (by rw [degraded]; rfl) (by rw [moved.runtime, passed.only.policy]; exact notStop) rest
    refine ⟨(passed.only.trans (moved.calm.only _)).trans again.only, (passed.since.trans moved.since).trans again.since,
      again.stored, again.intent, ?_⟩
    have before : s₂.runtime.activeTargets = s.runtime.activeTargets := by
      rw [moved.runtime]
      rcases passed.locks with ⟨granted, _⟩ | ⟨_, same⟩
      · rw [degraded] at granted
        cases granted
      · exact same
    have locks := again.locks
    rw [Runtime.acquire, before] at locks
    exact locks
  · obtain ⟨rfl, after⟩ := completes_pure rest
    have moved := moved.trans after
    refine ⟨passed.only.trans (moved.calm.only _), passed.since.trans moved.since, by rw [moved.runtime]; exact passed.stored,
      passed.intent, ?_⟩
    rw [moved.runtime]
    exact passed.locks

/-! ### Stops and winners -/

/-- The intent of this id is authorized. -/
def Site.Granted (id : Str) (s : Site) : Prop := ∃ record, s.runtime.records.get id = some record ∧ record.state = .authorized

/-- It is, and is remembered since this time or later. -/
def Site.Held (since : ℚ) (id : Str) (s : Site) : Prop :=
  ∃ time record, since ≤ time ∧ s.runtime.seen.get id = some time ∧ s.runtime.records.get id = some record ∧
    record.state = .authorized

/-- A stop that is new, or has been granted before, is authorized. -/
theorem handles_batchStop {ticket : Nat} {timedOut : Ref → Nat → Nat → Bool} {r : BatchResult} {s s' : Site}
    (knows : s.runtime.Knows item) (stop : s.runtime.policy.actionClass item.2 = .stop)
    (run : Completes (batchStop ticket timedOut item : Handler cfg BatchResult) s r s') :
    Handles cfg (fun _ state => state = .authorized) [item] s s' ∧ r.id = item.2.id ∧
      (¬s.runtime.Remembers item.2.id → s'.Held s.mono item.2.id) ∧ (s.Granted item.2.id → s'.Granted item.2.id) := by
  obtain ⟨a, s₁, admitted, rest⟩ := completes_bind run
  have known := admitted_admitItem knows admitted
  obtain ⟨mono, later, _, run, _⟩ := completes_admitItem admitted
  obtain ⟨_, _, unseen, seen⟩ := (ends_admitIntent_seen cfg.config item.1 mono s.runtime).of_run_ok run
  rw [knows.id] at unseen seen
  obtain ⟨held, duplicate⟩ := a
  obtain ⟨now, s₂, read, rest⟩ := completes_bind rest
  obtain ⟨rfl, moved⟩ := completes_current read
  have stored : s₂.runtime.records.get item.2.id = some held := by rw [moved.runtime]; exact known.stored
  rw [Site.current_of_stored known.stored] at rest
  split at rest
  · rename_i created
    obtain ⟨record, s₃, validated, rest⟩ := completes_bind rest
    obtain ⟨_, s₄, recorded, rest⟩ := completes_bind rest
    obtain ⟨answer, after⟩ := completes_itemResult rest
    obtain ⟨calm, aside⟩ := calm_of_aside (aside_recordStop _ _ _ _) recorded
    obtain ⟨first, s₅, passed, rest⟩ := completes_bind validated
    obtain ⟨alone, since, granted, state, intent, locks⟩ := authorized_processNow (known.knows.only (moved.calm.only item.2.id))
      stored (by rw [created]; rfl) (by rw [moved.runtime, known.policy]; exact stop) passed
    obtain ⟨now, s₆, read, rest⟩ := completes_bind rest
    obtain ⟨rfl, between⟩ := completes_current read
    rw [Site.current_of_stored granted, if_neg (by rw [state]; decide)] at rest
    obtain ⟨rfl, between'⟩ := completes_pure rest
    have between := between.trans between'
    have final : s₅.runtime.Calm s'.runtime := (between.calm.trans calm).trans after.calm
    have granted : s'.runtime.records.get item.2.id = some record := by rw [final.records]; exact granted
    refine ⟨handles_of_admitted knows admitted (((moved.calm.only _).trans alone.only).trans (final.only _))
      (((moved.since.trans since).trans between.since).trans (aside.trans after.since)) (fun t => ?_)
      (Or.inr ⟨created, fun record' now => ?_⟩), answer, fun unknown => ?_, fun _ => ⟨record, granted, state⟩⟩
    · rw [final.locks, locks, moved.runtime]
    · rw [granted] at now
      obtain rfl := Option.some.inj now
      exact ⟨intent, state⟩
    · refine ⟨mono, record, later, ?_, granted, state⟩
      rw [final.seen, alone.seen, moved.runtime]
      exact seen (unseen unknown)
  · rename_i other
    obtain ⟨answer, after⟩ := completes_itemResult rest
    have moved := moved.trans after
    have old : duplicate = true := by
      by_contra fresh
      obtain rfl : held = .fresh item.1 := known.isNew (Bool.eq_false_iff.mpr fresh)
      exact other rfl
    have stored : s'.runtime.records.get item.2.id = some held := by rw [moved.runtime]; exact known.stored
    refine ⟨handles_of_admitted knows admitted (moved.calm.only _) moved.since (fun t => by rw [moved.runtime]) (Or.inl ⟨stored, old⟩),
      answer, fun unknown => ?_, ?_⟩
    · have fresh := unseen unknown
      rw [old] at fresh
      cases fresh
    · rintro ⟨record, was, state⟩
      obtain rfl := Option.some.inj (was.symm.trans (known.isOld old))
      exact ⟨record, stored, state⟩

/-- What a winner locks is given back. -/
theorem handles_batchWinner {ticket : Nat} {timedOut : Ref → Nat → Nat → Bool} {r : BatchResult} {s s' : Site}
    (knows : s.runtime.Knows item) (notStop : s.runtime.policy.actionClass item.2 ≠ .stop)
    (run : Completes (batchWinner ticket timedOut item : Handler cfg BatchResult) s r s') :
    Handles cfg (fun _ _ => True) [item] s s' ∧ r.id = item.2.id := by
  obtain ⟨a, s₁, admitted, rest⟩ := completes_bind run
  have known := admitted_admitItem knows admitted
  obtain ⟨held, duplicate⟩ := a
  simp only at rest
  split at rest
  · rename_i old
    obtain ⟨answer, moved⟩ := completes_itemResult rest
    refine ⟨handles_of_admitted knows admitted (moved.calm.only _) moved.since (fun t => by rw [moved.runtime]) (Or.inl ⟨?_, old⟩), answer⟩
    rw [moved.runtime]
    exact known.stored
  · rename_i fresh
    obtain rfl : held = .fresh item.1 := known.isNew (Bool.eq_false_iff.mpr fresh)
    obtain ⟨_, s₂, fenced, rest⟩ := completes_bind rest
    obtain ⟨read, s₃, taken, rest⟩ := completes_bind rest
    obtain ⟨calm₁, since₁⟩ := calm_of_aside (aside_fenceIntent _ _) fenced
    obtain ⟨calm₂, since₂⟩ := calm_of_aside aside_readSnapshot taken
    have calm := calm₁.trans calm₂
    have knows₃ : s₃.runtime.Knows item := known.knows.only (calm.only item.2.id)
    have class₃ : s₃.runtime.policy.actionClass item.2 ≠ .stop := by rw [calm.policy, known.policy]; exact notStop
    have stored₃ : s₃.runtime.records.get item.2.id = some (.fresh item.1) := by rw [calm.records]; exact known.stored
    obtain ⟨record, s₄, validated, rest⟩ := completes_bind rest
    have passed := passed_validateNow knows₃ stored₃ rfl rfl class₃ validated
    obtain ⟨now, s₅, current, rest⟩ := completes_bind rest
    obtain ⟨rfl, between⟩ := completes_current current
    rw [Site.current_of_stored passed.stored] at rest
    have since := ((since₁.trans since₂).trans passed.since).trans between.since
    have only := ((calm.only _).trans passed.only).trans (between.calm.only _)
    split at rest
    · rename_i authorized
      obtain ⟨_, s₆, released, rest⟩ := completes_bind rest
      obtain ⟨answer, after⟩ := completes_itemResult rest
      obtain ⟨s₇, before, _, moved⟩ := completes_step released
      have moved := moved.trans after
      have runtime : s'.runtime = s₄.runtime.release (s₄.runtime.heap record.intent).target := by
        rw [moved.runtime]
        show s₇.runtime.release _ = _
        rw [before.runtime, between.runtime]
      have freed : Local item.2.id s₄.runtime s'.runtime := by
        rw [runtime]
        exact (Local.refl _ _).release _
      have target : (s₄.runtime.heap record.intent).target = item.2.target := by
        rw [passed.intent, passed.only.targets]
        exact knows₃.target
      refine ⟨handles_of_admitted knows admitted (((calm.only _).trans passed.only).trans freed.only)
        ((since.trans before.since).trans ⟨moved.allocated, moved.mono⟩) (fun t => ?_) (Or.inr ⟨rfl, fun record' now => ?_⟩), answer⟩
      · rcases passed.locks with ⟨_, free, locks⟩ | ⟨other, _⟩
        · rw [calm.locks] at free
          rw [runtime, Runtime.mem_release, target, locks, Runtime.mem_acquire, calm.locks]
          constructor
          · rintro ⟨ne, same | held⟩
            · exact absurd same ne
            · exact held
          · intro held
            exact ⟨fun same => free (same ▸ held), Or.inr held⟩
        · exact absurd authorized other
      · rw [runtime] at now
        obtain rfl := Option.some.inj (passed.stored.symm.trans now)
        exact ⟨passed.intent, trivial⟩
    · rename_i refused
      obtain ⟨answer, after⟩ := completes_itemResult rest
      refine ⟨handles_of_admitted knows admitted (only.trans (after.calm.only _)) (since.trans after.since) (fun t => ?_)
        (Or.inr ⟨rfl, fun record' now => ?_⟩), answer⟩
      · rcases passed.locks with ⟨granted, _⟩ | ⟨_, locks⟩
        · exact absurd granted refused
        · rw [after.runtime, between.runtime, locks, calm.locks]
      · rw [after.runtime, between.runtime] at now
        obtain rfl := Option.some.inj (passed.stored.symm.trans now)
        exact ⟨passed.intent, trivial⟩

end

end Xair
