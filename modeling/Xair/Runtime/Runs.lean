import Xair.Runtime.Outcomes

/-!
# Runs of the runtime

Any sequence of operations on any intents, contexts and policies. An operation
that raises has been called all the same: the run goes on from what it has written.
-/

namespace Xair

open Library

inductive Operation where
  | admitIntent (ref : Ref) (mono : ℚ) (enqueue : Bool)
  | processIntent (call : ProcessCall) (ref : Ref)
  | processNext (call : ProcessCall)
  | recordCommit (id : Str) (committed : Bool) (reason : Str) (seq : Option Nat)
  | reportRelease (id : Str) (released : Bool) (reason : Str) (contextVersion readSetVersion : Option Int)
  | reportEffect (id : Str) (status : EffectStatus) (detail : Str)
  | supervisoryRevoke (id : Str) (reason : Str)
  | setPolicy (policy : Policy)
  | installContext (snapshot : Members) (version : Nat)
  /-- A caller's assignment to `intent.preconditions`. -/
  | setPreconditions (ref : Ref) (preconditions : List Str)

section

variable [PyText]

/-- The state after an operation has returned or raised. -/
def Operation.exec (cfg : Config) (op : Operation) (rt : Runtime) : Runtime :=
  match op with
  | admitIntent ref mono enqueue => finalState (Xair.admitIntent cfg ref mono enqueue) rt
  | processIntent call ref => finalState (Xair.processIntent cfg call ref) rt
  | processNext call => finalState (Xair.processNext cfg call) rt
  | recordCommit id committed reason seq => finalState (Xair.recordCommit id committed reason seq) rt
  | reportRelease id released reason cv rv => finalState (Xair.reportRelease cfg id released reason cv rv) rt
  | reportEffect id status detail => finalState (Xair.reportEffect id status detail) rt
  | supervisoryRevoke id reason => finalState (Xair.supervisoryRevoke id reason) rt
  | setPolicy policy => { rt with policy := policy }
  | installContext snapshot version => installContextSnapshot snapshot version rt
  | setPreconditions ref preconditions => rt.putIntent ref { rt.heap ref with preconditions := preconditions }

def runAll (cfg : Config) (ops : List Operation) (rt : Runtime) : Runtime :=
  ops.foldl (fun rt op => op.exec cfg rt) rt

/-- Every operation of a run starts in a state with `ok`. -/
def Along (cfg : Config) (ok : Operation → Runtime → Prop) : List Operation → Runtime → Prop
  | [], _ => True
  | op :: ops, rt => ok op rt ∧ Along cfg ok ops (op.exec cfg rt)

/-- What every admissible operation preserves holds in every state of an admissible run. -/
theorem runAll_preserves {cfg : Config} {ok : Operation → Runtime → Prop} {P : Runtime → Prop}
    (step : ∀ op rt, P rt → ok op rt → P (op.exec cfg rt)) {ops : List Operation} {rt : Runtime} (start : P rt)
    (along : Along cfg ok ops rt) : P (runAll cfg ops rt) := by
  induction ops generalizing rt with
  | nil => exact start
  | cons op ops ih => exact ih (step op rt start along.1) along.2

end

/-! ### Admission -/

/-- Admission changes no record but the new one; expired ones go. -/
structure Admission (ref : Ref) (rt rt' : Runtime) : Prop where
  heap : rt'.heap = rt.heap
  locks : rt'.activeTargets = rt.activeTargets
  policy : rt'.policy = rt.policy
  records : ∀ id record, rt'.records.get id = some record →
    rt.records.get id = some record ∨ id = (rt.heap ref).id ∧ record = .fresh ref
  kept : ∀ id record, rt.records.get id = some record → rt'.records.get id = some record ∨
    record.state.settled = true ∨ rt'.records.get id = some (.fresh ref)
  actuated : rt'.actuated = rt.actuated
  audit : (rt'.audit = rt.audit ∧ ∀ id record, rt'.records.get id = some record → rt.records.get id = some record) ∨
    rt'.audit = rt.audit ++ [.registration (rt.heap ref).id] ∧ rt'.records.get (rt.heap ref).id = some (.fresh ref)

/-- Expiry only forgets settled records. -/
structure Expired (rt rt' : Runtime) : Prop where
  heap : rt'.heap = rt.heap
  locks : rt'.activeTargets = rt.activeTargets
  policy : rt'.policy = rt.policy
  records : ∀ id record, rt'.records.get id = some record → rt.records.get id = some record
  kept : ∀ id record, rt.records.get id = some record → rt'.records.get id = some record ∨ record.state.settled = true
  actuated : rt'.actuated = rt.actuated
  audit : rt'.audit = rt.audit

theorem expired_expireItems (horizon : ℚ) (items : List (Str × ℚ)) (rt : Runtime) :
    Expired rt (expireItems horizon items rt) := by
  induction items generalizing rt with
  | nil => exact ⟨rfl, rfl, rfl, fun _ _ h => h, fun _ _ h => Or.inl h, rfl, rfl⟩
  | cons item rest ih =>
    obtain ⟨id, admittedAt⟩ := item
    simp only [expireItems]
    split
    · exact ⟨rfl, rfl, rfl, fun _ _ h => h, fun _ _ h => Or.inl h, rfl, rfl⟩
    · split
      · rename_i settled
        obtain ⟨heap, locks, policy, records, kept, actuated, audit⟩ := ih (({ rt with seen := rt.seen.erase id } : Runtime).forget id)
        refine ⟨heap, locks, policy, fun id' record stored => ?_, fun id' record stored => ?_, actuated, audit⟩
        · have before := records id' record stored
          rw [Runtime.forget, Dict.get_erase] at before
          split at before
          · cases before
          · exact before
        · by_cases same : id' = id
          · subst same
            rw [stored] at settled
            exact Or.inr settled
          · exact kept id' record (by rw [Runtime.forget, Dict.get_erase, if_neg same]; exact stored)
      · obtain ⟨heap, locks, policy, records, kept, actuated, audit⟩ := ih { rt with seen := rt.seen.erase id }
        exact ⟨heap, locks, policy, records, kept, actuated, audit⟩

/-- The registration of a new record after expiry. -/
theorem Expired.register {rt rt₁ rt₂ : Runtime} (h : Expired rt rt₁) {ref : Ref} (heap : rt₂.heap = rt₁.heap)
    (locks : rt₂.activeTargets = rt₁.activeTargets) (policy : rt₂.policy = rt₁.policy)
    (records : rt₂.records = rt₁.records) (actuated : rt₂.actuated = rt₁.actuated) (audit : rt₂.audit = rt₁.audit) :
    Admission ref rt (rt₂.register ref) := by
  have atRef : rt₂.heap ref = rt.heap ref := by rw [heap, h.heap]
  refine ⟨heap.trans h.heap, locks.trans h.locks, policy.trans h.policy, fun id record stored => ?_,
    fun id record stored => ?_, actuated.trans h.actuated, Or.inr ⟨?_, ?_⟩⟩
  · change (rt₂.records.insert (rt₂.heap ref).id _).get id = _ at stored
    rw [Dict.get_insert] at stored
    split at stored
    · rename_i same
      exact Or.inr ⟨by rw [same, atRef], (Option.some.inj stored).symm⟩
    · exact Or.inl (h.records id record (by rw [← records]; exact stored))
  · change (rt₂.records.insert (rt₂.heap ref).id _).get id = _ ∨ _ ∨ (rt₂.records.insert (rt₂.heap ref).id _).get id = _
    rw [Dict.get_insert]
    split
    · exact Or.inr (Or.inr rfl)
    · rw [records]
      rcases h.kept id record stored with kept | settled
      · exact Or.inl kept
      · exact Or.inr (Or.inl settled)
  · change rt₂.audit ++ [.registration (rt₂.heap ref).id] = _
    rw [audit, h.audit, atRef]
  · change (rt₂.records.insert (rt₂.heap ref).id _).get (rt.heap ref).id = _
    rw [atRef, Dict.get_insert_self]

theorem ends_admitIntent (cfg : Config) (ref : Ref) (mono : ℚ) (enqueue : Bool) (rt : Runtime) :
    Ends (admitIntent cfg ref mono enqueue) rt
      (fun a rt' => Admission ref rt rt' ∧ rt'.records.get (rt.heap ref).id = some a.1 ∧
        (a.2 = false → a.1 = .fresh ref) ∧ (a.2 = true → rt.records.get (rt.heap ref).id = some a.1))
      fun _ _ => False := by
  have expired : Expired rt (expireSeen cfg mono rt) := expired_expireItems _ _ _
  rw [admitIntent, ends_bind, ends_modify, ends_bind, ends_get]
  have atRef : (expireSeen cfg mono rt).heap ref = rt.heap ref := by rw [expired.heap]
  cases found : if (expireSeen cfg mono rt).seen.contains ((expireSeen cfg mono rt).heap ref).id
      then (expireSeen cfg mono rt).records.get ((expireSeen cfg mono rt).heap ref).id else none with
  | some record =>
    simp only [found]
    have stored : (expireSeen cfg mono rt).records.get (rt.heap ref).id = some record := by
      rw [← atRef]
      split at found
      · exact found
      · cases found
    refine ends_pure.mpr ⟨⟨expired.heap, expired.locks, expired.policy, fun id r h => Or.inl (expired.records id r h),
      fun id r h => ?_, expired.actuated, Or.inl ⟨expired.audit, expired.records⟩⟩, stored, ?_, fun _ => expired.records _ _ stored⟩
    · rcases expired.kept id r h with kept | settled
      · exact Or.inl kept
      · exact Or.inr (Or.inl settled)
    · rintro ⟨⟩
  | none =>
    simp only [found]
    rw [ends_bind, ends_set, ends_pure]
    generalize inserted : ({ expireSeen cfg mono rt with
      seen := (expireSeen cfg mono rt).seen.insert ((expireSeen cfg mono rt).heap ref).id mono } : Runtime) = rt₁
    have admission : Admission ref rt ((rt₁.count fun m => { m with intentsReceived := m.intentsReceived + 1 }).register ref) := by
      subst inserted
      exact expired.register rfl rfl rfl rfl rfl rfl
    have stored : ((rt₁.count fun m => { m with intentsReceived := m.intentsReceived + 1 }).register ref).records.get
        (rt.heap ref).id = some (.fresh ref) := by
      subst inserted
      rw [← atRef]
      exact Dict.get_insert_self _ _ _
    refine ⟨?_, ?_, fun _ => rfl, by rintro ⟨⟩⟩
    · split
      · obtain ⟨heap, locks, policy, records, kept, actuated, audit⟩ := admission
        exact ⟨heap, locks, policy, records, kept, actuated, audit⟩
      · exact admission
    · split
      · exact stored
      · exact stored

/-! ### What is remembered -/

/-- An admission of this id would be a duplicate. -/
def Runtime.Remembers (rt : Runtime) (id : Str) : Prop := rt.seen.contains id = true ∧ ∃ record, rt.records.get id = some record

/-- An entry that is young enough stays, with its record. -/
theorem expireItems_young {horizon : ℚ} {id : Str} {items : List (Str × ℚ)} (young : ∀ time, (id, time) ∈ items → horizon ≤ time)
    (rt : Runtime) : (expireItems horizon items rt).seen.get id = rt.seen.get id ∧
      (expireItems horizon items rt).records.get id = rt.records.get id := by
  induction items generalizing rt with
  | nil => exact ⟨rfl, rfl⟩
  | cons item rest ih =>
    obtain ⟨other, admittedAt⟩ := item
    simp only [expireItems]
    split
    · exact ⟨rfl, rfl⟩
    · rename_i old
      have ne : id ≠ other := by
        rintro rfl
        exact old (young admittedAt List.mem_cons_self)
      have later := ih fun time member => young time (List.mem_cons_of_mem _ member)
      have erased : (rt.seen.erase other).get id = rt.seen.get id := by rw [Dict.get_erase, if_neg ne]
      split
      · have forgotten : (rt.records.erase other).get id = rt.records.get id := by rw [Dict.get_erase, if_neg ne]
        exact ⟨(later _).1.trans erased, (later _).2.trans forgotten⟩
      · exact ⟨(later _).1.trans erased, (later _).2⟩

/-- Expiry adds no entry. -/
theorem expireItems_seen (horizon : ℚ) (items : List (Str × ℚ)) (rt : Runtime) (id : Str) :
    (expireItems horizon items rt).seen.contains id = true → rt.seen.contains id = true := by
  induction items generalizing rt with
  | nil => exact fun h => h
  | cons item rest ih =>
    obtain ⟨other, admittedAt⟩ := item
    have erased : (rt.seen.erase other).contains id = true → rt.seen.contains id = true := by
      intro kept
      rw [Dict.contains, Dict.get_erase] at kept
      split at kept
      · cases kept
      · exact kept
    simp only [expireItems]
    split
    · exact fun h => h
    · split
      · exact fun h => erased (ih _ h)
      · exact fun h => erased (ih _ h)

/-- What an admission does to the seen-table: it keeps what is young, remembers its own id from now on if it is new,
and no other that was not remembered. -/
theorem ends_admitIntent_seen (cfg : Config) (ref : Ref) (mono : ℚ) (rt : Runtime) :
    Ends (admitIntent cfg ref mono false) rt
      (fun a rt' =>
        (∀ id time record, rt.seen.get id = some time → mono - cfg.idempotencyRetentionS ≤ time →
          rt.records.get id = some record → rt'.seen.get id = some time ∧ rt'.records.get id = some record) ∧
        (∀ id, id ≠ (rt.heap ref).id → ¬rt.Remembers id → ¬rt'.Remembers id) ∧
        (¬rt.Remembers (rt.heap ref).id → a.2 = false) ∧ (a.2 = false → rt'.seen.get (rt.heap ref).id = some mono))
      fun _ _ => False := by
  have expired : Expired rt (expireSeen cfg mono rt) := expired_expireItems _ _ _
  have young : ∀ id time record, rt.seen.get id = some time → mono - cfg.idempotencyRetentionS ≤ time →
      rt.records.get id = some record → (expireSeen cfg mono rt).seen.get id = some time ∧
        (expireSeen cfg mono rt).records.get id = some record := by
    intro id time record seen recent stored
    have listed : ∀ time', (id, time') ∈ rt.seen.items → mono - cfg.idempotencyRetentionS ≤ time' := fun time' member => by
      rw [Dict.mem_items, seen] at member
      rwa [← Option.some.inj member]
    have kept := expireItems_young listed rt
    exact ⟨kept.1.trans seen, kept.2.trans stored⟩
  have unknown : ∀ id, (expireSeen cfg mono rt).Remembers id → rt.Remembers id := by
    rintro id ⟨seen, record, stored⟩
    exact ⟨expireItems_seen _ _ _ _ seen, record, expired.records id record stored⟩
  rw [admitIntent, ends_bind, ends_modify, ends_bind, ends_get]
  rw [show (rt.heap ref).id = ((expireSeen cfg mono rt).heap ref).id by rw [expired.heap]]
  generalize expireSeen cfg mono rt = rt₁ at *
  cases found : if rt₁.seen.contains (rt₁.heap ref).id then rt₁.records.get (rt₁.heap ref).id else none with
  | some record =>
    simp only [found]
    refine ends_pure.mpr ⟨young, fun id _ => mt (unknown id), fun unseen => absurd ?_ unseen, fun fresh => by cases fresh⟩
    split at found
    · rename_i seen
      exact unknown _ ⟨seen, record, found⟩
    · cases found
  | none =>
    simp only [found]
    rw [ends_bind, ends_set, ends_pure]
    have own : ∀ time record, rt₁.seen.get (rt₁.heap ref).id = some time → rt₁.records.get (rt₁.heap ref).id ≠ some record := by
      intro time record seen stored
      rw [Dict.contains, seen, Option.isSome_some, if_pos rfl, stored] at found
      cases found
    refine ⟨fun id time record seen recent stored => ?_, fun id ne unseen => ?_, fun _ => rfl, fun _ => Dict.get_insert_self _ _ _⟩
    · obtain ⟨seen, stored⟩ := young id time record seen recent stored
      have ne : id ≠ (rt₁.heap ref).id := by
        rintro rfl
        exact own time record seen stored
      exact ⟨(Dict.get_insert_ne _ _ ne).trans seen, (Dict.get_insert_ne _ _ ne).trans stored⟩
    · rintro ⟨seen, record, stored⟩
      refine unseen (unknown id ⟨?_, record, (Dict.get_insert_ne _ _ ne).symm.trans stored⟩)
      rw [Dict.contains] at seen ⊢
      exact (congrArg Option.isSome (Dict.get_insert_ne _ _ ne)).symm.trans seen

end Xair
