import Xair.Store.Shard
import Xair.Store.Script

/-!
# The public methods of the store

Every method keeps the discipline of its layout, and what each of them returns is
what the committed patches say.
-/

namespace Xair

open Library

theorem Call.Pending.connected {K : Call} {l : StoreObject} {s : Redis} (h : K.Pending l s) (connected : Bool) :
    K.Pending { l with connected := connected } s :=
  ⟨h.idx, h.lastIo, h.absent⟩

theorem Redis.stored_whole {layout : Layout} (whole : layout ≠ .shard) (s : Redis) : s.stored layout = decode s.doc := by
  cases layout with
  | document => rfl
  | hash => rfl
  | shard => exact absurd rfl whole

/-- The patches an update is proved for. -/
def Layout.Accepts (layout : Layout) (patch : Members) : Prop := patch.WF ∧ (layout = .shard → PlainKeys patch)

section

variable [PyText]

/-- A snapshot that a call returns belongs to one version, if it is trusted. -/
def Returns (reads : Str → Prop) (doc : SnapshotDoc) (l : StoreObject) (s : Redis) : Prop :=
  IdxOk l s ∧ (doc.trusted = true → Seen reads doc.snapshot doc.preds s)

theorem Returns.advance {layout : Layout} {mine : Effect → Prop} {reads : Str → Prop} {doc : SnapshotDoc}
    {l : StoreObject} {s s' : Redis} (h : Returns reads doc l s) (step : Advance layout mine s s') : Returns reads doc l s' :=
  ⟨h.1.advance step, fun trusted => (h.2 trusted).advance step⟩

theorem StoreInv.stored_restricts {layout : Layout} {faultless : Prop} {s : Redis} (inv : StoreInv layout faultless s) :
    (history s.patches).RestrictsTo (fun _ => True) (s.stored layout) := by
  by_cases shard : layout = .shard
  · subst shard
    have content := inv.content
    exact Redis.Sharded.load_all content
  · rw [s.stored_whole shard, inv.decode_doc shard]
    exact Snapshot.restrictsTo_self _

namespace Call

variable {K : Call} {l : StoreObject} {s : Redis}

theorem runs_ensureClient (inv : K.Inv s) :
    K.Runs ensureClient l s (fun _ l' s' => K.Rely s s' ∧ (K.faultless → l'.connected = true) ∧
      l' = { l with connected := l'.connected }) fun _ _ => False := by
  refine runs_get_bind inv fun s₁ rely₁ inv₁ => ?_
  refine runs_ite (fun _ => ?_) fun connected => runs_pure fun s₂ rely₂ _ => ?_
  · refine runs_tryCatch (fun l' s' => K.Rely s s' ∧ ¬ K.faultless ∧ l' = l) inv₁
      (runs_bind inv₁ (runs_read (fun _ => rfl) (fun s₂ s₃ rely₂ _ _ rely₃ _ _ => ?_) fun faulty s' rely => ?_))
      fun _ l' s' _ failed => runs_modify fun s'' rely _ => ?_
    · exact runs_modify fun s₄ rely₄ _ => ⟨rely₁.trans (rely₂.trans (rely₃.trans rely₄)), fun _ => rfl, rfl⟩
    · exact ⟨rely₁.trans rely, faulty, rfl⟩
    · obtain ⟨before, faulty, rfl⟩ := failed
      exact ⟨before.trans rely, fun faultless => absurd faultless faulty, rfl⟩
  · exact ⟨rely₁.trans rely₂, fun _ => Bool.eq_true_of_not_eq_false connected, rfl⟩

/-! ### Updates -/

theorem runs_updateRedis {patch : Members} (accepts : K.cfg.layout.Accepts patch)
    (mine : K.job.patch = some patch) (inv : K.Inv s) (pending : K.Pending l s) :
    K.Runs (updateRedis K.cfg K.ticket patch) l s (K.Committed patch) K.Pending := by
  unfold updateRedis
  cases layout : K.cfg.layout with
  | document => exact runs_updateDocument layout accepts.1 mine inv pending
  | hash => exact runs_updateHash layout accepts.1 mine inv pending
  | shard => exact runs_updateShard layout accepts.1 (accepts.2 layout) mine inv pending

theorem runs_updateLocked {patch : Members} (accepts : K.cfg.layout.Accepts patch)
    (mine : K.job.patch = some patch) (inv : K.Inv s)
    (pending : K.Pending l s) :
    K.Runs (updateLocked K.cfg K.ticket patch) l s (fun v l' s' => K.Committed patch v l' s' ∨ K.Pending l' s')
      fun _ _ => False := by
  refine runs_bind inv ((runs_ensureClient inv).imp (fun _ l₁ s₁ _ ends inv₁ => ?_) fun _ _ _ never => never)
  obtain ⟨rely₁, _, same⟩ := ends
  have pending₁ : K.Pending l₁ s₁ := by
    rw [same]
    exact (stable_pending _ _ _ pending rely₁).connected _
  refine runs_get_bind inv₁ fun s₂ rely₂ inv₂ => ?_
  have pending₂ := stable_pending _ _ _ pending₁ rely₂
  refine runs_ite (fun _ => ?_) fun _ => runs_get_bind inv₂ fun s₃ rely₃ _ => runs_pure fun s₄ rely₄ _ =>
    Or.inr (stable_pending _ _ _ pending₂ (rely₃.trans rely₄))
  refine runs_tryCatch _ inv₂ ((runs_updateRedis accepts mine inv₂ pending₂).imp (fun _ _ _ _ => Or.inl) fun _ _ _ hold => hold)
    fun _ l' s' inv' hold => ?_
  refine runs_modify_bind inv' fun s₃ rely₃ inv₃ => runs_get_bind inv₃ fun s₄ rely₄ _ => runs_pure fun s₅ rely₅ _ => ?_
  exact Or.inr ((stable_pending _ _ _ hold (rely₃.trans (rely₄.trans rely₅))).connected false)

theorem runs_updateTimed {patch : Members} (accepts : K.cfg.layout.Accepts patch)
    (mine : K.job.patch = some patch) (inv : K.Inv s) (idx : IdxOk l s)
    (fresh : K.faultless → K.ticket ∉ s.tickets) :
    K.Runs (updateTimed K.cfg K.ticket patch) l s (fun out l' s' =>
      (out.2 = true ∧ K.Committed patch out.1 l' s') ∨ (out.2 = false ∧ K.Pending l' s')) fun _ _ => False := by
  refine runs_modify_bind inv fun s₁ rely₁ inv₁ => ?_
  have pending : K.Pending { l with lastIo := false } s₁ :=
    stable_pending _ _ _ ⟨idx, rfl, fresh⟩ rely₁
  refine runs_bind inv₁ ((runs_updateLocked accepts mine inv₁ pending).imp (fun v l₂ s₂ _ ends inv₂ => ?_) fun _ _ _ never => never)
  refine runs_get_bind inv₂ fun s₃ rely₃ _ => runs_pure fun s₄ rely₄ _ => ?_
  rcases ends with committed | pending
  · exact Or.inl ⟨committed.lastIo, committed.rely (rely₃.trans rely₄)⟩
  · exact Or.inr ⟨pending.lastIo, stable_pending _ _ _ pending (rely₃.trans rely₄)⟩

/-! ### Registrations and reads -/

theorem runs_registerRedis (scanned : List (Str × Entry)) (exprs : List Str) (inv : K.Inv s) (idx : IdxOk l s) :
    K.Runs (registerRedis K.cfg scanned exprs) l s (fun _ => K.Registered exprs) IdxOk := by
  unfold registerRedis
  cases layout : K.cfg.layout with
  | document => exact runs_registerDocument layout exprs inv idx
  | hash => exact runs_registerHash layout scanned exprs inv idx
  | shard => exact runs_registerShard layout scanned exprs inv idx

/-- A refusal: the empty context, not trusted. -/
theorem returns_untrusted {reads : Str → Prop} (idx : IdxOk l s) (version : Nat) :
    Returns reads (untrustedDoc version) l s :=
  ⟨idx, fun trusted => nomatch trusted⟩

theorem runs_untrusted {reads : Str → Prop} (inv : K.Inv s) (idx : IdxOk l s) {held : StoreObject → Redis → Prop} :
    K.Runs (do return untrustedDoc (← get).version) l s (Returns reads) held :=
  runs_get_bind inv fun _ rely₁ _ => runs_pure fun _ rely₂ _ => returns_untrusted (idx.advance (rely₁.trans rely₂)) _

theorem runs_dropClient_untrusted {reads : Str → Prop} (inv : K.Inv s) (idx : IdxOk l s)
    {held : StoreObject → Redis → Prop} :
    K.Runs (do dropClient; return untrustedDoc (← get).version) l s (Returns reads) held :=
  runs_modify_bind inv fun _ rely inv' => runs_untrusted inv' (by exact idx.advance rely)

/-- With the client connected, so that a method goes on to its `try`. -/
theorem runs_connected {α : Type} {m m' : StoreM α} {ok : α → StoreObject → Redis → Prop}
    {held : StoreObject → Redis → Prop} (inv : K.Inv s) (idx : IdxOk l s)
    (yes : ∀ l' s', K.Rely s s' → K.Inv s' → IdxOk l' s' → K.Runs m l' s' ok held)
    (no : ¬ K.faultless → ∀ l' s', K.Rely s s' → K.Inv s' → IdxOk l' s' → K.Runs m' l' s' ok held) :
    K.Runs (do ensureClient; if (← get).connected then m else m') l s ok held := by
  refine runs_bind inv ((runs_ensureClient inv).imp (fun _ l₁ s₁ _ ends inv₁ => ?_) fun _ _ _ never => never.elim)
  obtain ⟨rely₁, connected, same⟩ := ends
  have idx₁ : IdxOk l₁ s₁ := by
    rw [same]
    exact idx.advance rely₁
  refine runs_get_bind inv₁ fun s₂ rely₂ inv₂ => runs_ite (fun _ => ?_) fun lost => ?_
  · exact yes l₁ s₂ (rely₁.trans rely₂) inv₂ (idx₁.advance rely₂)
  · exact no (fun faultless => lost (connected faultless)) l₁ s₂ (rely₁.trans rely₂) inv₂ (idx₁.advance rely₂)

theorem runs_registerAndSnapshot (scanned : List (Str × Entry)) (exprs : List Str) (inv : K.Inv s) (idx : IdxOk l s) :
    K.Runs (registerAndSnapshot K.cfg scanned exprs) l s (Returns (K.cfg.layout.reads exprs)) fun _ _ => False := by
  refine runs_connected inv idx (fun l s _ inv idx => ?_) fun _ l s _ inv idx => runs_untrusted inv idx
  refine runs_tryCatch IdxOk inv ?_ fun _ _ _ inv idx => runs_dropClient_untrusted inv idx
  refine runs_bind inv ((runs_registerRedis scanned exprs inv idx).imp (fun _ l₁ s₁ _ registered inv₁ => ?_)
    fun _ _ _ hold => hold)
  refine runs_get_bind inv₁ fun s₂ rely₂ inv₂ => ?_
  have seen := registered.seen
  refine runs_ite (fun shard => runs_pure fun s₃ rely₃ _ => ?_) fun whole => runs_pure fun s₃ rely₃ _ => ?_
  · refine Returns.advance ⟨registered.idx, fun _ => ?_⟩ (rely₂.trans rely₃)
    rw [shard] at seen ⊢
    obtain ⟨n, bound, restricts, entries⟩ := seen
    exact ⟨n, bound, restricts, entries.present exprs⟩
  · refine Returns.advance ⟨registered.idx, fun _ => ?_⟩ (rely₂.trans rely₃)
    have view : l₁.view K.cfg.layout = ⟨l₁.memory, l₁.version, l₁.pathVersions⟩ := by
      cases layout : K.cfg.layout with
      | document => rfl
      | hash => rfl
      | shard => exact absurd layout whole
    rw [view] at seen
    exact seen

/-- The object holds the stored snapshot of one moment of the call. -/
def Loaded (K : Call) (l : StoreObject) (s : Redis) : Prop :=
  ∃ s₀, K.Inv s₀ ∧ K.Rely s₀ s ∧ (K.cfg.layout ≠ .shard → K.may .getDoc s₀ .done) ∧
    ⟨l.memory, l.version, l.pathVersions⟩ = s₀.stored K.cfg.layout ∧
    (K.cfg.layout = .document → l.preds = decodePreds s₀.doc)

theorem runs_loadSnapshot (inv : K.Inv s) (idx : IdxOk l s) (connected : l.connected = true) :
    K.Runs (loadSnapshot K.cfg) l s (fun _ l' s' => K.Rely s s' ∧ IdxOk l' s' ∧ l'.connected = true ∧ K.Loaded l' s')
      fun l' s' => K.Rely s s' ∧ IdxOk l' s' ∧ ¬ K.faultless := by
  refine runs_ite (fun shard => ?_) fun whole => ?_
  · refine runs_bind inv (runs_read (fun _ => rfl) (fun s₁ s₂ rely₁ inv₁ _ rely₂ _ _ => runs_modify fun s₃ rely₃ _ => ?_)
      fun faulty s₁ rely₁ => ⟨rely₁, idx.advance rely₁, faulty⟩)
    exact ⟨rely₁.trans (rely₂.trans rely₃), idx.advance (rely₁.trans (rely₂.trans rely₃)), connected, s₁, inv₁, rely₂.trans rely₃,
      fun other => absurd shard other, by rw [shard]; rfl, fun document => by rw [shard] at document; cases document⟩
  · refine runs_bind inv (runs_read (fun _ => rfl) (fun s₁ s₂ rely₁ inv₁ allowed rely₂ _ _ => runs_modify fun s₃ rely₃ _ => ?_)
      fun faulty s₁ rely₁ => ⟨rely₁, idx.advance rely₁, faulty⟩)
    exact ⟨rely₁.trans (rely₂.trans rely₃), idx.advance (rely₁.trans (rely₂.trans rely₃)), connected, s₁, inv₁, rely₂.trans rely₃, fun _ => allowed,
      (s₁.stored_whole whole).symm, fun _ => rfl⟩

/-- A read was tried; the object is connected if and only if it succeeded. -/
structure Tried (K : Call) (l : StoreObject) (s : Redis) : Prop where
  idx : IdxOk l s
  answered : K.faultless → l.connected = true
  loaded : l.connected = true → K.Loaded l s

theorem stable_tried : K.Stable K.Tried := fun _ _ _ h rely =>
  ⟨h.idx.advance rely, h.answered, fun connected => by
    obtain ⟨s₀, inv₀, past, rest⟩ := h.loaded connected
    exact ⟨s₀, inv₀, past.trans rely, rest⟩⟩

/-- The snapshot of the object, trusted if it is connected. -/
def StoreObject.taken (l : StoreObject) : Snapshot × Bool := (⟨l.memory, l.version, l.pathVersions⟩, l.connected)

theorem runs_snapshotTimed (inv : K.Inv s) (idx : IdxOk l s) :
    K.Runs (snapshotTimed K.cfg) l s (fun out l' s' => out = StoreObject.taken l' ∧ K.Tried l' s' ∧ K.Rely s s')
      fun _ _ => False := by
  have tail : ∀ l' s', K.Inv s' → K.Tried l' s' → K.Rely s s' → K.Runs (get >>= fun l => pure (StoreObject.taken l)) l' s'
      (fun out l' s' => out = StoreObject.taken l' ∧ K.Tried l' s' ∧ K.Rely s s') fun _ _ => False :=
    fun l' s' inv' tried past => runs_get_bind inv' fun s₁ rely₁ _ => runs_pure fun s₂ rely₂ _ =>
      ⟨rfl, stable_tried _ _ _ tried (rely₁.trans rely₂), past.trans (rely₁.trans rely₂)⟩
  refine runs_bind inv ((runs_ensureClient inv).imp (fun _ l₁ s₁ _ ends inv₁ => ?_) fun _ _ _ never => never)
  obtain ⟨rely₁, connected, same⟩ := ends
  have idx₁ : IdxOk l₁ s₁ := by
    rw [same]
    exact idx.advance rely₁
  refine runs_get_bind inv₁ fun s₂ rely₂ inv₂ => runs_ite (fun online => ?_) fun offline => ?_
  · refine runs_bind inv₂ (runs_tryCatch _ inv₂ ((runs_loadSnapshot inv₂ (idx₁.advance rely₂) online).imp
      (fun _ l' s' _ loaded inv' => ?_) fun _ _ _ failed => failed) fun _ l' s' inv' failed => runs_modify fun s'' rely inv'' _ => ?_)
    · obtain ⟨past, idx', online', loaded⟩ := loaded
      exact tail l' s' inv' ⟨idx', fun _ => online', fun _ => loaded⟩ (rely₁.trans (rely₂.trans past))
    · obtain ⟨past, idx', faulty⟩ := failed
      exact tail _ s'' inv'' ⟨idx'.advance rely, fun faultless => absurd faultless faulty, fun online => nomatch online⟩
        (rely₁.trans (rely₂.trans (past.trans rely)))
  · exact tail l₁ s₂ inv₂ ⟨idx₁.advance rely₂, connected, fun online => absurd online offline⟩ (rely₁.trans rely₂)

theorem Loaded.seen (h : K.Loaded l s) {preds : Dict Str Entry}
    (entries : ∀ s₀, K.Inv s₀ → (K.cfg.layout = .document → l.preds = decodePreds s₀.doc) → EntriesOk s₀.patches preds) :
    Seen (fun _ => True) (StoreObject.taken l).1 preds s := by
  obtain ⟨s₀, inv₀, past, _, same, document⟩ := h
  exact (seen_now (by rw [StoreObject.taken, same]; exact inv₀.stored_restricts) (entries s₀ inv₀ document)).advance past

theorem Seen.weaken {reads reads' : Str → Prop} {part : Snapshot} {preds : Dict Str Entry} (h : Seen reads part preds s)
    (same : ∀ r, reads r ↔ reads' r) : Seen reads' part preds s := by
  rwa [← funext fun r => propext (same r)]

theorem runs_snapshotWithPredicates (exprs : List Str) (inv : K.Inv s) (idx : IdxOk l s) :
    K.Runs (snapshotWithPredicates K.cfg exprs) l s (fun doc l' s' =>
      Returns (fun r => exprs ≠ [] → K.cfg.layout.reads exprs r) doc l' s' ∧ (K.faultless → doc.trusted = true))
      fun _ _ => False := by
  have refused : ¬ K.faultless → ∀ l s, K.Inv s → IdxOk l s → K.Runs (do return untrustedDoc (← get).version) l s
      (fun doc l' s' => Returns (fun r => exprs ≠ [] → K.cfg.layout.reads exprs r) doc l' s' ∧
        (K.faultless → doc.trusted = true)) fun _ _ => False := fun faulty l s inv idx =>
    (runs_untrusted inv idx).imp (fun _ _ _ _ returns => ⟨returns, fun faultless => absurd faultless faulty⟩)
      fun _ _ _ never => never
  have dropped : ∀ l s, K.Inv s → IdxOk l s ∧ ¬ K.faultless →
      K.Runs (do dropClient; return untrustedDoc (← get).version) l s
      (fun doc l' s' => Returns (fun r => exprs ≠ [] → K.cfg.layout.reads exprs r) doc l' s' ∧
        (K.faultless → doc.trusted = true)) fun _ _ => False := fun l s inv failed =>
    runs_modify_bind inv fun s' rely inv' => refused failed.2 _ s' inv' (failed.1.advance rely)
  refine runs_ite (fun shard => ?_) fun other => runs_ite (fun hash => ?_) fun unhashed => ?_
  · refine runs_connected inv idx (fun l s _ inv idx => ?_) fun faulty l s _ inv idx => refused faulty l s inv idx
    refine runs_tryCatch (fun l s => IdxOk l s ∧ ¬ K.faultless) inv ?_ fun _ l s inv failed => dropped l s inv failed
    refine runs_bind inv ((runs_readShard exprs inv fun faulty _ rely => ⟨idx.advance rely, faulty⟩).imp
      (fun out l₁ s₁ _ ends inv₁ => ?_) fun _ _ _ hold => hold)
    obtain ⟨rfl, s₀, rely₀, inv₀, rely₁, rfl⟩ := ends
    refine runs_modify_bind inv₁ fun s₂ rely₂ _ => runs_pure fun s₃ rely₃ _ => ⟨Returns.advance (s := s₀)
      ⟨idx.advance rely₀, fun _ => ?_⟩ (rely₁.trans (rely₂.trans rely₃)), fun _ => rfl⟩
    refine Seen.weaken (seen_shard inv₀ shard.1 exprs ((inv₀.registered (by rw [shard.1]; simp)).present exprs)) fun r => ?_
    exact ⟨fun read _ => read, fun read => read shard.2⟩
  · have whole : K.cfg.layout ≠ .shard := by rw [hash]; simp
    refine runs_connected inv idx (fun l s _ inv idx => ?_) fun faulty l s _ inv idx => refused faulty l s inv idx
    refine runs_tryCatch (fun l s => IdxOk l s ∧ ¬ K.faultless) inv ?_ fun _ l s inv failed => dropped l s inv failed
    refine runs_bind inv ((runs_readHash exprs inv fun faulty _ rely => ⟨idx.advance rely, faulty⟩).imp
      (fun out l₁ s₁ _ ends inv₁ => ?_) fun _ _ _ hold => hold)
    obtain ⟨rfl, s₀, rely₀, inv₀, rely₁, rfl⟩ := ends
    refine runs_modify_bind inv₁ fun s₂ rely₂ _ => runs_pure fun s₃ rely₃ _ => ⟨Returns.advance (s := s₀)
      ⟨idx.advance rely₀, fun _ => ?_⟩ (rely₁.trans (rely₂.trans rely₃)), fun _ => rfl⟩
    refine Seen.weaken (show Seen (fun _ => True) _ _ s₀ from
      seen_now ?_ ((inv₀.registered (by rw [hash]; simp)).present exprs)) fun r => ⟨fun _ _ shard => absurd shard whole, fun _ => trivial⟩
    have restricts := inv₀.stored_restricts
    rw [s₀.stored_whole whole] at restricts
    exact restricts
  · refine runs_bind inv ((runs_snapshotTimed inv idx).imp (fun out l₁ s₁ _ ends inv₁ => ?_) fun _ _ _ never => never)
    obtain ⟨rfl, tried, past⟩ := ends
    refine runs_get_bind inv₁ fun s₂ rely₂ _ => runs_pure fun s₃ rely₃ _ => ⟨Returns.advance
      ⟨tried.idx, fun trusted => ?_⟩
      (rely₂.trans rely₃), tried.answered⟩
    refine Seen.weaken ((tried.loaded trusted).seen fun s₀ inv₀ document => ?_) fun r => ?_
    · cases layout : K.cfg.layout with
      | document =>
        rw [document layout]
        exact (entries_document inv₀ layout).present exprs
      | hash => exact absurd layout unhashed
      | shard =>
        obtain rfl : exprs = [] := not_not.mp fun some_ => other ⟨layout, some_⟩
        exact fun _ _ stored => absurd stored (by simp [restrictPreds, present, Dict.insertAll])
    · exact ⟨fun _ some_ shard => absurd ⟨shard, some_⟩ other, fun _ => trivial⟩

theorem runs_registerPredicates (scanned : List (Str × Entry)) (exprs : List Str) (inv : K.Inv s) (idx : IdxOk l s) :
    K.Runs (registerPredicates K.cfg scanned exprs) l s (fun _ => IdxOk) IdxOk := by
  refine runs_connected inv idx (fun l s _ inv idx => ?_) fun _ l s _ inv idx => runs_throw stable_idx idx _
  refine runs_bind inv (runs_tryCatch _ inv ((runs_registerRedis scanned exprs inv idx).imp
    (fun _ l₁ s₁ _ registered inv₁ => ?_) fun _ _ _ hold => hold) fun _ l₁ s₁ inv₁ idx₁ => ?_)
  · exact runs_get_bind inv₁ fun s₂ rely₂ _ => runs_pure fun s₃ rely₃ _ => registered.idx.advance (rely₂.trans rely₃)
  · exact runs_modify_bind inv₁ fun s₂ rely₂ _ => runs_throw stable_idx
      (by exact idx₁.advance rely₂) _

/-! ### The actuation log -/

/-- The reply of the script, read by `_commit_redis`. -/
theorem runs_commitRedis {req : CommitRequest} (inv : K.Inv s) (idx : IdxOk l s)
    (absent : ∀ entry ∈ s.actuations, entry.ticket ≠ K.ticket) :
    K.Runs (commitRedis K.cfg K.ticket req) l s (fun result l' s' =>
      IdxOk l' s' ∧ result.Answers K.ticket req s'.actuations) IdxOk := by
  have own : ∀ s', K.Inv s' → K.Inv (s'.commitScript K.cfg.layout K.ticket req).2 ∧
      K.Step s' (s'.commitScript K.cfg.layout K.ticket req).2 := fun s' inv' =>
    inv'.commitScript K.ticket req (by exact ⟨rfl, fun _ none => nomatch none⟩)
  refine runs_bind inv (Method.runs_command (fun s' _ inv' => own s' inv') (fun s' rely inv' _ s'' later inv'' _ => ?_)
    (fun s' rely _ _ s'' later _ => (idx.advance rely).advance later) fun s' took rely inv' _ s'' later _ => ?_)
  · change K.Rely (s'.commitScript K.cfg.layout K.ticket req).2 s'' at later
    have step := (own s' inv').2
    have idx' : IdxOk l s'' := ((idx.advance rely).advance step).advance later
    have before : ∀ entry ∈ s'.actuations, entry.ticket ≠ K.ticket := rely.unlogged (fun ne => ne rfl) absent
    rcases s'.commitScript_cases K.cfg.layout K.ticket req with ⟨same, refused⟩ |
      ⟨record, observed, _, _, matched, _, _, replied, result⟩
    · cases replied : (Redis.exec (.commit K.cfg.layout K.ticket req) s').1 with
      | none => exact runs_throw stable_idx idx' _
      | some reply =>
        obtain ⟨status, seq⟩ := refused reply replied
        rw [same] at later
        refine runs_pure fun s₃ rely₃ _ => ⟨idx'.advance rely₃, fun committed => ?_, fun _ => ⟨?_, ?_⟩⟩
        · rw [show reply.status = .committed from committed] at status
          cases status
        · simp [ScriptReply.result, seq]
        · exact rely₃.unlogged (fun ne => ne rfl) (later.unlogged (fun ne => ne rfl) before)
    · rw [result] at later
      rw [show (Redis.exec (.commit K.cfg.layout K.ticket req) s').1 = _ from replied]
      refine runs_pure fun s₃ rely₃ _ => ⟨idx'.advance rely₃, fun _ => ?_, fun refused => nomatch refused⟩
      refine ⟨s'.actuations.length, record, ⟨req, _, s'.scriptPreds K.cfg.layout⟩, ?_, (later.trans rely₃).getElem?_actuations ?_, rfl, rfl, matched⟩
      · simp only [ScriptReply.result]
        rw [if_pos (by omega)]
        rfl
      · exact List.getElem?_concat_length
  · refine IdxOk.advance ?_ later
    cases took with
    | false => exact idx.advance rely
    | true => exact (idx.advance rely).advance (own s' inv').2

theorem runs_commitAuthorization {req : CommitRequest} (inv : K.Inv s) (idx : IdxOk l s)
    (absent : ∀ entry ∈ s.actuations, entry.ticket ≠ K.ticket) :
    K.Runs (commitAuthorization K.cfg K.ticket req) l s (fun result l' s' =>
      IdxOk l' s' ∧ result.Answers K.ticket req s'.actuations) fun _ _ => False := by
  have silent : ∀ version actuations, (CommitResult.unavailable version).Answers K.ticket req actuations := by
    intro version actuations
    exact ⟨(fun committed => nomatch committed), fun refused => nomatch refused⟩
  refine runs_bind inv ((runs_ensureClient inv).imp (fun _ l₁ s₁ _ ends inv₁ => ?_) fun _ _ _ never => never.elim)
  obtain ⟨rely₁, _, same⟩ := ends
  have idx₁ : IdxOk l₁ s₁ := by
    rw [same]
    exact idx.advance rely₁
  refine runs_get_bind inv₁ fun s₂ rely₂ inv₂ => runs_ite (fun _ => ?_) fun _ => ?_
  · refine runs_tryCatch IdxOk inv₂ (runs_commitRedis inv₂ (idx₁.advance rely₂)
      ((rely₁.trans rely₂).unlogged (fun ne => ne rfl) absent)) fun _ l' s' inv' idx' => ?_
    refine runs_modify_bind inv' fun s₃ rely₃ inv₃ => runs_get_bind inv₃ fun s₄ rely₄ _ => runs_pure fun s₅ rely₅ _ => ?_
    exact ⟨idx'.advance (rely₃.trans (rely₄.trans rely₅)), silent _ _⟩
  · refine runs_get_bind inv₂ fun s₃ rely₃ _ => runs_pure fun s₄ rely₄ _ => ?_
    exact ⟨idx₁.advance (rely₂.trans (rely₃.trans rely₄)), silent _ _⟩

theorem runs_appendActuation (tombstone : Tombstone) (inv : K.Inv s) (idx : IdxOk l s) :
    K.Runs (appendActuation K.ticket tombstone) l s (fun _ => IdxOk) IdxOk := by
  have own : ∀ s', K.Inv s' → K.Inv (Redis.exec (.rpushActuation K.ticket tombstone) s').2 ∧
      K.Step s' (Redis.exec (.rpushActuation K.ticket tombstone) s').2 := fun s' inv' =>
    inv'.rpushActuation K.ticket tombstone (by exact ⟨rfl, fun _ none => nomatch none⟩)
  refine runs_connected inv idx (fun l s _ inv idx => ?_) fun _ l s _ inv idx => runs_throw stable_idx idx _
  refine runs_tryCatch IdxOk inv (runs_bind inv (Method.runs_command (fun s' _ inv' => own s' inv')
    (fun s' rely inv' _ s'' later _ _ => ?_) (fun s' rely _ _ s'' later _ => (idx.advance rely).advance later)
    fun s' took rely inv' _ s'' later _ => ?_)) fun _ l' s' inv' idx' => ?_
  · exact runs_pure fun s₃ rely₃ _ => ((idx.advance rely).advance (own s' inv').2).advance (later.trans rely₃)
  · refine IdxOk.advance ?_ later
    cases took with
    | false => exact idx.advance rely
    | true => exact (idx.advance rely).advance (own s' inv').2
  · exact runs_modify_bind inv' fun s₃ rely₃ _ => runs_throw stable_idx (by exact idx'.advance rely₃) _

theorem runs_actuationLog (start : Nat) (inv : K.Inv s) (idx : IdxOk l s) :
    K.Runs (actuationLog start) l s (fun records l' s' =>
      IdxOk l' s' ∧ records <+: (s'.actuations.drop start).map LogEntry.record) fun _ _ => False := by
  have nothing : ∀ l s, K.Inv s → IdxOk l s → K.Runs (pure []) l s (fun records l' s' =>
      IdxOk l' s' ∧ records <+: (s'.actuations.drop start).map LogEntry.record) fun _ _ => False :=
    fun l s _ idx => runs_pure fun s' rely _ => ⟨idx.advance rely, List.nil_prefix⟩
  refine runs_connected inv idx (fun l s _ inv idx => ?_) fun _ l s _ => nothing l s
  refine runs_tryCatch IdxOk inv (runs_ask stable_idx idx (fun _ => rfl) fun s' s'' _ _ _ later _ idx' => ⟨idx', ?_⟩)
    fun _ l' s' inv' idx' => runs_modify_bind inv' fun s₃ rely₃ inv₃ => nothing _ s₃ inv₃ (by exact idx'.advance rely₃)
  obtain ⟨more, appended, _⟩ := later.log
  rw [appended]
  by_cases inside : start ≤ s'.actuations.length
  · rw [List.drop_append_of_le_length inside, List.map_append]
    exact List.prefix_append _ _
  · have empty : s'.actuations.drop start = [] := List.drop_eq_nil_of_le (by omega)
    simp [Redis.exec, empty]

/-! ### Acknowledged updates -/

/-- What an acknowledgement rests on: the update's own bounds, or the document a read found later. -/
structure Acknowledges (K : Call) (patch : Members) (out : Nat × Bool × Bool) (l : StoreObject) (s : Redis) : Prop where
  idx : IdxOk l s
  committed : out.2.2 = true → ∃ n, n < out.1 ∧ s.updates[n]? = some (K.ticket, patch)
  absent : K.faultless → out.2.2 = false → K.ticket ∉ s.tickets
  trusted : out.2.1 = true → K.cfg.layout ≠ .shard →
    ∃ s₀, K.may .getDoc s₀ .done ∧ K.Rely s₀ s ∧ s₀.updates.length ≤ out.1

theorem runs_updateContextStoreTimed {patch : Members} (accepts : K.cfg.layout.Accepts patch)
    (mine : K.job.patch = some patch) (inv : K.Inv s) (idx : IdxOk l s) (fresh : K.faultless → K.ticket ∉ s.tickets) :
    K.Runs (updateContextStoreTimed K.cfg K.ticket patch) l s (K.Acknowledges patch) fun _ _ => False := by
  refine runs_bind inv ((runs_updateTimed accepts mine inv idx fresh).imp (fun out l₁ s₁ _ ends inv₁ => ?_) fun _ _ _ never => never)
  obtain ⟨ver, io⟩ := out
  have idx₁ : IdxOk l₁ s₁ := ends.elim (fun committed => committed.2.idx) fun pending => pending.2.idx
  have placed : io = true → ∃ n, n < ver ∧ s₁.updates[n]? = some (K.ticket, patch) := fun done => by
    rcases ends with ⟨_, committed⟩ | ⟨other, _⟩
    · obtain ⟨n, same, found⟩ := committed.placed
      exact ⟨n, by rw [show ver = n + 1 from same]; exact Nat.lt_succ_self n, found⟩
    · exact absurd (other.symm.trans done) (by simp)
  have absent : K.faultless → io = false → K.ticket ∉ s₁.tickets := fun faultless none => by
    rcases ends with ⟨other, _⟩ | ⟨_, pending⟩
    · exact absurd (other.symm.trans none) (by simp)
    · exact pending.absent faultless
  have others : ∀ patch, ¬ ((K.ticket, patch) : Nat × Members).1 ≠ K.ticket := fun _ ne => ne rfl
  refine runs_ite (fun shard => ?_) fun whole => ?_
  · refine runs_get_bind inv₁ fun s₂ rely₂ _ => runs_pure fun s₃ rely₃ _ => ?_
    have later := rely₂.trans rely₃
    refine ⟨idx₁.advance later, fun done => ?_, fun faultless none => later.not_mem_tickets others (absent faultless none),
      fun _ other => absurd shard other⟩
    obtain ⟨n, bound, found⟩ := placed done
    exact ⟨n, bound, later.getElem?_updates found⟩
  · refine runs_bind inv₁ ((runs_snapshotTimed inv₁ idx₁).imp (fun taken l₂ s₂ _ ends inv₂ => ?_) fun _ _ _ never => never)
    obtain ⟨rfl, tried, past⟩ := ends
    refine runs_pure fun s₃ rely₃ _ => ?_
    have later := past.trans rely₃
    refine ⟨tried.idx.advance rely₃, fun done => ?_,
      fun faultless none => later.not_mem_tickets others (absent faultless none), fun trusted _ => ?_⟩
    · obtain ⟨n, bound, found⟩ := placed done
      exact ⟨n, Nat.lt_of_lt_of_le bound (Nat.le_max_left _ _), later.getElem?_updates found⟩
    · obtain ⟨s₀, inv₀, since, allowed, same, _⟩ := tried.loaded trusted
      refine ⟨s₀, allowed whole, since.trans rely₃, Nat.le_trans (Nat.le_of_eq ?_) (Nat.le_max_right _ _)⟩
      have version := inv₀.stored_restricts.version
      rw [← same, history_version, Redis.patches, List.length_map] at version
      exact version.symm

end Call

end

end Xair
