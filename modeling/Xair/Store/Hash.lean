import Xair.Store.Document
import Xair.Store.Registry

/-!
# The hash layout

The snapshot is one document, the registry a hash next to it; transactions on the
snapshot watch both.
-/

namespace Xair

open Library

section

variable [PyText]

namespace Call

variable {K : Call} {watched : List (WatchKey × Nat)} {l : StoreObject} {s : Redis}

/-! ### Updates -/

theorem runs_changedHash (hash : K.cfg.layout = .hash) {patch : Members} (wf : patch.WF) {changed : List Str}
    {merged : Snapshot} (inv : K.Inv s) (pending : K.Pending l s) (watching : K.Watching [.doc, .preds] watched s)
    (found : ∀ z, K.Rely s z → K.Inv z → z.unchanged watched = true →
      changed = changedPaths (history z.patches).context patch ∧ merged = history (z.patches ++ [patch])) :
    K.Runs (changedHash changed merged) l s (fun updates l' s' => K.Rely s s' ∧ K.Pending l' s' ∧
      K.Settles patch watched updates s') K.Pending := by
  have apart : K.cfg.layout ≠ .document := by rw [hash]; simp
  have facts : ∀ z, K.Rely s z → K.Inv z → z.unchanged watched = true →
      changed = changedPaths (history z.patches).context patch ∧ merged.version = z.patches.length + 1 ∧
        ∀ e, exprRoot e ∈ (Changed.ofPaths changed).roots →
          truth e merged.context = truth e (history (z.patches ++ [patch])).context := fun z rely inv' won => by
    obtain ⟨paths, rfl⟩ := found z rely inv' won
    exact ⟨paths, by rw [history_version, List.length_append, List.length_singleton], fun _ _ => rfl⟩
  refine runs_ite (fun none => runs_pure fun s' rely _ => ⟨rely, stable_pending _ _ _ pending rely, ?_⟩) fun _ => ?_
  · subst none
    exact settles_reEvaluated (s := s) apart wf _ [] merged.context (fun z _ _ e => by simp [Changed.ofPaths])
      watching (by simp) rely rfl fun z later => facts z (rely.trans later)
  refine runs_bind inv ((runs_candidates inv pending watching (by simp)).imp (fun cands l₁ s₁ _ ends inv₁ => ?_)
    fun _ _ _ hold => hold)
  obtain ⟨rely₁, pending₁, names⟩ := ends
  refine runs_ite (fun none => runs_pure fun s' rely _ => ⟨rely₁.trans rely, stable_pending _ _ _ pending₁ rely, ?_⟩) fun _ => ?_
  · subst none
    exact settles_reEvaluated apart wf _ [] merged.context names (watching.rely rely₁) (by simp) rely
      rfl fun z later => facts z (rely₁.trans (rely.trans later))
  refine runs_ask_bind stable_pending inv₁ pending₁ (fun _ => rfl) fun s₂ s₃ rely₂ _ _ rely₃ inv₃ pending₃ => ?_
  refine runs_liftPy stable_pending pending₃ fun updates evaluated s₄ rely₄ _ pending₄ =>
    ⟨rely₁.trans (rely₂.trans (rely₃.trans rely₄)), pending₄, ?_⟩
  exact (settles_reEvaluated apart wf _ _ _ names (watching.rely rely₁) (by simp) rely₂ evaluated fun z later =>
    facts z (rely₁.trans (rely₂.trans later))).rely (rely₃.trans rely₄)

theorem runs_updateHash (hash : K.cfg.layout = .hash) {patch : Members} (wf : patch.WF)
    (mine : K.job.patch = some patch) (inv : K.Inv s) (pending : K.Pending l s) : K.Runs (updateHash K.ticket patch) l s (K.Committed patch) K.Pending := by
  have apart : K.cfg.layout ≠ .document := by rw [hash]; simp
  have whole : K.cfg.layout ≠ .shard := by rw [hash]; simp
  refine runs_retry stable_pending (fun l s inv pending => ?_) _ _ _ inv pending
  refine runs_ask_bind stable_pending inv pending (fun _ => rfl) fun s₁ s₂ _ _ _ rely₂ inv₂ pending₂ => ?_
  have watching : K.Watching [.doc, .preds] [(.doc, s₁.revs .doc), (.preds, s₁.revs .preds)] s₂ := ⟨s₁, rely₂, rfl⟩
  refine runs_ask_bind stable_pending inv₂ pending₂ (fun _ => rfl) fun s₃ s₄ rely₃ inv₃ _ rely₄ inv₄ pending₄ => ?_
  -- a transaction that wins finds the document that was read
  have found : ∀ z, K.Rely s₄ z → z.unchanged [(.doc, s₁.revs .doc), (.preds, s₁.revs .preds)] = true → z.doc = s₃.doc :=
    fun z rely won => congrArg Prod.fst ((watching.rely rely₃).snapshotPart_eq (rely₄.trans rely) won
      (by simp [hash, Layout.snapshotKey]))
  refine runs_bind inv₄ ((runs_changedHash hash wf inv₄ pending₄ ((watching.rely rely₃).rely rely₄)
    fun z rely invz won => ?_).imp (fun updates l₅ s₅ _ ends inv₅ => ?_) fun _ _ _ hold => hold)
  · have content := invz.decode_doc whole
    rw [found z rely won] at content
    exact ⟨by rw [← content]; rfl, by rw [history_append, ← content]; rfl⟩
  obtain ⟨rely₅, pending₅, settles⟩ := ends
  have effect : ∀ s', K.Rely s₅ s' → K.Inv s' → s'.unchanged [(.doc, s₁.revs .doc), (.preds, s₁.revs .preds)] = true →
      K.Inv (s'.commit ([.setDoc ⟨(decode s₃.doc).merge patch, Dict.empty⟩] ++ hsetPredsIf updates) (some (K.ticket, patch))) ∧
      K.Step s' (s'.commit ([.setDoc ⟨(decode s₃.doc).merge patch, Dict.empty⟩] ++ hsetPredsIf updates)
        (some (K.ticket, patch))) ∧
      ((decode s₃.doc).merge patch).version = s'.patches.length + 1 := fun s' rely inv' won => by
    have content := inv'.decode_doc whole
    rw [found s' (rely₅.trans rely) won] at content
    obtain ⟨after, step⟩ := commit_update (K := K) [.setDoc ⟨(decode s₃.doc).merge patch, Dict.empty⟩] rfl rfl rfl
      (by rw [hash]; exact Nat.lt_succ_self (s'.revs .doc)) apart inv' wf mine (by rw [hash]; simp)
      (stable_pending _ _ _ pending₅ rely).absent (settles s' rely inv' won) (by
        rw [hash]
        change (decode s₃.doc).merge patch = history (List.map Prod.snd (s'.updates ++ [(K.ticket, patch)]))
        rw [List.map_append, List.map_singleton, history_append, content]
        rfl)
    exact ⟨after, step, by rw [content]; exact congrArg (· + 1) (history_version _)⟩
  refine runs_execute_bind stable_pending inv₅ pending₅ (fun s' rely inv' won => ?_) fun s' s'' rely inv' won later inv'' => ?_
  · obtain ⟨after, step, _⟩ := effect s' rely inv' won
    exact ⟨after, step, fun faulty =>
      ⟨(pending₅.idx.advance rely).advance step, pending₅.lastIo, fun exact_ => absurd exact_ faulty⟩⟩
  · obtain ⟨_, step, version⟩ := effect s' rely inv' won
    refine runs_modify_bind inv'' fun s₇ rely₇ _ => runs_pure fun s₈ rely₈ _ => ?_
    rw [show (Snapshot.merge (decode (Redis.exec .pipeGetDoc s₃).1) patch).version = s'.patches.length + 1 from version]
    exact (committed_last (l := { storeView ((decode s₃.doc).merge patch) l₅ with lastIo := true })
      ((pending₅.idx.advance rely).advance step) rfl rfl).rely (later.trans (rely₇.trans rely₈))

/-! ### Registrations -/

theorem runs_readHash (exprs : List Str) (inv : K.Inv s) {held : StoreObject → Redis → Prop}
    (failed : ¬ K.faultless → ∀ s', K.Rely s s' → held l s') :
    K.Runs (readHash exprs) l s (fun out l' s' => l' = l ∧ ∃ s₁, K.Rely s s₁ ∧ K.Inv s₁ ∧ K.Rely s₁ s' ∧
      out = (s₁.doc, Dict.empty.insertAll (present exprs (exprs.map s₁.preds.get)))) held :=
  runs_bind inv (runs_read (fun _ => rfl) (fun s₁ _ rely₁ inv₁ _ rely₂ _ _ =>
    runs_pure fun _ rely₃ _ => ⟨rfl, s₁, rely₁, inv₁, rely₂.trans rely₃, rfl⟩) failed)

theorem runs_registerHash (hash : K.cfg.layout = .hash) (scanned : List (Str × Entry)) (exprs : List Str)
    (inv : K.Inv s) (idx : IdxOk l s) :
    K.Runs (registerHash K.cfg scanned exprs) l s (fun _ => K.Registered exprs) IdxOk := by
  have apart : K.cfg.layout ≠ .document := by rw [hash]; simp
  have whole : K.cfg.layout ≠ .shard := by rw [hash]; simp
  refine runs_bind inv ((runs_gcIfDue scanned inv idx).imp (fun _ l s _ idx inv => ?_) fun _ _ _ hold => hold)
  refine runs_bind inv ((runs_readHash exprs inv fun _ _ => idx.advance).imp (fun out l₁ s₁ _ ends inv₁ => ?_) fun _ _ _ hold => hold)
  obtain ⟨rfl, s₀, rely₀, inv₀, rely₁, rfl⟩ := ends
  have idx₀ := idx.advance rely₀
  refine runs_time_bind stable_idx inv₁ (idx₀.advance rely₁) fun now s₂ rely₂ inv₂ idx₂ => ?_
  refine runs_ite (fun _ => runs_modify fun s₃ rely₃ _ => ?_) fun _ => ?_
  · exact (registered_whole inv₀ whole exprs idx₀ ((inv₀.registered apart).present exprs)).advance
      (rely₁.trans (rely₂.trans rely₃))
  refine runs_retry stable_idx (fun l s inv idx => ?_) _ _ _ inv₂ idx₂
  refine runs_ask_bind stable_idx inv idx (fun _ => rfl) fun s₁ s₂ rely₁ inv₁ _ rely₂ inv₂ idx₂ => ?_
  have watching : K.Watching [.doc, .preds] [(.doc, s₁.revs .doc), (.preds, s₁.revs .preds)] s₂ := ⟨s₁, rely₂, rfl⟩
  refine runs_ask_bind stable_idx inv₂ idx₂ (fun _ => rfl) fun s₃ s₄ rely₃ inv₃ _ rely₄ inv₄ idx₄ => ?_
  refine runs_ask_bind stable_idx inv₄ idx₄ (fun _ => rfl) fun s₅ s₆ rely₅ inv₅ _ rely₆ inv₆ idx₆ => ?_
  refine runs_time_bind stable_idx inv₆ idx₆ fun now s₇ rely₇ inv₇ idx₇ => ?_
  refine runs_liftPy_bind stable_idx inv₇ idx₇ fun new registered s₈ rely₈ inv₈ idx₈ => ?_
  have effect : ∀ s', K.Rely s₈ s' → K.Inv s' → s'.unchanged [(.doc, s₁.revs .doc), (.preds, s₁.revs .preds)] = true →
      s'.doc = s₃.doc ∧ s'.preds = s₅.preds ∧
      K.Inv (s'.commit (registryWrites (Dict.empty.insertAll (present exprs (exprs.map s₅.preds.get))) exprs new) none) ∧
      K.Step s' (s'.commit (registryWrites (Dict.empty.insertAll (present exprs (exprs.map s₅.preds.get))) exprs new) none) ∧
      EntriesOk s'.patches (Dict.empty.insertAll new) := fun s' rely inv' won => by
    have later := rely₆.trans (rely₇.trans (rely₈.trans rely))
    have doc : s'.doc = s₃.doc := congrArg Prod.fst ((watching.rely rely₃).snapshotPart_eq
      (rely₄.trans (rely₅.trans later)) won (by simp [hash, Layout.snapshotKey]))
    have preds : s'.preds = s₅.preds := congrArg Prod.fst (((watching.rely rely₃).rely (rely₄.trans rely₅)).registryPart_eq
      later won (by simp))
    have content := inv'.decode_doc whole
    refine ⟨doc, preds, ?_⟩
    rw [← preds]
    refine commit_register apart inv' (decode s₃.doc).context now (fun _ _ => by rw [← doc, content]) ?_
    rw [preds, show s'.patches.length = (decode s₃.doc).version by rw [← doc, content, history_version]]
    exact registered
  refine runs_execute_bind stable_idx inv₈ idx₈ (fun s' rely inv' won => ?_) fun s' s'' rely inv' won later inv'' => ?_
  · obtain ⟨_, _, after, step, _⟩ := effect s' rely inv' won
    exact ⟨after, step, fun _ => (idx₈.advance rely).advance step⟩
  · obtain ⟨doc, _, _, step, entries⟩ := effect s' rely inv' won
    refine runs_modify fun s₉ rely₉ _ => ?_
    have shown := registered_whole inv' whole exprs (idx₈.advance rely) entries
    rw [doc] at shown
    exact (shown.advance step).advance (later.trans rely₉)

end Call

end

end Xair
