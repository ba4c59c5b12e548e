import Xair.Store.Calls

/-!
# The document layout

Everything is one document under one key, so a transaction that sees its key
unchanged has read the whole present state.
-/

namespace Xair

open Library

section

variable [PyText]

namespace Call

variable {K : Call}

theorem entries_document {s : Redis} (inv : K.Inv s) (document : K.cfg.layout = .document) :
    EntriesOk s.patches (decodePreds s.doc) := by
  have entries := inv.entries
  rw [document] at entries
  exact entries

/-! ### Updates -/

/-- The effect of the transaction of `_update_redis`. -/
theorem commit_document {s : Redis} (inv : K.Inv s) (document : K.cfg.layout = .document) {patch : Members}
    (wf : patch.WF) (mine : K.job.patch = some patch) (fresh : K.faultless → K.ticket ∉ s.tickets) {now : ℚ} {snapshot : Snapshot} {preds : Dict Str Entry}
    (applied : apply K.cfg.retention now (decode s.doc) patch (decodePreds s.doc) = .ok (snapshot, preds)) :
    K.Inv (s.commit [.setDoc ⟨snapshot, preds⟩] (some (K.ticket, patch))) ∧
      K.Step s (s.commit [.setDoc ⟨snapshot, preds⟩] (some (K.ticket, patch))) ∧
      snapshot.version = s.patches.length + 1 := by
  have content := inv.decode_doc (by rw [document]; simp)
  have entries := entries_document inv document
  obtain ⟨preds', result, follow⟩ := apply_spec K.cfg.retention now wf
    (show Registry (decode s.doc).context (decodePreds s.doc) from content ▸ entries.registry)
  obtain ⟨rfl, rfl⟩ := Prod.mk.inj (Except.ok.inj (applied.symm.trans result))
  refine ⟨inv.update wf (by rw [document]; simp) fresh rfl ?_ ?_ (by rw [document]; simp) rfl, ?_, ?_⟩
  · rw [document]
    change (decode s.doc).merge patch = history (List.map Prod.snd (s.updates ++ [(K.ticket, patch)]))
    rw [List.map_append, List.map_singleton, history_append, content]
    rfl
  · rw [document]
    intro expr new stored
    obtain ⟨old, value, before, evaluated, follows⟩ := follow expr new stored
    rw [content] at evaluated follows
    exact (entries expr old before).follows (by rw [history_append]; exact evaluated)
      (by rw [history_version] at follows; exact follows)
  · refine ⟨⟨[(K.ticket, patch)], rfl, by simp [mine]⟩, Redis.log_of_eq (s.logPart_commit _ _), ?_, ?_,
      fun r => Guarded.of_eq rfl rfl⟩
    · exact Guarded.of_lt (by rw [document]; exact Nat.lt_succ_self _)
    · exact Guarded.of_eq rfl rfl
  · change (decode s.doc).version + 1 = _
    rw [content, history_version]

theorem runs_updateDocument (document : K.cfg.layout = .document) {patch : Members} (wf : patch.WF)
    (mine : K.job.patch = some patch) {l : StoreObject} {s : Redis} (inv : K.Inv s) (pending : K.Pending l s) :
    K.Runs (updateDocument K.cfg K.ticket patch) l s (K.Committed patch) K.Pending := by
  refine runs_retry stable_pending (fun l s inv pending => ?_) _ _ _ inv pending
  refine runs_ask_bind stable_pending inv pending (fun _ => rfl) fun s₁ s₂ _ _ _ rely₂ inv₂ pending₂ => ?_
  have watching : K.Watching [.doc] [(.doc, s₁.revs .doc)] s₂ := ⟨s₁, rely₂, rfl⟩
  refine runs_ask_bind stable_pending inv₂ pending₂ (fun _ => rfl) fun s₃ s₄ rely₃ _ _ rely₄ inv₄ pending₄ => ?_
  refine runs_time_bind stable_pending inv₄ pending₄ fun now s₅ rely₅ inv₅ pending₅ => ?_
  refine runs_liftPy_bind stable_pending inv₅ pending₅ fun out applied s₆ rely₆ inv₆ pending₆ => ?_
  obtain ⟨snapshot, preds⟩ := out
  -- the transaction finds the document that was read
  have effect : ∀ s', K.Rely s₆ s' → K.Inv s' → s'.unchanged [(.doc, s₁.revs .doc)] = true →
      K.Inv (s'.commit [.setDoc ⟨snapshot, preds⟩] (some (K.ticket, patch))) ∧
      K.Step s' (s'.commit [.setDoc ⟨snapshot, preds⟩] (some (K.ticket, patch))) ∧
      snapshot.version = s'.patches.length + 1 := fun s' rely inv' won => by
    have same := (watching.rely rely₃).snapshotPart_eq (rely₄.trans (rely₅.trans (rely₆.trans rely))) won
      (by simp [document, Layout.snapshotKey])
    have doc : s'.doc = s₃.doc := congrArg Prod.fst same
    exact commit_document inv' document wf mine (stable_pending _ _ _ pending₆ rely).absent (by rw [doc]; exact applied)
  refine runs_execute_bind stable_pending inv₆ pending₆ (fun s' rely inv' won => ?_) fun s' s'' rely inv' won later inv'' => ?_
  · obtain ⟨after, step, _⟩ := effect s' rely inv' won
    exact ⟨after, step, fun faulty =>
      ⟨(pending₆.idx.advance rely).advance step, pending₆.lastIo, fun exact_ => absurd exact_ faulty⟩⟩
  · obtain ⟨_, step, version⟩ := effect s' rely inv' won
    refine runs_modify_bind inv'' fun s₇ rely₇ _ => runs_pure fun s₈ rely₈ _ => ?_
    rw [version]
    exact (committed_last (l := { storeView snapshot l with preds := preds, lastIo := true })
      ((pending₆.idx.advance rely).advance step) rfl rfl).rely (later.trans (rely₇.trans rely₈))

/-! ### Registrations -/

/-- A registration rewrites the document with the snapshot it has. -/
theorem commit_registerDocument {s : Redis} (inv : K.Inv s) (document : K.cfg.layout = .document) {now : ℚ}
    {exprs : List Str} {new : List (Str × Entry)}
    (registered : registrations (decode s.doc).version (decode s.doc).context now (decodePreds s.doc) exprs = .ok new) :
    K.Inv (s.commit [.setDoc ⟨decode s.doc, (decodePreds s.doc).insertAll new⟩] none) ∧
      K.Step s (s.commit [.setDoc ⟨decode s.doc, (decodePreds s.doc).insertAll new⟩] none) ∧
      EntriesOk s.patches ((decodePreds s.doc).insertAll new) := by
  have content := inv.decode_doc (by rw [document]; simp)
  have before := entries_document inv document
  rw [content, history_version] at registered
  have entries := before.insertAll (entriesOk_registrations before (fun _ _ => rfl) registered)
  have updates : (s.commit [.setDoc ⟨decode s.doc, (decodePreds s.doc).insertAll new⟩] none).updates = s.updates :=
    List.append_nil _
  have patches : (s.commit [.setDoc ⟨decode s.doc, (decodePreds s.doc).insertAll new⟩] none).patches = s.patches := by
    rw [Redis.patches, updates, Redis.patches]
  refine ⟨⟨by rw [patches]; exact inv.wf, by rw [patches]; exact inv.plain, ?_, ?_, by rw [document]; simp, ?_,
    by rw [patches]; exact inv.log⟩, ?_, entries⟩
  · rw [document, Redis.Content, patches]
    exact content
  · rw [document, patches]
    exact entries
  · rw [Redis.tickets, updates]
    exact inv.once
  · refine ⟨⟨[], updates.trans (List.append_nil _).symm, by simp⟩, Redis.log_of_eq (s.logPart_commit _ _), ?_,
      Guarded.of_eq rfl rfl, fun r => Guarded.of_eq rfl rfl⟩
    exact Guarded.of_lt (by rw [document]; exact Nat.lt_succ_self _)

theorem runs_registerDocument (document : K.cfg.layout = .document) (exprs : List Str) {l : StoreObject} {s : Redis}
    (inv : K.Inv s) (idx : IdxOk l s) :
    K.Runs (registerDocument K.cfg exprs) l s (fun _ => K.Registered exprs) IdxOk := by
  have whole : K.cfg.layout ≠ .shard := by rw [document]; simp
  refine runs_ask_bind stable_idx inv idx (fun _ => rfl) fun s₁ s₂ rely₁ inv₁ _ rely₂ inv₂ idx₂ => ?_
  refine runs_time_bind stable_idx inv₂ idx₂ fun now s₃ rely₃ inv₃ idx₃ => ?_
  refine runs_ite (fun _ => ?_) fun _ => ?_
  · refine runs_modify fun s₄ rely₄ _ => ?_
    exact (registered_whole inv₁ whole exprs (idx.advance rely₁) (entries_document inv₁ document)).advance
      (rely₂.trans (rely₃.trans rely₄))
  refine runs_retry stable_idx (fun l s inv idx => ?_) _ _ _ inv₃ idx₃
  refine runs_ask_bind stable_idx inv idx (fun _ => rfl) fun s₁ s₂ rely₁ inv₁ _ rely₂ inv₂ idx₂ => ?_
  have watching : K.Watching [.doc] [(.doc, s₁.revs .doc)] s₂ := ⟨s₁, rely₂, rfl⟩
  refine runs_ask_bind stable_idx inv₂ idx₂ (fun _ => rfl) fun s₃ s₄ rely₃ inv₃ _ rely₄ inv₄ idx₄ => ?_
  refine runs_time_bind stable_idx inv₄ idx₄ fun now s₅ rely₅ inv₅ idx₅ => ?_
  refine runs_ite (fun _ => ?_) fun _ => ?_
  · refine runs_ask_bind stable_idx inv₅ idx₅ (fun _ => rfl) fun s₆ s₇ rely₆ _ _ rely₇ inv₇ idx₇ => ?_
    refine runs_modify fun s₈ rely₈ _ => ?_
    exact (registered_whole inv₃ whole exprs (((idx.advance rely₁).advance rely₂).advance rely₃)
      (entries_document inv₃ document)).advance
      (rely₄.trans (rely₅.trans (rely₆.trans (rely₇.trans rely₈))))
  refine runs_liftPy_bind stable_idx inv₅ idx₅ fun new registered s₆ rely₆ inv₆ idx₆ => ?_
  -- the transaction finds the document that was read
  have found : ∀ s', K.Rely s₆ s' → s'.unchanged [(.doc, s₁.revs .doc)] = true → s'.doc = s₃.doc :=
    fun s' rely won => congrArg Prod.fst ((watching.rely rely₃).snapshotPart_eq
      (rely₄.trans (rely₅.trans (rely₆.trans rely))) won (by simp [document, Layout.snapshotKey]))
  refine runs_execute_bind stable_idx inv₆ idx₆ (fun s' rely inv' won => ?_) fun s' s'' rely inv' won later inv'' => ?_
  all_goals
    have doc := found s' rely won
    obtain ⟨after, step, entries⟩ := commit_registerDocument inv' document (by rw [doc]; exact registered)
    rw [doc] at after step entries
  · exact ⟨after, step, fun _ => (idx₆.advance rely).advance step⟩
  · refine runs_modify fun s₇ rely₇ _ => ?_
    have shown := registered_whole inv' whole exprs (idx₆.advance rely) entries
    rw [doc] at shown
    exact (shown.advance step).advance (later.trans rely₇)

end Call

end

end Xair
