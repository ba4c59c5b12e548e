import Xair.Store.Calls

/-!
# The registry of the hash and shard layouts

Predicates are kept apart from the snapshot. An update asks for the candidates
under the roots it changes; the index that names them may be outdated, but only
in a transaction that is refused.
-/

namespace Xair

open Library

theorem mem_present {α : Type} {keys : List Str} {f : Str → Option α} {k : Str} {v : α} :
    (k, v) ∈ present keys (keys.map f) ↔ k ∈ keys ∧ f k = some v := by
  rw [present, List.zip_map_right, List.mem_filterMap]
  constructor
  · rintro ⟨item, member, same⟩
    obtain ⟨pair, listed, rfl⟩ := List.mem_map.mp member
    obtain ⟨value, stored, rfl, rfl⟩ : ∃ value, f pair.2 = some value ∧ pair.1 = k ∧ value = v := by
      simpa [Option.map_eq_some_iff] using same
    have twins : pair.1 = pair.2 := by
      obtain ⟨n, bound, rfl⟩ := List.mem_iff_getElem.mp listed
      simp
    exact ⟨(List.of_mem_zip listed).1, twins ▸ stored⟩
  · rintro ⟨member, stored⟩
    refine ⟨(k, f k), List.mem_map.mpr ⟨(k, k), ?_, rfl⟩, by simp [stored]⟩
    obtain ⟨n, bound, rfl⟩ := List.mem_iff_getElem.mp member
    exact List.mem_iff_getElem.mpr ⟨n, by simpa using bound, by simp⟩

theorem foldl_hincrPredVer (roots : List Str) (s : Redis) :
    ∃ vers, (roots.map Write.hincrPredVer).foldl Redis.write s = { s with predVers := vers } ∧
      (∀ r, (s.predVers.get r).getD 0 ≤ (vers.get r).getD 0) ∧
      (∀ r ∈ roots, (s.predVers.get r).getD 0 < (vers.get r).getD 0) ∧ ∀ r ∉ roots, vers.get r = s.predVers.get r := by
  induction roots generalizing s with
  | nil => exact ⟨s.predVers, rfl, fun _ => Nat.le_refl _, fun _ member => absurd member List.not_mem_nil, fun _ _ => rfl⟩
  | cons r₁ roots ih =>
    obtain ⟨vers, result, monotone, moved, kept⟩ := ih (s.write (.hincrPredVer r₁))
    have first : ∀ r, ((s.write (.hincrPredVer r₁)).predVers.get r) =
        if r = r₁ then some ((s.predVers.get r₁).getD 0 + 1) else s.predVers.get r := fun r => Dict.get_insert _ _ _ _
    have grown : ∀ r, (s.predVers.get r).getD 0 ≤ ((s.write (.hincrPredVer r₁)).predVers.get r).getD 0 := fun r => by
      rw [first]
      split
      · rename_i same
        simp [same]
      · exact Nat.le_refl _
    refine ⟨vers, result, fun r => Nat.le_trans (grown r) (monotone r), fun r member => ?_, fun r absent => ?_⟩
    · rcases List.mem_cons.mp member with rfl | later
      · have next := monotone r
        rw [first, if_pos rfl, Option.getD_some] at next
        omega
      · exact Nat.lt_of_le_of_lt (grown r) (moved r later)
    · rw [List.mem_cons, not_or] at absent
      rw [kept r absent.2, first, if_neg absent.1]

theorem get_insertAll_present {α : Type} {keys : List Str} {f : Str → Option α} {k : Str} {v : α} :
    (Dict.empty.insertAll (present keys (keys.map f))).get k = some v ↔ k ∈ keys ∧ f k = some v := by
  constructor
  · intro stored
    rcases Dict.get_insertAll_cases stored with member | ⟨_, none⟩
    · exact mem_present.mp member
    · cases none
  · rintro ⟨member, value⟩
    have contained : (Dict.empty.insertAll (present keys (keys.map f))).contains k = true := by
      rw [Dict.contains_insertAll]
      exact Or.inr (List.mem_map.mpr ⟨(k, v), mem_present.mpr ⟨member, value⟩, rfl⟩)
    obtain ⟨w, stored⟩ := Option.isSome_iff_exists.mp contained
    rcases Dict.get_insertAll_cases stored with here | ⟨_, none⟩
    · rw [Dict.get] at stored ⊢
      rw [stored, ← (mem_present.mp here).2, value]
    · cases none

section

variable [PyText]

theorem EntriesOk.present {patches : List Members} {preds : Dict Str Entry} (h : EntriesOk patches preds)
    (exprs : List Str) : EntriesOk patches (Dict.empty.insertAll (present exprs (exprs.map preds.get))) :=
  fun expr entry stored => h expr entry (get_insertAll_present.mp stored).2

/-! ### Re-evaluation of candidates -/

/-- What is new comes from a related candidate, and every related candidate was evaluated. -/
theorem reEvaluateCandidates_spec {ch : Changed} {merged : Members} {version : Nat} {items updates : List (Str × Entry)}
    (evaluated : reEvaluateCandidates ch merged version items = .ok updates) :
    (∀ item ∈ updates, ∃ entry, (item.1, entry) ∈ items ∧ reEvaluate merged version item.1 entry = .ok (some item.2)) ∧
      ∀ item ∈ items, ch.related (exprPath item.1) = true → item.1 ∉ updates.map Prod.fst →
        reEvaluate merged version item.1 item.2 = .ok none := by
  induction items generalizing updates with
  | nil =>
    obtain rfl := Except.ok.inj evaluated
    exact ⟨fun _ member => absurd member List.not_mem_nil, fun _ member => absurd member List.not_mem_nil⟩
  | cons item rest ih =>
    obtain ⟨expr, entry⟩ := item
    rw [reEvaluateCandidates] at evaluated
    by_cases rel : ch.related (exprPath expr) = true
    · rw [if_pos rel] at evaluated
      cases first : reEvaluate merged version expr entry with
      | error fault => rw [first] at evaluated; cases evaluated
      | ok changed =>
        cases later : reEvaluateCandidates ch merged version rest with
        | error fault => rw [first, later] at evaluated; cases evaluated
        | ok others =>
          rw [first, later] at evaluated
          obtain rfl := Except.ok.inj evaluated
          obtain ⟨origin, silent⟩ := ih later
          refine ⟨fun item member => ?_, fun item member related absent => ?_⟩
          · rcases List.mem_append.mp member with here | old
            · obtain ⟨new, some_, rfl⟩ := List.mem_map.mp here
              obtain rfl := Option.mem_toList.mp some_
              exact ⟨entry, List.mem_cons_self, first⟩
            · obtain ⟨entry', listed, result⟩ := origin item old
              exact ⟨entry', List.mem_cons_of_mem _ listed, result⟩
          · rw [List.map_append, List.mem_append, not_or] at absent
            rcases List.mem_cons.mp member with rfl | listed
            · cases changed with
              | none => exact first
              | some new => exact absurd (by simp) absent.1
            · exact silent item listed related absent.2
    · rw [if_neg rel] at evaluated
      obtain ⟨origin, silent⟩ := ih evaluated
      refine ⟨fun item member => ?_, fun item member related absent => ?_⟩
      · obtain ⟨entry', listed, result⟩ := origin item member
        exact ⟨entry', List.mem_cons_of_mem _ listed, result⟩
      · rcases List.mem_cons.mp member with rfl | listed
        · exact absurd related rel
        · exact silent item listed related absent

/-- The new entries make the registry correct after the patch, if the candidates hold every
predicate under a changed root. -/
theorem entriesOk_reEvaluateCandidates {patches : List Members} {patch : Members} (wf : patch.WF) {preds : Dict Str Entry}
    (before : EntriesOk patches preds) {items updates : List (Str × Entry)} {full : Members}
    (stored : ∀ item ∈ items, preds.get item.1 = some item.2)
    (complete : ∀ expr entry, preds.get expr = some entry →
      exprRoot expr ∈ (Changed.ofPaths (changedPaths (history patches).context patch)).roots → (expr, entry) ∈ items)
    (same : ∀ item ∈ items, truth item.1 full = truth item.1 (history (patches ++ [patch])).context)
    (evaluated : reEvaluateCandidates (.ofPaths (changedPaths (history patches).context patch)) full
      (patches.length + 1) items = .ok updates) :
    EntriesOk (patches ++ [patch]) (preds.insertAll updates) ∧
      ∀ expr, (preds.insertAll updates).contains expr = true ↔ preds.contains expr = true := by
  obtain ⟨origin, silent⟩ := reEvaluateCandidates_spec evaluated
  -- what the evaluation of a candidate says about the merged context
  have follows : ∀ item ∈ items, ∀ out, reEvaluate full (patches.length + 1) item.1 item.2 = .ok out →
      EntryOk (patches ++ [patch]) item.1 (out.getD item.2) := by
    intro item member out result
    have ok := before item.1 item.2 (stored item member)
    obtain ⟨value, after⟩ := truth_isOk item.1 ok.now full
    obtain ⟨out', result', follows⟩ := follows_reEvaluate (patches.length + 1) item.2 after
    obtain rfl := Except.ok.inj (result.symm.trans result')
    exact ok.follows (by rw [← same item member]; exact after) follows
  refine ⟨fun expr new present => ?_, fun expr => ?_⟩
  · rcases Dict.get_insertAll_cases present with changed | ⟨absent, old⟩
    · obtain ⟨entry, member, result⟩ := origin _ changed
      exact follows _ member _ result
    · by_cases rel : (Changed.ofPaths (changedPaths (history patches).context patch)).related (exprPath expr) = true
      · have member := complete expr new old (Changed.root_mem_of_related rel)
        exact follows _ member _ (silent _ member rel absent)
      · have unchanged := truth_merge_of_not_related wf (Bool.eq_false_iff.mpr rel)
        rw [← history_append] at unchanged
        exact (before expr new old).follows (unchanged.trans (before expr new old).now) (Entry.follows_self rfl)
  · rw [Dict.contains_insertAll]
    refine ⟨fun either => either.elim id fun member => ?_, Or.inl⟩
    obtain ⟨item, changed, rfl⟩ := List.mem_map.mp member
    obtain ⟨entry, listed, _⟩ := origin _ changed
    rw [Dict.contains, stored _ listed]
    rfl

/-! ### Writes to the registry -/

theorem foldl_sadd (exprs : List Str) (s : Redis) :
    ∃ sets, (exprs.map fun e => Write.sadd (exprRoot e) e).foldl Redis.write s = { s with predRoots := sets } ∧
      (∀ r e, e ∈ sets r ↔ e ∈ s.predRoots r ∨ (e ∈ exprs ∧ exprRoot e = r)) ∧
      ∀ r, (∀ e ∈ exprs, exprRoot e = r → e ∈ s.predRoots r) → sets r = s.predRoots r := by
  induction exprs generalizing s with
  | nil => exact ⟨s.predRoots, rfl, fun r e => by simp, fun _ _ => rfl⟩
  | cons e₁ exprs ih =>
    obtain ⟨sets, result, members, kept⟩ := ih (s.write (.sadd (exprRoot e₁) e₁))
    have added : ∀ r e, e ∈ (s.write (.sadd (exprRoot e₁) e₁)).predRoots r ↔
        e ∈ s.predRoots r ∨ (e = e₁ ∧ exprRoot e₁ = r) := fun r e => by
      simp only [Redis.write]
      by_cases here : r = exprRoot e₁ ∧ e₁ ∉ s.predRoots r
      · rw [if_pos here, List.mem_append, List.mem_singleton]
        exact or_congr_right ⟨fun same => ⟨same, here.1.symm⟩, And.left⟩
      · rw [if_neg here]
        refine ⟨Or.inl, fun either => either.elim id ?_⟩
        rintro ⟨rfl, rfl⟩
        exact not_not.mp fun absent => here ⟨rfl, absent⟩
    refine ⟨sets, result, fun r e => ?_, fun r present => ?_⟩
    · rw [members, added, List.mem_cons]
      constructor
      · rintro ((old | ⟨rfl, root⟩) | ⟨later, root⟩)
        · exact Or.inl old
        · exact Or.inr ⟨Or.inl rfl, root⟩
        · exact Or.inr ⟨Or.inr later, root⟩
      · rintro (old | ⟨rfl | later, root⟩)
        · exact Or.inl (Or.inl old)
        · exact Or.inl (Or.inr ⟨rfl, root⟩)
        · exact Or.inr ⟨later, root⟩
    · have same : (s.write (.sadd (exprRoot e₁) e₁)).predRoots r = s.predRoots r :=
        if_neg fun new => new.2 (present e₁ List.mem_cons_self new.1.symm)
      rw [kept r fun e member root => by rw [same]; exact present e (List.mem_cons_of_mem _ member) root, same]

/-- A change of the registry alone. -/
structure RegistryMoved (s c : Redis) : Prop where
  snapshot : c.snapshotPart = s.snapshotPart
  revs : ∀ k, k ≠ .preds → c.revs k = s.revs k
  moved : s.revs .preds < c.revs .preds
  log : c.logPart = s.logPart
  indexed : c.Indexed
  index : ∀ r, Guarded (Redis.counter · r) (Redis.indexPart · r) s c

theorem RegistryMoved.keeps {layout : Layout} {faultless : Prop} {s c : Redis} (h : RegistryMoved s c)
    (inv : StoreInv layout faultless s) (apart : layout ≠ .document) (entries : EntriesOk s.patches c.preds)
    (mine : Effect → Prop) : StoreInv layout faultless c ∧ Advance layout mine s c := by
  have updates : c.updates = s.updates := congrArg (fun part => part.2.2.2) h.snapshot
  have patches : c.patches = s.patches := congrArg (List.map Prod.snd) updates
  have key : layout.snapshotKey ≠ .preds := by cases layout <;> simp [Layout.snapshotKey]
  refine ⟨⟨by rw [patches]; exact inv.wf, by rw [patches]; exact inv.plain, Redis.content_congr h.snapshot inv.content, ?_,
    fun _ => h.indexed, by rw [Redis.tickets, updates]; exact inv.once,
    by rw [patches, (Prod.mk.inj h.log).1, (Prod.mk.inj h.log).2]; exact inv.log⟩,
    ⟨[], by rw [updates, List.append_nil], by simp⟩, Redis.log_of_eq h.log, Guarded.of_eq (h.revs _ key) h.snapshot,
    Guarded.of_lt h.moved, h.index⟩
  rw [patches]
  cases layout with
  | document => exact absurd rfl apart
  | hash => exact entries
  | shard => exact entries

theorem StoreInv.registered {layout : Layout} {faultless : Prop} {s : Redis} (inv : StoreInv layout faultless s)
    (apart : layout ≠ .document) : EntriesOk s.patches s.preds := by
  have entries := inv.entries
  cases layout with
  | document => exact absurd rfl apart
  | hash => exact entries
  | shard => exact entries

/-- A registration: the new predicates are indexed, and the roots they are new to are counted on. -/
theorem registryMoved_registryWrites {s : Redis} (indexed : s.Indexed) {cur : Dict Str Entry} {exprs : List Str}
    (known : ∀ e ∈ exprs, cur.contains e = s.preds.contains e) {new : List (Str × Entry)} (keys : new.map Prod.fst = exprs) :
    RegistryMoved s (s.commit (registryWrites cur exprs new) none) ∧
      (s.commit (registryWrites cur exprs new) none).preds = s.preds.insertAll new := by
  obtain ⟨sets, added, members, kept⟩ := foldl_sadd exprs (s.write (.hsetPreds new))
  obtain ⟨vers, counted, monotone, moved, still⟩ := foldl_hincrPredVer
    (((exprs.filter fun e => !cur.contains e).map exprRoot).dedup) { s.write (.hsetPreds new) with predRoots := sets }
  have result : s.commit (registryWrites cur exprs new) none =
      { s.write (.hsetPreds new) with predRoots := sets, predVers := vers } := by
    rw [Redis.commit, registryWrites, List.foldl_append, List.foldl_append, List.foldl_cons, List.foldl_nil, added, counted]
    simp [Redis.write, Redis.touch]
  rw [result]
  have contains : ∀ e, (s.preds.insertAll new).contains e = true ↔ s.preds.contains e = true ∨ e ∈ exprs := fun e => by
    rw [Dict.contains_insertAll, keys]
  refine ⟨⟨rfl, fun k ne => if_neg ne, ?_, rfl, fun r e => ?_, fun r => ?_⟩, rfl⟩
  · exact Nat.lt_succ_self (s.revs .preds)
  · change e ∈ sets r ↔ (s.preds.insertAll new).contains e = true ∧ exprRoot e = r
    rw [members, contains]
    change e ∈ s.predRoots r ∨ _ ↔ _
    rw [indexed r e]
    tauto
  · by_cases counted : r ∈ ((exprs.filter fun e => !cur.contains e).map exprRoot).dedup
    · exact Guarded.of_lt (moved r counted)
    · refine Guarded.of_eq (congrArg (Option.getD · 0) (still r counted)) (Prod.ext (still r counted) (kept r fun e member root => ?_))
      change e ∈ s.predRoots r
      rw [indexed r e, ← known e member]
      refine ⟨?_, root⟩
      by_contra fresh
      refine counted (List.mem_dedup.mpr (List.mem_map.mpr ⟨e, List.mem_filter.mpr ⟨member, ?_⟩, root⟩))
      simpa using fresh

/-- A retirement. -/
theorem registryMoved_retire {s : Redis} (expr : Str) (indexed : s.Indexed) (present : s.preds.contains expr = true) :
    RegistryMoved s (s.commit [.hdelPred expr, .srem (exprRoot expr) expr, .hincrPredVer (exprRoot expr)] none) ∧
      (s.commit [.hdelPred expr, .srem (exprRoot expr) expr, .hincrPredVer (exprRoot expr)] none).preds =
        s.preds.erase expr := by
  have result : s.commit [.hdelPred expr, .srem (exprRoot expr) expr, .hincrPredVer (exprRoot expr)] none =
      { s.touch .preds with
        preds := s.preds.erase expr
        predRoots := fun r => if r = exprRoot expr then (s.predRoots r).filter fun e => decide (e ≠ expr) else s.predRoots r
        predVers := s.predVers.insert (exprRoot expr) ((s.predVers.get (exprRoot expr)).getD 0 + 1) } := by
    simp [Redis.commit, Redis.write, Redis.touch, present]
  rw [result]
  refine ⟨⟨rfl, fun k ne => if_neg ne, ?_, rfl, fun r e => ?_, fun r => ?_⟩, rfl⟩
  · exact Nat.lt_succ_self (s.revs .preds)
  · have erased : (s.preds.erase expr).contains e = true ↔ e ≠ expr ∧ s.preds.contains e = true := by
      rw [Dict.contains, Dict.get_erase]
      by_cases same : e = expr <;> simp [same, Dict.contains]
    change e ∈ (if r = exprRoot expr then (s.predRoots r).filter fun e => decide (e ≠ expr) else s.predRoots r) ↔
      (s.preds.erase expr).contains e = true ∧ exprRoot e = r
    rw [erased]
    by_cases here : r = exprRoot expr
    · rw [if_pos here, List.mem_filter, indexed r e, decide_eq_true_eq]
      tauto
    · rw [if_neg here, indexed r e]
      refine ⟨fun held => ⟨⟨?_, held.1⟩, held.2⟩, fun held => ⟨held.1.2, held.2⟩⟩
      rintro rfl
      exact here held.2.symm
  · by_cases here : r = exprRoot expr
    · refine Guarded.of_lt ?_
      change (s.predVers.get r).getD 0 < ((s.predVers.insert (exprRoot expr) _).get r).getD 0
      rw [Dict.get_insert, if_pos here, here]
      exact Nat.lt_succ_self _
    · have counter : (s.predVers.insert (exprRoot expr) ((s.predVers.get (exprRoot expr)).getD 0 + 1)).get r =
        s.predVers.get r := Dict.get_insert_ne _ _ here
      exact Guarded.of_eq (congrArg (Option.getD · 0) counter) (Prod.ext counter (if_neg here))

theorem EntriesOk.erase {patches : List Members} {preds : Dict Str Entry} (h : EntriesOk patches preds) (expr : Str) :
    EntriesOk patches (preds.erase expr) := by
  intro e entry stored
  rw [Dict.get_erase] at stored
  split at stored
  · cases stored
  · exact h e entry stored

/-! ### Retirement -/

namespace Call

variable {K : Call}

theorem runs_gcLoop (apart : K.cfg.layout ≠ .document) (horizon : ℚ) {scanned : List (Str × Entry)} {l : StoreObject}
    {s : Redis} (inv : K.Inv s) (idx : IdxOk l s) :
    K.Runs (gcLoop horizon scanned) l s (fun _ => IdxOk) IdxOk := by
  induction scanned generalizing l s with
  | nil => exact runs_pure fun s' rely _ => idx.advance rely
  | cons item rest ih =>
    refine runs_ite (fun _ => ih inv idx) fun _ => ?_
    refine runs_bind inv ?_
    refine runs_tryCatch IdxOk inv ?_ fun e l' s' inv' idx' => ?_
    · refine runs_ask_bind stable_idx inv idx (fun _ => rfl) fun s₁ s₂ _ _ _ rely₂ inv₂ idx₂ => ?_
      have watching : K.Watching [.preds] [(.preds, s₁.revs .preds)] s₂ := ⟨s₁, rely₂, rfl⟩
      refine runs_ask_bind stable_idx inv₂ idx₂ (fun _ => rfl) fun s₃ s₄ rely₃ _ _ rely₄ inv₄ idx₄ => ?_
      cases read : (Redis.exec (.pipeHgetPred item.1) s₃).1 with
      | none => exact runs_ask stable_idx idx₄ (fun _ => rfl) fun _ _ _ _ _ _ _ idx₅ inv₅ => ih inv₅ idx₅
      | some cur =>
        refine runs_ite (fun _ => runs_ask stable_idx idx₄ (fun _ => rfl) fun _ _ _ _ _ _ _ idx₅ inv₅ => ih inv₅ idx₅)
          fun _ => runs_execute stable_idx inv₄ idx₄ (fun s' rely inv' won => ?_) fun s' s'' rely inv' won later inv'' _ => ?_
        all_goals
          -- the entry is still there, since the registry is as it was read
          have same := (watching.rely rely₃).registryPart_eq (rely₄.trans rely) won List.mem_cons_self
          have preds : s'.preds = s₃.preds := congrArg Prod.fst same
          obtain ⟨moved, erased⟩ := registryMoved_retire item.1 (inv'.index apart)
            (by rw [preds, Dict.contains]; exact Option.isSome_of_mem read)
          obtain ⟨after, step⟩ := moved.keeps inv' apart (by rw [erased]; exact (inv'.registered apart).erase _)
            fun effect => effect.1 = K.ticket ∧ ∀ patch, effect.2 = some patch → K.job.patch = some patch
        · exact ⟨after, step, fun _ => (idx₄.advance rely).advance step⟩
        · exact ih inv'' (((idx₄.advance rely).advance step).advance later)
    · refine runs_ite (fun _ => runs_pure fun s₁ rely inv₁ inv₂ => ?_) fun _ => runs_throw stable_idx idx' e
      exact ih inv₂ (idx'.advance rely)

theorem runs_gcPredicates (scanned : List (Str × Entry)) {l : StoreObject}
    {s : Redis} (inv : K.Inv s) (idx : IdxOk l s) :
    K.Runs (gcPredicates K.cfg scanned) l s (fun _ => IdxOk) IdxOk := by
  refine runs_get_bind inv fun s₁ rely₁ inv₁ => ?_
  refine runs_ite (fun due => ?_) fun _ => runs_pure fun s₂ rely₂ _ => idx.advance (rely₁.trans rely₂)
  refine runs_time_bind stable_idx inv₁ (idx.advance rely₁) fun now s₂ _ inv₂ idx₂ => ?_
  refine runs_ask_bind stable_idx inv₂ idx₂ (fun _ => rfl) fun s₃ s₄ _ _ _ _ inv₄ idx₄ => ?_
  exact runs_gcLoop due.1 _ inv₄ idx₄

theorem runs_gcIfDue (scanned : List (Str × Entry)) {l : StoreObject}
    {s : Redis} (inv : K.Inv s) (idx : IdxOk l s) : K.Runs (gcIfDue K.cfg scanned) l s (fun _ => IdxOk) IdxOk := by
  refine runs_time_bind stable_idx inv idx fun now s₁ _ inv₁ idx₁ => ?_
  refine runs_get_bind inv₁ fun s₂ rely₂ inv₂ => ?_
  refine runs_ite (fun _ => ?_) fun _ => runs_pure fun s₃ rely₃ _ => idx₁.advance (rely₂.trans rely₃)
  refine runs_modify_bind inv₂ fun s₃ rely₃ inv₃ => ?_
  exact runs_gcPredicates scanned inv₃ (idx₁.advance (rely₂.trans rely₃))

end Call

/-! ### The candidates of an update -/

namespace Call

variable {K : Call} {keys : List WatchKey} {watched : List (WatchKey × Nat)} {l : StoreObject} {s : Redis}

theorem runs_members {r : Str} {v : Option Nat} (inv : K.Inv s) (pending : K.Pending l s)
    (watching : K.Watching keys watched s) (watched_preds : .preds ∈ keys) (past : v.getD 0 ≤ s.counter r)
    (current : ∀ z, K.Rely s z → z.unchanged watched = true → z.predVers.get r = v) :
    K.Runs (members r v) l s (fun exprs l' s' => K.Rely s s' ∧ K.Pending l' s' ∧
      ∀ z, K.Rely s' z → z.unchanged watched = true → ∀ e, e ∈ exprs ↔ e ∈ z.predRoots r) K.Pending := by
  refine runs_get_bind inv fun s₁ rely₁ inv₁ => ?_
  have pending₁ := stable_pending _ _ _ pending rely₁
  cases hit : (l.idx.get r).filter fun h => decide (h.1 = v) with
  | some h =>
    rw [Option.filter_eq_some_iff, decide_eq_true_eq] at hit
    obtain ⟨cached, rfl⟩ := hit
    refine runs_pure fun s₂ rely₂ _ => ⟨rely₁.trans rely₂, stable_pending _ _ _ pending₁ rely₂, fun z rely won => ?_⟩
    have later := rely₁.trans (rely₂.trans rely)
    exact ((pending.idx.advance later) r h.1 h.2 cached).2 (current z later won)
  | none =>
    refine runs_ask_bind stable_pending inv₁ pending₁ (fun _ => rfl) fun s₂ s₃ rely₂ _ _ rely₃ inv₃ pending₃ => ?_
    refine runs_modify_bind inv₃ fun s₄ rely₄ _ => runs_pure fun s₅ rely₅ _ => ?_
    have before := rely₁.trans rely₂
    have after := rely₃.trans (rely₄.trans rely₅)
    refine ⟨before.trans after, ⟨IdxOk.advance (fun r' v' exprs cached => ?_) after, pending.lastIo,
      (stable_pending _ _ _ pending₃ (rely₄.trans rely₅)).absent⟩, fun z rely won e => ?_⟩
    · rw [Dict.get_insert] at cached
      split at cached
      · rename_i same
        obtain ⟨rfl, rfl⟩ := Prod.mk.inj (Option.some.inj cached)
        subst same
        exact ⟨Nat.le_trans past (before.index _).1, fun _ e => mem_sortedSet⟩
      · exact (pending.idx.advance before) r' v' exprs cached
    · have same := (watching.rely before).registryPart_eq (after.trans rely) won watched_preds
      have sets : z.predRoots = s₂.predRoots := congrArg (fun part => part.2.1) same
      rw [sets]
      exact mem_sortedSet

/-- What the candidates are to a transaction that wins. -/
def Names (K : Call) (watched : List (WatchKey × Nat)) (roots exprs : List Str) (s : Redis) : Prop :=
  ∀ z, K.Rely s z → z.unchanged watched = true → ∀ e, e ∈ exprs ↔ ∃ r ∈ roots, e ∈ z.predRoots r

theorem runs_candidatesLoop {todo : List (Str × Option Nat)} (inv : K.Inv s) (pending : K.Pending l s)
    (watching : K.Watching keys watched s) (watched_preds : .preds ∈ keys)
    (past : ∀ item ∈ todo, item.2.getD 0 ≤ s.counter item.1)
    (current : ∀ z, K.Rely s z → z.unchanged watched = true → ∀ item ∈ todo, z.predVers.get item.1 = item.2) :
    K.Runs (candidatesLoop todo) l s (fun exprs l' s' => K.Rely s s' ∧ K.Pending l' s' ∧
      K.Names watched (todo.map Prod.fst) exprs s') K.Pending := by
  induction todo generalizing l s with
  | nil =>
    exact runs_pure fun s' rely _ => ⟨rely, stable_pending _ _ _ pending rely, fun z _ _ e => by simp⟩
  | cons item rest ih =>
    obtain ⟨r, v⟩ := item
    refine runs_bind inv ((runs_members inv pending watching watched_preds (past _ List.mem_cons_self)
      fun z rely won => current z rely won _ List.mem_cons_self).imp (fun exprs l₁ s₁ _ ends inv₁ => ?_) fun _ _ _ hold => hold)
    obtain ⟨rely₁, pending₁, here⟩ := ends
    refine runs_bind inv₁ ((ih inv₁ pending₁ (watching.rely rely₁)
      (fun item member => Nat.le_trans (past item (List.mem_cons_of_mem _ member)) (rely₁.index _).1)
      fun z rely won item member => current z (rely₁.trans rely) won item (List.mem_cons_of_mem _ member)).imp
      (fun others l₂ s₂ _ ends inv₂ => ?_) fun _ _ _ hold => hold)
    obtain ⟨rely₂, pending₂, later⟩ := ends
    refine runs_pure fun s₃ rely₃ _ => ⟨rely₁.trans (rely₂.trans rely₃), stable_pending _ _ _ pending₂ rely₃,
      fun z rely won e => ?_⟩
    rw [List.mem_append, here z (rely₂.trans (rely₃.trans rely)) won, later z (rely₃.trans rely) won]
    simp

theorem runs_candidates {roots : List Str} (inv : K.Inv s) (pending : K.Pending l s)
    (watching : K.Watching keys watched s) (watched_preds : .preds ∈ keys) :
    K.Runs (candidates roots) l s (fun exprs l' s' => K.Rely s s' ∧ K.Pending l' s' ∧ K.Names watched roots exprs s')
      K.Pending := by
  refine runs_nonEmpty_bind stable_pending inv pending ?_
  refine runs_ask_bind stable_pending inv pending (fun _ => rfl) fun s₁ s₂ rely₁ _ _ rely₂ inv₂ pending₂ => ?_
  have asked : ∀ item ∈ (sortedSet roots).zip ((sortedSet roots).map s₁.predVers.get),
      s₁.predVers.get item.1 = item.2 := fun item member => by
    obtain ⟨n, bound, rfl⟩ := List.mem_iff_getElem.mp member
    simp
  refine (runs_candidatesLoop inv₂ pending₂ ((watching.rely rely₁).rely rely₂) watched_preds (fun item member => ?_)
    fun z rely won item member => ?_).imp (fun exprs l' s' _ ends => ⟨(rely₁.trans rely₂).trans ends.1, ends.2.1, ?_⟩)
    fun _ _ _ hold => hold
  · rw [← asked item member]
    exact (rely₂.index _).1
  · have same := (watching.rely rely₁).registryPart_eq (rely₂.trans rely) won watched_preds
    have counters : z.predVers = s₁.predVers := congrArg (fun part => part.2.2) same
    rw [counters, asked item member]
  · intro z rely won e
    refine (ends.2.2 z rely won e).trans ?_
    change (∃ r ∈ ((sortedSet roots).zip ((sortedSet roots).map s₁.predVers.get)).map Prod.fst, e ∈ z.predRoots r) ↔ _
    rw [List.map_fst_zip (by simp)]
    simp only [mem_sortedSet]

/-! ### The entries an update changes -/

/-- Written by a transaction that wins, these entries make the registry correct after the patch. -/
def Settles (K : Call) (patch : Members) (watched : List (WatchKey × Nat)) (updates : List (Str × Entry)) (s : Redis) :
    Prop :=
  ∀ z, K.Rely s z → K.Inv z → z.unchanged watched = true →
    EntriesOk (z.patches ++ [patch]) (z.preds.insertAll updates) ∧
      ∀ e, (z.preds.insertAll updates).contains e = true ↔ z.preds.contains e = true

theorem Settles.rely {patch : Members} {updates : List (Str × Entry)} {s s' : Redis} (h : K.Settles patch watched updates s)
    (rely : K.Rely s s') : K.Settles patch watched updates s' := fun z later => h z (rely.trans later)

theorem settles_reEvaluated (apart : K.cfg.layout ≠ .document) {patch : Members} (wf : patch.WF) (changed cands : List Str)
    (full : Members) {version : Nat} {updates : List (Str × Entry)} {s' : Redis}
    (names : K.Names watched (Changed.ofPaths changed).roots cands s) (watching : K.Watching keys watched s)
    (watched_preds : .preds ∈ keys) (rely : K.Rely s s')
    (evaluated : reEvaluateCandidates (.ofPaths changed) full version (present cands (cands.map s'.preds.get)) = .ok updates)
    (found : ∀ z, K.Rely s' z → K.Inv z → z.unchanged watched = true →
      changed = changedPaths (history z.patches).context patch ∧ version = z.patches.length + 1 ∧
        ∀ e, exprRoot e ∈ (Changed.ofPaths changed).roots →
          truth e full = truth e (history (z.patches ++ [patch])).context) :
    K.Settles patch watched updates s' := by
  intro z later inv won
  obtain ⟨rfl, rfl, same⟩ := found z later inv won
  have preds : z.preds = s'.preds := congrArg Prod.fst ((watching.rely rely).registryPart_eq later won watched_preds)
  have candidate : ∀ e, e ∈ cands ↔ z.preds.contains e = true ∧
      exprRoot e ∈ (Changed.ofPaths (changedPaths (history z.patches).context patch)).roots := fun e => by
    rw [names z (rely.trans later) won e]
    constructor
    · rintro ⟨r, member, listed⟩
      obtain ⟨stored, rfl⟩ := (inv.index apart r e).mp listed
      exact ⟨stored, member⟩
    · rintro ⟨stored, member⟩
      exact ⟨_, member, (inv.index apart _ e).mpr ⟨stored, rfl⟩⟩
  rw [← preds] at evaluated
  refine entriesOk_reEvaluateCandidates wf (inv.registered apart) (fun item member => (mem_present.mp member).2)
    (fun expr entry stored root => mem_present.mpr ⟨(candidate expr).mpr ⟨?_, root⟩, stored⟩)
    (fun item member => same _ ((candidate _).mp (mem_present.mp member).1).2) evaluated
  rw [Dict.contains, stored]
  rfl

/-! ### The transaction of an update -/

/-- The writes of an update: what `first` does to the snapshot, and the changed entries. -/
theorem commit_update {s₁ : Redis} (first : List Write) {patch : Members} {updates : List (Str × Entry)}
    (wrote : first.foldl Redis.write s = s₁) (registry : s₁.registryPart = s.registryPart)
    (still : s₁.revs .preds = s.revs .preds) (moved : s.revs K.cfg.layout.snapshotKey < s₁.revs K.cfg.layout.snapshotKey)
    (apart : K.cfg.layout ≠ .document) (inv : K.Inv s) (wf : patch.WF) (mine : K.job.patch = some patch)
    (plain : K.cfg.layout = .shard → PlainKeys patch) (fresh : K.faultless → K.ticket ∉ s.tickets)
    (settled : EntriesOk (s.patches ++ [patch]) (s.preds.insertAll updates) ∧
      ∀ e, (s.preds.insertAll updates).contains e = true ↔ s.preds.contains e = true)
    (content : Redis.Content K.cfg.layout { s₁ with updates := s.updates ++ [(K.ticket, patch)] }) :
    K.Inv (s.commit (first ++ hsetPredsIf updates) (some (K.ticket, patch))) ∧
      K.Step s (s.commit (first ++ hsetPredsIf updates) (some (K.ticket, patch))) := by
  obtain ⟨preds, parts⟩ := Prod.mk.inj registry
  obtain ⟨sets, vers⟩ := Prod.mk.inj parts
  have key : K.cfg.layout.snapshotKey ≠ .preds := by cases K.cfg.layout <;> simp [Layout.snapshotKey]
  have log : s₁.logPart = s.logPart := wrote ▸ s.logPart_writes first
  -- the two shapes of the writes have one result, but for the count of the registry
  obtain ⟨revs, result, kept, guarded⟩ : ∃ revs, s.commit (first ++ hsetPredsIf updates) (some (K.ticket, patch)) =
      { s₁ with preds := s.preds.insertAll updates, revs := revs, updates := s.updates ++ [(K.ticket, patch)] } ∧
      (∀ k, k ≠ .preds → revs k = s₁.revs k) ∧
      (revs .preds = s.revs .preds → updates = []) ∧ s.revs .preds ≤ revs .preds := by
    by_cases none : updates = []
    · refine ⟨s₁.revs, ?_, fun _ _ => rfl, fun _ => none, Nat.le_of_eq still.symm⟩
      rw [Redis.commit, hsetPredsIf, if_pos none, List.append_nil, wrote, none]
      change ({ s₁ with updates := s.updates ++ [(K.ticket, patch)] } : Redis) = { s₁ with preds := s.preds, updates := _ }
      rw [← preds]
    · refine ⟨(s₁.touch .preds).revs, ?_, fun k ne => if_neg ne, fun same => ?_, ?_⟩
      · rw [Redis.commit, hsetPredsIf, if_neg none, List.foldl_append, wrote, ← preds]
        rfl
      · have bumped : s₁.revs .preds + 1 = s.revs .preds := same
        omega
      · exact still ▸ Nat.le_succ _
  rw [result]
  refine ⟨inv.update wf plain fresh rfl ?_ ?_ (fun _ r e => ?_) log, ⟨⟨_, rfl, by simp [mine]⟩, Redis.log_of_eq log, Guarded.of_lt ?_, ⟨guarded.2, fun same => ?_⟩,
    fun r => Guarded.of_eq (congrArg (fun d => (Dict.get d r).getD 0) vers)
      (Prod.ext (congrArg (Dict.get · r) vers) (congrFun sets r))⟩⟩
  · exact Redis.content_congr (s := { s₁ with updates := s.updates ++ [(K.ticket, patch)] }) rfl content
  · have parted := settled.1
    cases layout : K.cfg.layout with
    | document => exact absurd layout apart
    | hash => exact parted
    | shard => exact parted
  · change e ∈ s₁.predRoots r ↔ (s.preds.insertAll updates).contains e = true ∧ exprRoot e = r
    rw [sets, settled.2, inv.index apart r e]
  · exact Nat.lt_of_lt_of_eq moved (kept _ key).symm
  · obtain rfl := guarded.1 same
    exact Prod.ext rfl (Prod.ext sets vers)

/-! ### The transaction of a registration -/

theorem commit_register (apart : K.cfg.layout ≠ .document) (inv : K.Inv s) (context : Members) (now : ℚ)
    {exprs : List Str} {new : List (Str × Entry)}
    (same : ∀ expr ∈ exprs, truth expr context = truth expr (history s.patches).context)
    (registered : registrations s.patches.length context now
      (Dict.empty.insertAll (present exprs (exprs.map s.preds.get))) exprs = .ok new) :
    K.Inv (s.commit (registryWrites (Dict.empty.insertAll (present exprs (exprs.map s.preds.get))) exprs new) none) ∧
      K.Step s (s.commit (registryWrites (Dict.empty.insertAll (present exprs (exprs.map s.preds.get))) exprs new) none) ∧
      EntriesOk s.patches (Dict.empty.insertAll new) := by
  have entries := entriesOk_registrations ((inv.registered apart).present exprs) same registered
  have known : ∀ e ∈ exprs, (Dict.empty.insertAll (present exprs (exprs.map s.preds.get))).contains e =
      s.preds.contains e := fun e member => by
    rw [Dict.contains, Dict.contains, Bool.eq_iff_iff, Option.isSome_iff_exists, Option.isSome_iff_exists]
    exact exists_congr fun entry => get_insertAll_present.trans (and_iff_right member)
  obtain ⟨moved, preds⟩ := registryMoved_registryWrites (inv.index apart) known (registrations_spec registered).1
  obtain ⟨after, step⟩ := moved.keeps inv apart (by rw [preds]; exact (inv.registered apart).insertAll entries) _
  exact ⟨after, step, EntriesOk.insertAll (fun _ _ stored => absurd stored (by simp)) entries⟩

end Call

end

end Xair
