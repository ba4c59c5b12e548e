import Xair.Store.Discipline

/-!
# Calls of the store's methods

The rules by which one call is proved to keep the discipline, and what the calls
of all layouts know of the object they work on and of what they have read.
-/

namespace Xair

open Library

/-! ### The process-local index -/

/-- A list of the index is the set of its root as long as the counter has not moved on. -/
def IdxOk (l : StoreObject) (s : Redis) : Prop :=
  ∀ r v exprs, l.idx.get r = some (v, exprs) → v.getD 0 ≤ s.counter r ∧
    (s.predVers.get r = v → ∀ e, e ∈ exprs ↔ e ∈ s.predRoots r)

theorem IdxOk.advance {layout : Layout} {mine : Effect → Prop} {l : StoreObject} {s s' : Redis} (h : IdxOk l s)
    (step : Advance layout mine s s') : IdxOk l s' := by
  intro r v exprs cached
  obtain ⟨past, members⟩ := h r v exprs cached
  refine ⟨Nat.le_trans past (step.index r).1, fun current => ?_⟩
  have counted : s'.counter r = v.getD 0 := by rw [Redis.counter, current]
  have lower : s.counter r ≤ s'.counter r := (step.index r).1
  have still := Prod.mk.inj ((step.index r).2 (show s'.counter r = s.counter r by omega))
  rw [still.2]
  exact members (by rw [← still.1, current])

/-! ### One call -/

/-- One call of a method: where it runs, its ticket, and what may become of its commands. -/
structure Call where
  cfg : StoreConfig
  faultless : Prop
  ticket : Nat
  job : StoreJob
  may : Command → Redis → Fate → Prop
  reliable : faultless → ∀ c s fate, may c s fate → fate = .done

namespace Call

variable (K : Call)

abbrev Rely (s s' : Redis) : Prop := Advance K.cfg.layout (fun effect => effect.1 ≠ K.ticket) s s'

abbrev Step (s s' : Redis) : Prop := 
  Advance K.cfg.layout
    (fun effect => effect.1 = K.ticket ∧ ∀ patch, effect.2 = some patch → K.job.patch = some patch) s s'

/-- The keys a transaction watches, with their counts as they were in the past. -/
def Watching (keys : List WatchKey) (watched : List (WatchKey × Nat)) (s : Redis) : Prop :=
  ∃ s₀, K.Rely s₀ s ∧ watched = keys.map fun k => (k, s₀.revs k)

/-- What a call knows of its object and the shared state stays true under the others. -/
def Stable (held : StoreObject → Redis → Prop) : Prop := ∀ l s s', held l s → K.Rely s s' → held l s'

/-- The call has not committed its patch, as far as it can know. -/
structure Pending (l : StoreObject) (s : Redis) : Prop where
  idx : IdxOk l s
  lastIo : l.lastIo = false
  absent : K.faultless → K.ticket ∉ s.tickets

/-- The call has committed its patch as this version. -/
structure Committed (patch : Members) (version : Nat) (l : StoreObject) (s : Redis) : Prop where
  idx : IdxOk l s
  lastIo : l.lastIo = true
  placed : ∃ n, version = n + 1 ∧ s.updates[n]? = some (K.ticket, patch)

variable {K}

theorem Watching.rely {keys : List WatchKey} {watched : List (WatchKey × Nat)} {s s' : Redis}
    (h : K.Watching keys watched s) (rely : K.Rely s s') : K.Watching keys watched s' := by
  obtain ⟨s₀, past, same⟩ := h
  exact ⟨s₀, past.trans rely, same⟩

/-- A transaction that wins finds the snapshot as it was read. -/
theorem Watching.snapshotPart_eq {keys : List WatchKey} {watched : List (WatchKey × Nat)} {s s' : Redis}
    (h : K.Watching keys watched s) (rely : K.Rely s s') (won : s'.unchanged watched = true)
    (member : K.cfg.layout.snapshotKey ∈ keys) : s'.snapshotPart = s.snapshotPart := by
  obtain ⟨s₀, past, rfl⟩ := h
  exact past.snapshot.between rely.snapshot (by simpa using List.all_eq_true.mp won _ (List.mem_map_of_mem member))

/-- A transaction that wins finds the registry as it was read. -/
theorem Watching.registryPart_eq {keys : List WatchKey} {watched : List (WatchKey × Nat)} {s s' : Redis}
    (h : K.Watching keys watched s) (rely : K.Rely s s') (won : s'.unchanged watched = true)
    (member : .preds ∈ keys) : s'.registryPart = s.registryPart := by
  obtain ⟨s₀, past, rfl⟩ := h
  exact past.registry.between rely.registry (by simpa using List.all_eq_true.mp won _ (List.mem_map_of_mem member))

theorem stable_idx : K.Stable IdxOk := fun _ _ _ idx rely => idx.advance rely

theorem stable_pending : K.Stable K.Pending := fun _ _ _ pending rely =>
  ⟨pending.idx.advance rely, pending.lastIo,
    fun exact_ => rely.not_mem_tickets (fun _ ne => ne rfl) (pending.absent exact_)⟩

theorem Committed.rely {patch : Members} {version : Nat} {l : StoreObject} {s s' : Redis}
    (h : K.Committed patch version l s) (rely : K.Rely s s') : K.Committed patch version l s' := by
  obtain ⟨n, rfl, placed⟩ := h.placed
  exact ⟨h.idx.advance rely, h.lastIo, n, rfl, rely.getElem?_updates placed⟩

/-- The place of a patch that has just been appended. -/
theorem committed_last {patch : Members} {l : StoreObject} {s c : Redis} (idx : IdxOk l c) (lastIo : l.lastIo = true)
    (appended : c.updates = s.updates ++ [(K.ticket, patch)]) : K.Committed patch (s.patches.length + 1) l c := by
  refine ⟨idx, lastIo, s.patches.length, rfl, ?_⟩
  rw [appended, Redis.patches, List.length_map, List.getElem?_concat_length]

end Call

theorem Redis.content_congr {layout : Layout} {s c : Redis} (same : c.snapshotPart = s.snapshotPart)
    (h : s.Content layout) : c.Content layout := by
  obtain ⟨doc, same⟩ := Prod.mk.inj same
  obtain ⟨ver, same⟩ := Prod.mk.inj same
  obtain ⟨roots, updates⟩ := Prod.mk.inj same
  have patches : c.patches = s.patches := congrArg (List.map Prod.snd) updates
  cases layout with
  | shard => exact ⟨by rw [ver, patches]; exact h.version, by rw [roots, patches]; exact h.subtree,
      by rw [roots, patches]; exact h.pathVersions⟩
  | document => rw [Redis.Content, doc, patches]; exact h
  | hash => rw [Redis.Content, doc, patches]; exact h

section

variable [PyText]

theorem StoreInv.decode_doc {layout : Layout} {faultless : Prop} {s : Redis} (inv : StoreInv layout faultless s)
    (whole : layout ≠ .shard) : decode s.doc = history s.patches := by
  have content := inv.content
  cases layout with
  | document => exact content
  | hash => exact content
  | shard => exact absurd rfl whole

/-- The snapshot and the registry are as they were, and the log agrees with the history. -/
theorem StoreInv.congr {layout : Layout} {faultless : Prop} {s c : Redis} (inv : StoreInv layout faultless s)
    (snapshot : c.snapshotPart = s.snapshotPart) (registry : c.registryPart = s.registryPart)
    (log : LogOk s.patches c.actuations c.committed) : StoreInv layout faultless c := by
  have updates : c.updates = s.updates := congrArg (fun part => part.2.2.2) snapshot
  have patches : c.patches = s.patches := congrArg (List.map Prod.snd) updates
  have doc : c.doc = s.doc := congrArg Prod.fst snapshot
  obtain ⟨preds, registry⟩ := Prod.mk.inj registry
  have stored : c.registry layout = s.registry layout := by
    cases layout with
    | document => exact congrArg decodePreds doc
    | hash => exact preds
    | shard => exact preds
  refine ⟨by rw [patches]; exact inv.wf, by rw [patches]; exact inv.plain, Redis.content_congr snapshot inv.content,
    by rw [patches, stored]; exact inv.entries, fun apart r e => ?_, by rw [Redis.tickets, updates]; exact inv.once,
    by rw [patches]; exact log⟩
  rw [(Prod.mk.inj registry).1, preds]
  exact inv.index apart r e

/-- One more patch. -/
theorem StoreInv.update {layout : Layout} {faultless : Prop} {s c : Redis} (inv : StoreInv layout faultless s) {t : Nat}
    {patch : Members} (wf : patch.WF) (plain : layout = .shard → PlainKeys patch)
    (fresh : faultless → t ∉ s.tickets) (appended : c.updates = s.updates ++ [(t, patch)])
    (content : c.Content layout) (entries : EntriesOk (s.patches ++ [patch]) (c.registry layout))
    (index : layout ≠ .document → c.Indexed) (log : c.logPart = s.logPart) : StoreInv layout faultless c := by
  obtain ⟨actuations, committed⟩ := Prod.mk.inj log
  have patches : c.patches = s.patches ++ [patch] := by
    rw [Redis.patches, appended, List.map_append, Redis.patches]
    rfl
  refine ⟨fun p member => ?_, fun shard p member => ?_, content, by rw [patches]; exact entries, index, fun exact_ => ?_,
    by rw [patches, actuations, committed]; exact inv.log.append⟩
  · rw [patches, List.mem_append, List.mem_singleton] at member
    rcases member with old | rfl
    · exact inv.wf p old
    · exact wf
  · rw [patches, List.mem_append, List.mem_singleton] at member
    rcases member with old | rfl
    · exact inv.plain shard p old
    · exact plain shard
  · rw [Redis.tickets, appended, List.map_append, List.nodup_append]
    refine ⟨inv.once exact_, List.nodup_singleton t, ?_⟩
    rintro a old b new rfl
    obtain rfl := List.mem_singleton.mp new
    exact fresh exact_ old

namespace Call

variable (K : Call)

abbrev Inv (s : Redis) : Prop := StoreInv K.cfg.layout K.faultless s

variable {α β : Type}

/-- The call keeps the discipline, ends with `ok` if it returns and with `held` if it raises. -/
def Runs (m : StoreM α) (l : StoreObject) (s : Redis) (ok : α → StoreObject → Redis → Prop)
    (held : StoreObject → Redis → Prop) : Prop :=
  Method.Runs (storeDiscipline K.cfg.layout K.faultless) K.ticket K.job K.may m l s ok fun _ => held

variable {K} {l : StoreObject} {s : Redis} {ok : α → StoreObject → Redis → Prop} {held : StoreObject → Redis → Prop}

theorem Runs.imp {m : StoreM α} (h : K.Runs m l s ok held) {ok' : α → StoreObject → Redis → Prop}
    {held' : StoreObject → Redis → Prop} (returned : ∀ a l' s', K.Inv s' → ok a l' s' → ok' a l' s')
    (raised : ∀ l' s', K.Inv s' → held l' s' → held' l' s') : K.Runs m l s ok' held' :=
  Method.Runs.imp h returned fun _ => raised

theorem runs_pure {a : α} (h : ∀ s', K.Rely s s' → K.Inv s' → ok a l s') : K.Runs (pure a) l s ok held :=
  Method.runs_pure h

theorem runs_throw (stable : K.Stable held) (hold : held l s) (e : Fault) : K.Runs (throw e : StoreM α) l s ok held :=
  Method.runs_throw fun s' rely _ => stable l s s' hold rely

theorem runs_bind {m : StoreM β} {f : β → StoreM α} (inv : K.Inv s)
    (h : K.Runs m l s (fun b l' s' => K.Inv s' → K.Runs (f b) l' s' ok held) held) : K.Runs (m >>= f) l s ok held :=
  Method.runs_bind inv h

theorem runs_ite {p : Prop} {_ : Decidable p} {m m' : StoreM α} (yes : p → K.Runs m l s ok held)
    (no : ¬ p → K.Runs m' l s ok held) : K.Runs (if p then m else m') l s ok held := by
  by_cases h : p
  · rw [if_pos h]
    exact yes h
  · rw [if_neg h]
    exact no h

theorem runs_modify {g : StoreObject → StoreObject} {ok : PUnit → StoreObject → Redis → Prop}
    (h : ∀ s', K.Rely s s' → K.Inv s' → ok ⟨⟩ (g l) s') : K.Runs (modify g) l s ok held :=
  Method.runs_modify h

theorem runs_map {m : StoreM β} {f : β → α} {ok' : β → StoreObject → Redis → Prop} (inv : K.Inv s)
    (h : K.Runs m l s ok' held) (weaker : ∀ b l' s', ok' b l' s' → ok (f b) l' s') :
    K.Runs (m >>= fun b => pure (f b)) l s ok held :=
  Method.runs_map inv h fun b l' s' _ => weaker b l' s'

theorem runs_get_bind {f : StoreObject → StoreM α} (inv : K.Inv s)
    (next : ∀ s', K.Rely s s' → K.Inv s' → K.Runs (f l) l s' ok held) : K.Runs (get >>= f) l s ok held :=
  runs_bind inv (Method.runs_get fun s' rely inv' _ => next s' rely inv')

theorem runs_modify_bind {g : StoreObject → StoreObject} {f : PUnit → StoreM α} (inv : K.Inv s)
    (next : ∀ s', K.Rely s s' → K.Inv s' → K.Runs (f ⟨⟩) (g l) s' ok held) : K.Runs (modify g >>= f) l s ok held :=
  runs_bind inv (Method.runs_modify fun s' rely inv' _ => next s' rely inv')

theorem runs_liftPy {r : Except PyError α} (stable : K.Stable held) (hold : held l s)
    (returned : ∀ a, r = .ok a → ∀ s', K.Rely s s' → K.Inv s' → held l s' → ok a l s') :
    K.Runs (liftPy r) l s ok held := by
  cases r with
  | ok a => exact runs_pure fun s' rely inv' => returned a rfl s' rely inv' (stable l s s' hold rely)
  | error e => exact runs_throw stable hold _

theorem runs_liftPy_bind {r : Except PyError β} {f : β → StoreM α} (stable : K.Stable held) (inv : K.Inv s)
    (hold : held l s) (next : ∀ b, r = .ok b → ∀ s', K.Rely s s' → K.Inv s' → held l s' → K.Runs (f b) l s' ok held) :
    K.Runs (liftPy r >>= f) l s ok held :=
  runs_bind inv (runs_liftPy stable hold fun b returned s' rely inv' hold' _ => next b returned s' rely inv' hold')

theorem runs_nonEmpty_bind {γ : Type} {keys : List γ} {m : StoreM β} {f : β → StoreM α} (stable : K.Stable held)
    (inv : K.Inv s) (hold : held l s) (next : K.Runs (m >>= f) l s ok held) :
    K.Runs (nonEmpty keys m >>= f) l s ok held := by
  by_cases none : keys.isEmpty = true
  · rw [nonEmpty, if_pos none]
    exact runs_bind inv (runs_throw stable hold _)
  · rw [nonEmpty, if_neg none]
    exact next

/-- A command that only reads, on whichever connection. -/
theorem runs_read {c : Command} {fault : Failure → Fault} {ok : c.Reply → StoreObject → Redis → Prop}
    (reads : ∀ s', (Redis.exec c s').2 = s')
    (answered : ∀ s' s'', K.Rely s s' → K.Inv s' → K.may c s' .done → K.Rely s' s'' → K.Inv s'' →
      ok (Redis.exec c s').1 l s'')
    (failed : ¬ K.faultless → ∀ s', K.Rely s s' → held l s') :
    K.Runs (Method.command fault (show redis.Command from c) : StoreM c.Reply) l s ok held := by
  refine Method.runs_read reads (fun s' rely inv' allowed s'' later inv'' => answered s' s'' rely inv' allowed later inv'')
    fun s' _ rely _ fails s'' later _ => ?_
  obtain ⟨fate, other, allowed⟩ := fails
  exact failed (fun faultless => other (K.reliable faultless _ _ _ allowed)) s'' (rely.trans later)

theorem runs_ask {c : Command} {fault : Failure → Fault} {ok : c.Reply → StoreObject → Redis → Prop}
    (stable : K.Stable held) (hold : held l s) (reads : ∀ s', (Redis.exec c s').2 = s')
    (answered : ∀ s' s'', K.Rely s s' → K.Inv s' → K.may c s' .done → K.Rely s' s'' → K.Inv s'' → held l s'' →
      ok (Redis.exec c s').1 l s'') :
    K.Runs (Method.command fault (show redis.Command from c) : StoreM c.Reply) l s ok held :=
  runs_read reads (fun s' s'' rely inv' allowed later inv'' =>
    answered s' s'' rely inv' allowed later inv'' (stable l s s'' hold (rely.trans later)))
    fun _ s' rely => stable l s s' hold rely

theorem runs_ask_bind {c : Command} {fault : Failure → Fault} {f : c.Reply → StoreM α} (stable : K.Stable held)
    (inv : K.Inv s) (hold : held l s) (reads : ∀ s', (Redis.exec c s').2 = s')
    (next : ∀ s' s'', K.Rely s s' → K.Inv s' → K.may c s' .done → K.Rely s' s'' → K.Inv s'' → held l s'' →
      K.Runs (f (Redis.exec c s').1) l s'' ok held) :
    K.Runs ((Method.command fault (show redis.Command from c) : StoreM c.Reply) >>= f) l s ok held :=
  runs_bind inv (runs_ask stable hold reads fun s' s'' rely inv' allowed later inv'' hold' _ =>
    next s' s'' rely inv' allowed later inv'' hold')

theorem runs_time_bind {f : ℚ → StoreM α} (stable : K.Stable held) (inv : K.Inv s) (hold : held l s)
    (next : ∀ now s', K.Rely s s' → K.Inv s' → held l s' → K.Runs (f now) l s' ok held) :
    K.Runs (time >>= f) l s ok held :=
  runs_ask_bind stable inv hold (fun _ => rfl) fun s' s'' rely _ _ later inv'' hold' =>
    next s'.clock s'' (rely.trans later) inv'' hold'

/-- A transaction: it takes effect only while no watched key has been modified. -/
theorem runs_execute {watched : List (WatchKey × Nat)} {writes : List Write} {patch : Option (Nat × Members)}
    {ok : PUnit → StoreObject → Redis → Prop} (stable : K.Stable held) (inv : K.Inv s) (hold : held l s)
    (effect : ∀ s', K.Rely s s' → K.Inv s' → s'.unchanged watched = true →
      K.Inv (s'.commit writes patch) ∧ K.Step s' (s'.commit writes patch) ∧
        (¬ K.faultless → held l (s'.commit writes patch)))
    (committed : ∀ s' s'', K.Rely s s' → K.Inv s' → s'.unchanged watched = true → K.Rely (s'.commit writes patch) s'' →
      K.Inv s'' → ok ⟨⟩ l s'') :
    K.Runs (execute watched writes patch) l s ok held := by
  refine runs_bind inv (Method.runs_command (fun s' rely inv' => ?_) (fun s' rely inv' _ s'' later inv'' => ?_)
    (fun s' rely _ _ s'' later _ => stable l s s'' hold (rely.trans later))
    fun s' took rely inv' allowed s'' later _ => ?_)
  · change K.Inv (if s'.unchanged watched then s'.commit writes patch else s') ∧
      K.Step s' (if s'.unchanged watched then s'.commit writes patch else s')
    by_cases won : s'.unchanged watched = true
    · rw [if_pos won]
      exact ⟨(effect s' rely inv' won).1, (effect s' rely inv' won).2.1⟩
    · rw [if_neg won]
      exact ⟨inv', Advance.refl s'⟩
  · intro _
    change K.Rely (if s'.unchanged watched then s'.commit writes patch else s') s'' at later
    change K.Runs (if s'.unchanged watched then pure () else throw Fault.watchError) l s'' ok held
    by_cases won : s'.unchanged watched = true
    · rw [if_pos won] at later ⊢
      exact runs_pure fun s₃ rely₃ inv₃ => committed s' s₃ rely inv' won (later.trans rely₃) inv₃
    · rw [if_neg won] at later ⊢
      exact runs_throw stable (stable l s s'' hold (rely.trans later)) _
  · have faulty : ¬ K.faultless := fun faultless => nomatch K.reliable faultless _ _ _ allowed
    change K.Rely (if took then (if s'.unchanged watched then s'.commit writes patch else s') else s') s'' at later
    cases took with
    | false => exact stable l s s'' hold (rely.trans later)
    | true =>
      by_cases won : s'.unchanged watched = true
      · rw [if_pos rfl, if_pos won] at later
        exact stable l _ s'' ((effect s' rely inv' won).2.2 faulty) later
      · rw [if_pos rfl, if_neg won] at later
        exact stable l s s'' hold (rely.trans later)

theorem runs_execute_bind {watched : List (WatchKey × Nat)} {writes : List Write} {patch : Option (Nat × Members)}
    {f : PUnit → StoreM α} (stable : K.Stable held) (inv : K.Inv s) (hold : held l s)
    (effect : ∀ s', K.Rely s s' → K.Inv s' → s'.unchanged watched = true →
      K.Inv (s'.commit writes patch) ∧ K.Step s' (s'.commit writes patch) ∧
        (¬ K.faultless → held l (s'.commit writes patch)))
    (next : ∀ s' s'', K.Rely s s' → K.Inv s' → s'.unchanged watched = true → K.Rely (s'.commit writes patch) s'' →
      K.Inv s'' → K.Runs (f ⟨⟩) l s'' ok held) :
    K.Runs (execute watched writes patch >>= f) l s ok held :=
  runs_bind inv (runs_execute stable inv hold effect fun s' s'' rely inv' won later inv'' _ =>
    next s' s'' rely inv' won later inv'')

theorem runs_tryCatch {m : StoreM α} {handler : Fault → StoreM α} (held' : StoreObject → Redis → Prop) (inv : K.Inv s)
    (h : K.Runs m l s ok held') (handled : ∀ e l' s', K.Inv s' → held' l' s' → K.Runs (handler e) l' s' ok held) :
    K.Runs (tryCatch m handler) l s ok held :=
  Method.runs_tryCatch inv (Method.Runs.imp h (fun _ _ _ _ ends => ends)
    fun e l' s' inv' ends _ => handled e l' s' inv' ends)

/-- A loop of attempts, each of which leaves `held` for the next. -/
theorem runs_retry {attempt : StoreM α} (stable : K.Stable held)
    (once : ∀ l s, K.Inv s → held l s → K.Runs attempt l s ok held) :
    ∀ n l s, K.Inv s → held l s → K.Runs (retry attempt n) l s ok held := by
  intro n
  induction n with
  | zero => exact fun l s _ hold => runs_throw stable hold _
  | succ n ih =>
    intro l s inv hold
    refine runs_tryCatch _ inv (once l s inv hold) fun e l' s' inv' hold' => ?_
    by_cases lost : e = .watchError
    · rw [if_pos lost]
      exact ih l' s' inv' hold'
    · rw [if_neg lost]
      exact runs_throw stable hold' e

end Call

/-! ### What a read has seen -/

/-- The snapshot is the part of one version under some roots, and the entries are correct there. -/
def Seen (reads : Str → Prop) (part : Snapshot) (preds : Dict Str Entry) (s : Redis) : Prop :=
  ∃ n, n ≤ s.patches.length ∧ (atVersion s.patches n).RestrictsTo reads part ∧ EntriesOk (s.patches.take n) preds

theorem Seen.advance {layout : Layout} {mine : Effect → Prop} {reads : Str → Prop} {part : Snapshot} {preds : Dict Str Entry}
    {s s' : Redis} (h : Seen reads part preds s) (step : Advance layout mine s s') : Seen reads part preds s' := by
  obtain ⟨n, bound, restricts, entries⟩ := h
  obtain ⟨more, appended⟩ := step.patches
  rw [Seen, appended]
  refine ⟨n, by rw [List.length_append]; omega, by rw [atVersion_append bound]; exact restricts, ?_⟩
  rw [List.take_append_of_le_length bound]
  exact entries

/-- A read of the present version. -/
theorem seen_now {reads : Str → Prop} {part : Snapshot} {preds : Dict Str Entry} {s : Redis}
    (restricts : (history s.patches).RestrictsTo reads part) (entries : EntriesOk s.patches preds) :
    Seen reads part preds s :=
  ⟨s.patches.length, Nat.le_refl _, by rw [atVersion_length]; exact restricts, by rw [List.take_length]; exact entries⟩

/-- The roots a snapshot of these predicates has: all of them, except in the shard layout. -/
def Layout.reads (layout : Layout) (exprs : List Str) (r : Str) : Prop := layout = .shard → r ∈ rootsOf exprs

/-- The snapshot a registration leaves in the object. -/
def StoreObject.view (layout : Layout) (l : StoreObject) : Snapshot :=
  match layout with
  | .document | .hash => ⟨l.memory, l.version, l.pathVersions⟩
  | .shard => ⟨l.shardView.1, l.version, l.shardView.2⟩

namespace Call

variable {K : Call}

/-- The object shows the snapshot and the entries a registration has seen. -/
structure Registered (K : Call) (exprs : List Str) (l : StoreObject) (s : Redis) : Prop where
  idx : IdxOk l s
  seen : Seen (K.cfg.layout.reads exprs) (l.view K.cfg.layout) l.preds s

theorem Registered.advance {mine : Effect → Prop} {exprs : List Str} {l : StoreObject} {s s' : Redis}
    (h : K.Registered exprs l s) (step : Advance K.cfg.layout mine s s') : K.Registered exprs l s' :=
  ⟨h.idx.advance step, h.seen.advance step⟩

/-- What a read of the document shows, in the layouts that have one. -/
theorem registered_whole {s : Redis} (inv : K.Inv s) (whole : K.cfg.layout ≠ .shard) (exprs : List Str)
    {l : StoreObject} (idx : IdxOk l s) {preds : Dict Str Entry} (entries : EntriesOk s.patches preds) :
    K.Registered exprs { storeView (decode s.doc) l with preds := preds } s := by
  have all : ∀ r, K.cfg.layout.reads exprs r := fun r shard => absurd shard whole
  have view : ({ storeView (decode s.doc) l with preds := preds } : StoreObject).view K.cfg.layout = decode s.doc := by
    cases layout : K.cfg.layout with
    | document => rfl
    | hash => rfl
    | shard => exact absurd layout whole
  refine ⟨idx, seen_now ?_ entries⟩
  rw [view, inv.decode_doc whole]
  exact ⟨rfl, fun _ _ => rfl, fun r out => absurd (all r) out, fun _ _ => rfl, fun p out => absurd (all _) out⟩

end Call

/-! ### Registrations -/

/-- The entries of a registration, expression by expression. -/
theorem registrations_spec {version : Nat} {context : Members} {now : ℚ} {preds : Dict Str Entry} {exprs : List Str}
    {new : List (Str × Entry)} (registered : registrations version context now preds exprs = .ok new) :
    new.map Prod.fst = exprs ∧
      ∀ item ∈ new, registration version context now (preds.get item.1) item.1 = .ok item.2 := by
  induction exprs generalizing new with
  | nil =>
    obtain rfl := Except.ok.inj registered
    exact ⟨rfl, fun _ member => absurd member List.not_mem_nil⟩
  | cons e exprs ih =>
    rw [registrations] at registered
    cases first : registration version context now (preds.get e) e with
    | error fault => rw [first] at registered; cases registered
    | ok entry =>
      cases later : registrations version context now preds exprs with
      | error fault => rw [first, later] at registered; cases registered
      | ok rest =>
        rw [first, later] at registered
        obtain rfl := Except.ok.inj registered
        obtain ⟨keys, entries⟩ := ih later
        refine ⟨by rw [List.map_cons, keys], fun item member => ?_⟩
        rcases List.mem_cons.mp member with rfl | listed
        · exact first
        · exact entries item listed

/-- Registering is correct on any context on which the predicates have their present truth values. -/
theorem entryOk_registration {patches : List Members} {context : Members} {now : ℚ} {old : Option Entry} {expr : Str}
    {new : Entry} (before : ∀ entry, old = some entry → EntryOk patches expr entry)
    (same : truth expr context = truth expr (history patches).context)
    (registered : registration patches.length context now old expr = .ok new) : EntryOk patches expr new := by
  cases old with
  | some entry =>
    obtain rfl := Except.ok.inj registered
    exact (before entry rfl).refresh now
  | none =>
    rw [registration, same] at registered
    cases evaluated : truth expr (history patches).context with
    | error fault => rw [evaluated] at registered; cases registered
    | ok value =>
      rw [evaluated] at registered
      obtain rfl := Except.ok.inj registered
      exact entryOk_new evaluated

theorem EntriesOk.insertAll {patches : List Members} {preds : Dict Str Entry} (h : EntriesOk patches preds)
    {items : List (Str × Entry)} (new : ∀ item ∈ items, EntryOk patches item.1 item.2) :
    EntriesOk patches (preds.insertAll items) := by
  intro expr entry stored
  rcases Dict.get_insertAll_cases stored with member | old
  · exact new _ member
  · exact h expr entry old.2

theorem entriesOk_registrations {patches : List Members} {context : Members} {now : ℚ} {preds : Dict Str Entry}
    {exprs : List Str} {new : List (Str × Entry)} (before : EntriesOk patches preds)
    (same : ∀ expr ∈ exprs, truth expr context = truth expr (history patches).context)
    (registered : registrations patches.length context now preds exprs = .ok new) :
    ∀ item ∈ new, EntryOk patches item.1 item.2 := by
  obtain ⟨keys, entries⟩ := registrations_spec registered
  intro item member
  have listed : item.1 ∈ exprs := keys ▸ List.mem_map_of_mem member
  exact entryOk_registration (before item.1) (same _ listed) (entries item member)

end

end Xair
