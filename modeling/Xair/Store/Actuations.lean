import Xair.Store.Predicates

/-!
# The actuation log

In every run of the store, with or without a server, the log agrees with the history
of the committed patches, and a commit that is refused changes nothing.
-/

namespace Xair

open Library

/-! ### Without a server -/

/-- One commit: a granted one appends its entry at the position it returns, a refused one changes nothing. -/
structure MemoryStore.Commits (m : MemoryStore) (now : ℚ) (req : CommitRequest) : Prop where
  committed : (m.commit now req).1.status = .committed → (m.commit now req).1.seq = some (m.actuations.length + 1) ∧
    (m.commit now req).1.commitVersion = m.snapshot.version ∧
    (m.commit now req).2.actuations =
      m.actuations ++ [⟨m.stamped now req, m.actuations.length, some ⟨req, m.snapshot.version, m.preds⟩⟩]
  refused : (m.commit now req).1.status ≠ .committed → (m.commit now req).1.seq = none ∧ (m.commit now req).2 = m

theorem MemoryStore.commits (m : MemoryStore) (now : ℚ) (req : CommitRequest) : m.Commits now req := by
  rcases m.commit_cases now req with ⟨refused, seq, same⟩ | granted
  · refine ⟨fun committed => ?_, fun _ => ⟨seq, same⟩⟩
    rw [committed] at refused
    cases refused
  · constructor
    · intro _
      rw [granted]
      exact ⟨rfl, rfl, rfl⟩
    · intro other
      rw [granted] at other
      exact absurd rfl other

/-! ### With a server -/

theorem sends_ensureClient {ok : Command → Prop} (ping : ok .ping) : Method.Sends ok ensureClient := by
  refine Method.sends_bind Method.sends_get fun l => Method.sends_ite ?_ (Method.sends_pure _)
  refine Method.sends_tryCatch ?_ fun _ => Method.sends_modify _
  exact Method.sends_bind (Method.sends_command ping) fun _ => Method.sends_modify _

theorem sends_commitAuthorization {ok : Command → Prop} (ping : ok .ping) {cfg : StoreConfig} {t : Nat}
    {req : CommitRequest} (script : ok (.commit cfg.layout t req)) : Method.Sends ok (commitAuthorization cfg t req) := by
  refine Method.sends_bind (sends_ensureClient ping) fun _ => Method.sends_bind Method.sends_get fun l =>
    Method.sends_ite ?_ ?_
  · refine Method.sends_tryCatch ?_ fun _ => ?_
    · refine Method.sends_bind (Method.sends_command script) fun reply => ?_
      cases reply with
      | some reply => exact Method.sends_pure _
      | none => exact Method.sends_throw _
    · exact Method.sends_bind (Method.sends_modify _) fun _ => Method.sends_bind Method.sends_get fun _ =>
        Method.sends_pure _
  · exact Method.sends_bind Method.sends_get fun _ => Method.sends_pure _

/-- All a commit sends is a `PING` and its script. -/
def Command.ofCommit (cfg : StoreConfig) (t : Nat) (job : StoreJob) (c : Command) : Prop :=
  ∀ req, job = .commitAuthorization req → c = .ping ∨ c = .commit cfg.layout t req

theorem step_ofCommit {cfg : StoreConfig} {t : Nat} {req : CommitRequest} {c : Command}
    (own : Command.ofCommit cfg t (.commitAuthorization req) c) (s : Redis) (fate : Fate) :
    (redis.perform c s fate).2 = s ∨ ∃ entry : LogEntry, entry.ticket = t ∧ (redis.perform c s fate).2 =
      { s with actuations := s.actuations ++ [entry], committed := s.committed ++ [req.intentId] } := by
  have effect : (Redis.exec c s).2 = s ∨ ∃ entry : LogEntry, entry.ticket = t ∧ (Redis.exec c s).2 =
      { s with actuations := s.actuations ++ [entry], committed := s.committed ++ [req.intentId] } := by
    rcases own req rfl with rfl | rfl
    · exact Or.inl rfl
    · rcases s.commitScript_cases cfg.layout t req with ⟨same, _⟩ | ⟨record, _, _, _, _, _, _, _, result⟩
      · exact Or.inl same
      · exact Or.inr ⟨_, rfl, result⟩
  cases fate with
  | done => exact effect
  | refused => exact Or.inl rfl
  | broken took =>
    cases took with
    | false => exact Or.inl rfl
    | true => exact effect

section

variable [PyText]

theorem MemoryStore.actuations_register (m : MemoryStore) (retention now : ℚ) (exprs : List Str) :
    (m.register retention now exprs).1.actuations = m.actuations := by
  induction exprs generalizing m with
  | nil => rfl
  | cons e exprs ih =>
    rw [MemoryStore.register]
    split
    · exact ih m
    · split
      · exact ih { m with preds := _ }
      · rfl

/-- The log is only appended to. -/
theorem MemoryStore.actuations_next (m : MemoryStore) (retention : ℚ) (call : MemoryCall) :
    m.actuations <+: (m.next retention call).actuations := by
  cases call with
  | update now patch =>
    simp only [MemoryStore.next, MemoryStore.update]
    cases apply retention now m.snapshot patch m.preds with
    | ok out => exact List.prefix_refl _
    | error fault => exact List.prefix_refl _
  | register now exprs =>
    rw [MemoryStore.next, m.actuations_register]
  | commit now req =>
    rw [MemoryStore.next]
    rcases m.commit_cases now req with ⟨_, _, same⟩ | granted
    · rw [same]
    · rw [granted]
      exact List.prefix_append _ _
  | append tombstone => exact List.prefix_append _ _

theorem MemoryStore.actuations_run (m : MemoryStore) (retention : ℚ) (calls : List MemoryCall) :
    m.actuations <+: (m.run retention calls).actuations := by
  induction calls generalizing m with
  | nil => exact List.prefix_refl _
  | cons call calls ih => exact (m.actuations_next retention call).trans (ih (m.next retention call))

/-! ### Runs -/

theorem sends_code (cfg : StoreConfig) (job : StoreJob) (t : Nat) (l : StoreObject) :
    ((storeWorkload cfg).code job t l).Sends (Command.ofCommit cfg t job) := by
  cases job with
  | commitAuthorization req =>
    refine Method.sends_bind (sends_commitAuthorization ?_ ?_) (fun _ => Method.sends_pure _) l
    · exact fun _ _ => Or.inl rfl
    · rintro _ ⟨⟩
      exact Or.inr rfl
  | _ => exact Prog.sends_of_forall (fun c req other => nomatch other) _

/-- The log of a run, what its calls have returned of it, and what a commit does to the server. -/
structure LogFollows (cfg : StoreConfig) (P : StorePool cfg) : Prop where
  log : LogOk P.shared.patches P.shared.actuations P.shared.committed
  answered : ∀ t req out, (t, .commitAuthorization req, out) ∈ P.finished →
    ∃ result, out = .ok (.commit result) ∧ result.Answers t req P.shared.actuations
  /-- Every step of a commit either appends its entry or changes nothing. -/
  steps : ∀ pid fate t req prog, P.procs pid = .busy t (.commitAuthorization req) prog →
    (P.next_ (.step pid fate)).shared = P.shared ∨ ∃ entry : LogEntry, entry.ticket = t ∧
      (P.next_ (.step pid fate)).shared = { P.shared with
        actuations := P.shared.actuations ++ [entry], committed := P.shared.committed ++ [req.intentId] }

end

/-- A commit without conditions. -/
def plainCommit : CommitRequest := ⟨"i".toList, [], 0, .nil, 0, none, none, .readset⟩

end Xair
