import Xair.Store.Processes

/-!
# Linearizability of the Redis layouts

Without failing commands the committed updates have one order, in which their
versions are consecutive, and every trusted snapshot is the part of one version.
-/

namespace Xair

open Library

/-- A call has one place. -/
theorem index_unique {updates : List (Nat × Members)} (once : (updates.map Prod.fst).Nodup) {m n t : Nat}
    {patch patch' : Members} (first : updates[m]? = some (t, patch)) (second : updates[n]? = some (t, patch')) : m = n := by
  obtain ⟨boundM, atM⟩ := List.getElem?_eq_some_iff.mp first
  obtain ⟨boundN, atN⟩ := List.getElem?_eq_some_iff.mp second
  have insideM : m < (updates.map Prod.fst).length := by simpa using boundM
  have insideN : n < (updates.map Prod.fst).length := by simpa using boundN
  have places : (updates.map Prod.fst)[m] = (updates.map Prod.fst)[n] := by
    rw [List.getElem_map, List.getElem_map, atM, atN]
  exact once.getElem_inj_iff.mp places

/-- The roots of the context a snapshot operation reads. -/
def StoreJob.reads [PyText] (layout : Layout) : StoreJob → Str → Prop
  | .registerAndSnapshot _ exprs => layout.reads exprs
  | .snapshotWithPredicates exprs => fun r => exprs ≠ [] → layout.reads exprs r
  | _ => fun _ => True

section

variable [PyText]

structure Linear (cfg : StoreConfig) (P : StorePool cfg) : Prop where
  /-- The server holds the last version of the history of the committed patches. -/
  stored : (history P.shared.patches).RestrictsTo (fun _ => True) (P.shared.stored cfg.layout)
  fold : ∀ n ≤ P.shared.patches.length, (atVersion P.shared.patches n).version = n ∧
    (atVersion P.shared.patches n).context = (P.shared.patches.take n).foldl deepMerge .nil
  pathVersions : ∀ n p v, (atVersion P.shared.patches n).pathVersions.get p = some v ↔
    LastChange (P.shared.patches.take n) p v
  /-- An update that committed has returned its place in the history. -/
  returned : ∀ t patch v, (t, .update patch, .ok (.version v true)) ∈ P.finished →
    ∃ n, v = n + 1 ∧ P.shared.updates[n]? = some (t, patch)
  /-- A call has at most one place. -/
  once : P.shared.tickets.Nodup
  /-- Every place is that of a call with this patch, which is under way or has returned it. -/
  owned : ∀ n t patch, P.shared.updates[n]? = some (t, patch) →
    (∃ pid job prog, P.procs pid = .busy t job prog ∧ job.patch = some patch) ∨
    ∃ job out, (t, job, out) ∈ P.finished ∧ job.patch = some patch ∧
      (job = .update patch → out = .ok (.version (n + 1) true))
  /-- A trusted snapshot is the part of one version. -/
  snapshots : ∀ t job doc, (t, job, .ok (.snapshot doc)) ∈ P.finished → doc.trusted = true →
    ∃ n ≤ P.shared.patches.length, (atVersion P.shared.patches n).RestrictsTo (job.reads cfg.layout) doc.snapshot
  /-- Only a registration may be refused. -/
  trusted : ∀ t job doc, (t, job, .ok (.snapshot doc)) ∈ P.finished →
    (∀ scanned exprs, job ≠ .registerAndSnapshot scanned exprs) → doc.trusted = true

/-- No command fails. -/
def faultlessRegime (cfg : StoreConfig) : Regime where
  cfg := cfg
  faultless := True
  may _ _ _ _ fate := fate = .done
  reliable _ _ _ _ _ _ h := h

theorem linear_of_sound {cfg : StoreConfig} {P : StorePool cfg} (sound : Pool.Sound (faultlessRegime cfg).contract P) :
    Linear cfg P := by
  have post : ∀ t job out, (t, job, out) ∈ P.finished → (faultlessRegime cfg).Post t job out P.shared :=
    fun t job out member => (sound.finished t job out member).2.2.2 P.shared (Advance.refl _) sound.inv
  have once : P.shared.tickets.Nodup := sound.inv.once trivial
  have seen : ∀ t job doc, (t, job, .ok (.snapshot doc)) ∈ P.finished →
      ((∀ scanned exprs, job ≠ .registerAndSnapshot scanned exprs) → doc.trusted = true) ∧
      (doc.trusted = true → Seen (job.reads cfg.layout) doc.snapshot doc.preds P.shared) := by
    intro t job doc member
    have ends := post t job _ member
    cases job with
    | update patch => obtain ⟨_, _, same, _⟩ := ends; cases same
    | updateContextStore patch => obtain ⟨_, _, _, same, _⟩ := ends; cases same
    | registerAndSnapshot scanned exprs =>
      obtain ⟨_, same, seen⟩ := ends
      cases same
      exact ⟨fun other => absurd rfl (other scanned exprs), seen⟩
    | snapshotTimed =>
      obtain ⟨_, same, answered, seen⟩ := ends
      cases same
      exact ⟨fun _ => answered trivial, seen⟩
    | snapshotWithPredicates exprs =>
      obtain ⟨_, same, answered, seen⟩ := ends
      cases same
      exact ⟨fun _ => answered trivial, seen⟩
    | registerPredicates scanned exprs => rcases ends with ⟨_, same⟩ | ⟨_, same⟩ <;> cases same
    | gcPredicates scanned => rcases ends with same | ⟨_, same⟩ <;> cases same
    | commitAuthorization req => obtain ⟨_, same, _⟩ := ends; cases same
    | appendActuation tombstone => rcases ends with same | ⟨_, same⟩ <;> cases same
    | actuationLog start => obtain ⟨_, same, _⟩ := ends; cases same
  refine ⟨sound.inv.stored_restricts, fun n bound => ⟨atVersion_version bound, history_context _⟩,
    fun n p v => get_pathVersions_iff, fun t patch v member => ?_, once, fun n t patch placed => ?_,
    fun t job doc member trusted => ?_, fun t job doc member => (seen t job doc member).1⟩
  · obtain ⟨_, _, same, committed, _⟩ := post t (.update patch) _ member
    cases same
    exact committed rfl
  · have listed : (t, patch) ∈ P.shared.updates := List.mem_of_getElem? placed
    have given : t ∈ P.shared.tickets := List.mem_map_of_mem listed
    have started : t < P.next := Nat.lt_of_not_le fun later => (sound.fresh t later).1 given
    rcases sound.started t started with ⟨pid, job, prog, busy⟩ | ⟨job, out, member⟩
    · exact Or.inl ⟨pid, job, prog, busy, (sound.busy pid t job prog busy).2.1 patch listed⟩
    · refine Or.inr ⟨job, out, member, (sound.finished t job out member).2.2.1 patch listed, ?_⟩
      rintro rfl
      obtain ⟨v, io, rfl, committed, absent⟩ := post t (.update patch) out member
      cases io with
      | false => exact absurd given (absent trivial rfl)
      | true =>
        obtain ⟨m, rfl, here⟩ := committed rfl
        obtain rfl : m = n := index_unique once here placed
        rfl
  · obtain ⟨n, bound, restricts, _⟩ := (seen t job doc member).2 trusted
    exact ⟨n, bound, restricts⟩

/-! ### Runs without failures -/

def Faultless {cfg : StoreConfig} (events : List (StoreEvent cfg)) : Prop :=
  ∀ pid fate, .step pid fate ∈ events → fate = .done

/-- Every patch is one that the layout accepts. -/
def Accepted {cfg : StoreConfig} (events : List (StoreEvent cfg)) : Prop :=
  ∀ pid job patch, .start pid job ∈ events → job.patch = some patch → cfg.layout.Accepts patch

/-- Any number of processes, in any interleaving of their commands. -/
theorem linear_run {cfg : StoreConfig} {clock : ℚ} {events : List (StoreEvent cfg)} (faultless : Faultless events)
    (accepted : Accepted events) : Linear cfg ((StorePool.init cfg clock).run events) := by
  refine linear_of_sound (Regime.sound_run (R := faultlessRegime cfg) (Pool.along_of_forall fun e member P => ?_))
  cases e with
  | start pid job => exact fun patch asked => accepted pid job patch member asked
  | step pid fate => exact fun _ _ _ _ _ => faultless pid fate member
  | env now => trivial

theorem StoreJob.reads_document (job : StoreJob) (r : Str) : job.reads .document r := by
  cases job with
  | registerAndSnapshot scanned exprs => exact fun shard => nomatch shard
  | snapshotWithPredicates exprs => exact fun _ shard => nomatch shard
  | _ => trivial

end

/-! ### A refused registration -/

def raceConfig : StoreConfig := ⟨.document, 3600⟩

def racePatch : Members := .single "a" (.int 1)

theorem accepts_racePatch : raceConfig.layout.Accepts racePatch :=
  ⟨by simp [racePatch, Members.WF, Json.WF, Members.keys], fun shard => nomatch shard⟩

/-- A process does a job of so many commands. -/
def undisturbed (pid : Nat) (job : StoreJob) (commands : Nat) : List (@StoreEvent PyText.ascii raceConfig) :=
  .start pid job :: List.replicate (commands + 1) (.step pid .done)

/-- Between the reads and the transaction of process 0, process 1 commits an update. -/
def lostRace : List (@StoreEvent PyText.ascii raceConfig) :=
  List.replicate 3 (.step 0 .done) ++ undisturbed 1 (.update racePatch) 4 ++ [.step 0 .done]

/-- A registration of process 0 that loses every race. -/
def lostRaces : List (@StoreEvent PyText.ascii raceConfig) :=
  undisturbed 0 (.update racePatch) 5 ++ undisturbed 1 .snapshotTimed 2 ++
    [.start 0 (.registerAndSnapshot [] ["a == 1".toList]), .step 0 .done, .step 0 .done] ++
    (List.replicate maxTxRetries lostRace).flatten ++ [.step 0 .done]

theorem faultless_lostRaces : @Faultless PyText.ascii raceConfig lostRaces := by
  intro pid fate member
  simp only [lostRaces, undisturbed, lostRace, List.mem_append, List.mem_cons, List.mem_flatten, List.mem_replicate,
    List.not_mem_nil, reduceCtorEq, PoolEvent.step.injEq] at member
  grind

theorem accepted_lostRaces : @Accepted PyText.ascii raceConfig lostRaces := by
  intro pid job patch member asked
  simp only [lostRaces, undisturbed, lostRace, List.mem_append, List.mem_cons, List.mem_flatten, List.mem_replicate,
    List.not_mem_nil, reduceCtorEq] at member
  have update : job.patch = none ∨ job = .update racePatch := by grind [StoreJob.patch]
  rcases update with none | rfl
  · rw [none] at asked
    cases asked
  · cases asked
    exact accepts_racePatch

theorem linear_run_lostRaces :
    @Linear PyText.ascii raceConfig (@Pool.run redis (@storeWorkload PyText.ascii raceConfig)
      (@StorePool.init PyText.ascii raceConfig 0) lostRaces) :=
  @linear_run PyText.ascii raceConfig 0 lostRaces faultless_lostRaces accepted_lostRaces

/-- An empty snapshot at version 1. -/
def emptyFirst : Except Fault StoreOut → Bool
  | .ok (.snapshot doc) => doc.snapshot.version == 1 && doc.snapshot.context.keys.isEmpty
  | _ => false

theorem emptyFirst_iff {out : Except Fault StoreOut} :
    emptyFirst out = true ↔ ∃ doc, out = .ok (.snapshot doc) ∧ doc.snapshot.version = 1 ∧ doc.snapshot.context.keys = [] := by
  unfold emptyFirst
  split
  · simp
  · rename_i other
    simp only [Bool.false_eq_true, false_iff]
    rintro ⟨doc, rfl, _⟩
    exact other doc rfl

/-- The refused registration returns no version's context. -/
theorem refused_registration_no_version :
    ¬∀ (cfg : StoreConfig) (clock : ℚ) (events : List (@StoreEvent PyText.ascii cfg)), @Faultless PyText.ascii cfg events →
      @Accepted PyText.ascii cfg events → ∀ P : @StorePool PyText.ascii cfg,
      P = @Pool.run redis (@storeWorkload PyText.ascii cfg) (@StorePool.init PyText.ascii cfg clock) events →
      ∀ t job doc, (t, job, .ok (.snapshot doc)) ∈ P.finished → ∃ n ≤ P.shared.patches.length,
        (atVersion P.shared.patches n).RestrictsTo (@StoreJob.reads PyText.ascii cfg.layout job) doc.snapshot := by
  intro single
  obtain ⟨P, run⟩ : ∃ P, P = @Pool.run redis (@storeWorkload PyText.ascii raceConfig)
    (@StorePool.init PyText.ascii raceConfig 0) lostRaces := ⟨_, rfl⟩
  -- some snapshot is empty at version 1, when the context was not
  have refused : (P.finished.any fun call => emptyFirst call.2.2) = true := by
    rw [run]
    decide +kernel
  have written : ((atVersion P.shared.patches 1).context.get "a".toList).isSome = true := by
    rw [run]
    decide +kernel
  obtain ⟨⟨t, job, out⟩, member, empty⟩ := List.any_eq_true.mp refused
  obtain ⟨doc, rfl, one, none⟩ := emptyFirst_iff.mp empty
  obtain ⟨n, bound, part⟩ := single raceConfig 0 lostRaces faultless_lostRaces accepted_lostRaces P run t job doc member
  have version := part.version
  rw [atVersion_version bound, one] at version
  subst version
  rw [← part.context _ (@StoreJob.reads_document PyText.ascii job _), Members.get_eq_none.mpr] at written
  · cases written
  · rw [none]
    exact List.not_mem_nil

end Xair
