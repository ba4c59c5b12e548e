import Xair.Store.Linear
import Xair.Store.Memory

/-!
# Registered predicates in every layout

The entries of the registered predicates follow their truth values, in every state
of every run of every layout, and an unchanged predicate version says that no truth
value has changed in between.
-/

namespace Xair

open Library

/-- What a store shows, with the patches it has merged. -/
structure StoreView where
  context : Members
  version : Nat
  preds : Dict Str Entry
  patches : List Members

def MemoryStore.view (m : MemoryStore) : StoreView := ⟨m.snapshot.context, m.snapshot.version, m.preds, m.patches⟩

def Redis.view (layout : Layout) (s : Redis) : StoreView :=
  ⟨(s.stored layout).context, (s.stored layout).version, s.registry layout, s.patches⟩

/-- Patches are only appended. -/
theorem patches_perform (c : Command) (s : Redis) (fate : Fate) : s.patches <+: (redis.perform c s fate).2.patches := by
  have exec : s.patches <+: (Redis.exec c s).2.patches := by
    cases c with
    | exec watched writes patch =>
      simp only [Redis.exec]
      split
      · exact (List.prefix_append s.updates patch.toList).map Prod.snd
      · exact List.prefix_refl _
    | commit layout ticket req =>
      change s.patches <+: (s.commitScript layout ticket req).2.patches
      rw [Redis.patches, Redis.patches, Redis.updates_commitScript]
    | _ => exact List.prefix_refl _
  cases fate with
  | done => exact exec
  | refused => exact List.prefix_refl _
  | broken effect =>
    cases effect with
    | false => exact List.prefix_refl _
    | true => exact exec

section

variable [PyText]

/-- Every registered predicate's entry has its present truth value, and a version not before the
last one at which that value changed. -/
structure StoreView.Tracks (view : StoreView) : Prop where
  version : view.version = view.patches.length
  truth : ∀ expr entry, view.preds.get expr = some entry → truth expr view.context = .ok entry.truth
  flips : ∀ expr entry, view.preds.get expr = some entry → ∀ n < view.patches.length,
    Xair.truth expr (atVersion view.patches n).context ≠ Xair.truth expr (atVersion view.patches (n + 1)).context →
      n + 1 ≤ entry.version

/-- Two moments of one run. -/
structure StoreView.Follows (first last : StoreView) : Prop where
  before : first.Tracks
  after : last.Tracks
  held : ∀ exprs, predicateVersion first.preds exprs ≠ -1 →
    predicateVersion last.preds exprs = predicateVersion first.preds exprs → ∀ expr ∈ exprs,
      ∃ value, ∀ n, first.version ≤ n → n ≤ last.version → truth expr (atVersion last.patches n).context = .ok value

/-- The past of correct entries. -/
theorem EntryOk.flips {patches : List Members} {expr : Str} {entry : Entry} (h : EntryOk patches expr entry) {n : Nat}
    (bound : n < patches.length)
    (flipped : truth expr (atVersion patches n).context ≠ truth expr (atVersion patches (n + 1)).context) :
    n + 1 ≤ entry.version := by
  by_contra later
  exact flipped ((h.2 n (by omega) (by omega)).trans (h.2 (n + 1) (by omega) (by omega)).symm)

theorem tracks_of_entriesOk {view : StoreView} (version : view.version = view.patches.length)
    (entries : EntriesOk view.patches view.preds)
    (same : ∀ expr, truth expr view.context = truth expr (history view.patches).context) : view.Tracks :=
  ⟨version, fun expr entry stored => (same expr).trans (entries expr entry stored).now,
    fun expr entry stored _ bound flipped => (entries expr entry stored).flips bound flipped⟩

/-- Equal versions of registered predicates, before and after more patches. -/
theorem truth_between_equal_predicateVersions {patches more : List Members} {preds preds' : Dict Str Entry}
    (first : EntriesOk patches preds) (last : EntriesOk (patches ++ more) preds') {exprs : List Str}
    (registered : predicateVersion preds exprs ≠ -1) (same : predicateVersion preds' exprs = predicateVersion preds exprs)
    {expr : Str} (member : expr ∈ exprs) :
    ∃ value, ∀ n, patches.length ≤ n → n ≤ (patches ++ more).length →
      truth expr (atVersion (patches ++ more) n).context = .ok value := by
  obtain ⟨entry, stored, version⟩ := predicateVersion_spec
    (show predicateVersion preds' exprs ≠ -1 by rw [same]; exact registered) member
  -- no entry of the first moment is newer than that moment
  have past : predicateVersion preds exprs ≤ patches.length :=
    predicateVersion_le fun e _ old found => (first e old found).1
  exact ⟨entry.truth, fun n after bound => (last expr entry stored).2 n (by omega) bound⟩

theorem follows_of_entriesOk {first last : StoreView} (tracksFirst : first.Tracks) (tracksLast : last.Tracks)
    (before : EntriesOk first.patches first.preds) (after : EntriesOk last.patches last.preds)
    (grown : first.patches <+: last.patches) : first.Follows last := by
  obtain ⟨more, appended⟩ := grown
  refine ⟨tracksFirst, tracksLast, fun exprs registered same expr member => ?_⟩
  rw [tracksFirst.version, tracksLast.version, ← appended]
  exact truth_between_equal_predicateVersions before (by rw [appended]; exact after) registered same member

/-! ### The layouts -/

theorem MemoryStore.Inv.tracks {m : MemoryStore} (inv : m.Inv) : m.view.Tracks :=
  tracks_of_entriesOk (by rw [view, inv.snapshot, history_version]) inv.entries fun _ => by rw [view, inv.snapshot]

theorem StoreInv.tracks {layout : Layout} {faultless : Prop} {s : Redis} (inv : StoreInv layout faultless s) :
    (s.view layout).Tracks := by
  have restricts := inv.stored_restricts
  exact tracks_of_entriesOk (restricts.version.trans (history_version _)) inv.entries fun _ =>
    truth_congr_root fun r _ => restricts.context r trivial

/-- Any command may fail, and any reply may be lost. -/
def faultyRegime (cfg : StoreConfig) : Regime where
  cfg := cfg
  faultless := False
  may _ _ _ _ _ := True
  reliable never := never.elim

theorem sound_faulty {cfg : StoreConfig} {clock : ℚ} {events : List (StoreEvent cfg)} (accepted : Accepted events) :
    Pool.Sound (faultyRegime cfg).contract ((StorePool.init cfg clock).run events) := by
  refine Regime.sound_run (R := faultyRegime cfg) (Pool.along_of_forall fun e member P => ?_)
  cases e with
  | start pid job => exact fun patch asked => accepted pid job patch member asked
  | step pid fate => exact fun _ _ _ _ _ => trivial
  | env now => trivial

theorem inv_run {cfg : StoreConfig} {clock : ℚ} {events : List (StoreEvent cfg)} (accepted : Accepted events) :
    StoreInv cfg.layout False ((StorePool.init cfg clock).run events).shared :=
  (sound_faulty accepted).inv

/-- In every state of every run, of any number of processes and with any failures, in every layout. -/
theorem predicates_follow :
    (∀ (retention : ℚ) (calls more : List MemoryCall),
      (∀ call ∈ calls ++ more, ∀ patch, call.patch = some patch → patch.WF) →
        (MemoryStore.init.run retention calls).view.Follows (MemoryStore.init.run retention (calls ++ more)).view) ∧
    ∀ (cfg : StoreConfig) (clock : ℚ) (events more : List (StoreEvent cfg)), Accepted (events ++ more) →
      (((StorePool.init cfg clock).run events).shared.view cfg.layout).Follows
        (((StorePool.init cfg clock).run (events ++ more)).shared.view cfg.layout) := by
  refine ⟨fun retention calls more wf => ?_, fun cfg clock events more accepted => ?_⟩
  · obtain ⟨inv, _⟩ := MemoryStore.inv_init.run retention fun call member => wf call (List.mem_append_left _ member)
    obtain ⟨inv', grown⟩ := inv.run retention fun call member => wf call (List.mem_append_right calls member)
    rw [MemoryStore.run_append]
    exact follows_of_entriesOk inv.tracks inv'.tracks inv.entries inv'.entries grown
  · have inv : StoreInv cfg.layout False ((StorePool.init cfg clock).run events).shared :=
      inv_run fun pid job patch member => accepted pid job patch (List.mem_append_left _ member)
    have inv' : StoreInv cfg.layout False ((StorePool.init cfg clock).run (events ++ more)).shared := inv_run accepted
    refine follows_of_entriesOk inv.tracks inv'.tracks inv.entries inv'.entries ?_
    rw [Pool.run_append]
    refine Pool.shared_run (R := fun s s' : Redis => s.patches <+: s'.patches) ?_ ?_ patches_perform ?_ _ more
    · exact fun _ => List.prefix_refl _
    · exact fun _ _ _ => List.IsPrefix.trans
    · exact fun _ s => List.prefix_refl s.patches

end

/-- `a == 1` is registered, retired by an update and registered again. -/
def retiredOnce : List MemoryCall :=
  [.update 0 racePatch, .register 0 ["a == 1".toList], .update 100 (.single "b" (.int 2)), .register 100 ["a == 1".toList]]

theorem predicates_follow_retiredOnce :
    @StoreView.Follows PyText.ascii (@MemoryStore.run PyText.ascii 10 .init (retiredOnce.take 2)).view
        (@MemoryStore.run PyText.ascii 10 .init retiredOnce).view ∧
      @StoreView.Follows PyText.ascii
        ((@Pool.run redis (@storeWorkload PyText.ascii raceConfig) (@StorePool.init PyText.ascii raceConfig 0) []).shared.view
          .document)
        ((@Pool.run redis (@storeWorkload PyText.ascii raceConfig) (@StorePool.init PyText.ascii raceConfig 0)
          lostRaces).shared.view .document) := by
  refine ⟨(@predicates_follow PyText.ascii).1 10 (retiredOnce.take 2) (retiredOnce.drop 2) ?_,
    (@predicates_follow PyText.ascii).2 raceConfig 0 [] lostRaces accepted_lostRaces⟩
  simp [retiredOnce, MemoryCall.patch, racePatch, Members.WF, Json.WF, Members.keys]

end Xair
