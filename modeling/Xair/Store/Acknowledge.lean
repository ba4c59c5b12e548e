import Xair.Store.Linear

/-!
# Acknowledged updates

What `update_context_store_timed` says of a write. Its flag is that of a read which
follows the write, so it tells of the write only where the read fails with it.
-/

namespace Xair

open Library

section

variable [PyText]

/-- The closing read of an update succeeds only if the update's transaction has been executed. -/
def readsBack {cfg : StoreConfig} (P : StorePool cfg) : StoreEvent cfg → Bool
  | .step pid .done =>
    match P.procs pid with
    | .busy t (.updateContextStore patch) (.call .getDoc _) => decide ((t, patch) ∈ P.shared.updates)
    | _ => true
  | _ => true

def readsBackRegime (cfg : StoreConfig) : Regime where
  cfg := cfg
  faultless := False
  may t job c s fate := c = .getDoc → fate = .done → ∀ patch, job = .updateContextStore patch → (t, patch) ∈ s.updates
  reliable never := never.elim

/-- An update that is acknowledged is in the store, at a version not after the returned one. -/
def AcknowledgedCommitted {cfg : StoreConfig} (P : StorePool cfg) : Prop :=
  ∀ t patch v io, (t, .updateContextStore patch, .ok (.acknowledged v true io)) ∈ P.finished →
    ∃ n, n + 1 ≤ v ∧ P.shared.updates[n]? = some (t, patch)

end

/-! ### A dropped update -/

/-- The transaction is refused, and the connection is back for the read. -/
def droppedUpdate : List (@StoreEvent PyText.ascii raceConfig) :=
  [.start 0 (.updateContextStore racePatch), .step 0 .done, .step 0 .refused, .step 0 .done, .step 0 .done, .step 0 .done]

/-- The same call undisturbed. -/
def keptUpdate : List (@StoreEvent PyText.ascii raceConfig) := undisturbed 0 (.updateContextStore racePatch) 6

/-- An update that is answered as committed. -/
def trusted : StoreJob → Except Fault StoreOut → Bool
  | .updateContextStore _, .ok (.acknowledged _ kept _) => kept
  | _, _ => false

theorem trusted_iff {job : StoreJob} {out : Except Fault StoreOut} :
    trusted job out = true ↔ ∃ patch v io, job = .updateContextStore patch ∧ out = .ok (.acknowledged v true io) := by
  unfold trusted
  split
  · simp
  · rename_i other
    simp only [Bool.false_eq_true, false_iff]
    rintro ⟨patch, v, io, rfl, rfl⟩
    exact other patch v true io rfl rfl

end Xair
