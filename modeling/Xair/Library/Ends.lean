import Mathlib

/-!
# How a stateful computation ends

`Ends m s ok raised` holds if the computation `m`, started in `s`, either returns
a value in a state with `ok` or raises in a state with `raised`. What was written
before the exception stays written. Every rule is an equivalence, so a program is
unfolded from its first step to its last.
-/

namespace Xair.Library

variable {ε σ α β : Type}

def Ends (m : EStateM ε σ α) (s : σ) (ok : α → σ → Prop) (raised : ε → σ → Prop) : Prop :=
  match m.run s with
  | .ok a s' => ok a s'
  | .error e s' => raised e s'

/-- The state in which a computation ends, returned or raised. -/
def finalState (m : EStateM ε σ α) (s : σ) : σ :=
  match m.run s with
  | .ok _ s' => s'
  | .error _ s' => s'

theorem finalState_get_bind {f : σ → EStateM ε σ β} (s : σ) :
    finalState (get >>= f) s = finalState (f s) s := rfl

theorem finalState_set_bind {f : PUnit → EStateM ε σ β} (s s' : σ) :
    finalState (set s' >>= f) s = finalState (f ⟨⟩) s' := rfl

/-- What is done with a result that writes nothing does not matter. -/
theorem finalState_bind_pure {m : EStateM ε σ α} {f : α → β} (s : σ) :
    finalState (m >>= fun a => pure (f a)) s = finalState m s := by
  unfold finalState
  rw [EStateM.run_bind]
  cases m.run s <;> rfl

variable {s : σ} {ok : β → σ → Prop} {raised : ε → σ → Prop}

theorem ends_pure {a : β} : Ends (pure a : EStateM ε σ β) s ok raised ↔ ok a s := Iff.rfl

theorem ends_bind {m : EStateM ε σ α} {f : α → EStateM ε σ β} :
    Ends (m >>= f) s ok raised ↔ Ends m s (fun a s' => Ends (f a) s' ok raised) raised := by
  rw [Ends, Ends, EStateM.run_bind]
  cases m.run s <;> rfl

theorem ends_get {ok : σ → σ → Prop} : Ends (get : EStateM ε σ σ) s ok raised ↔ ok s s := Iff.rfl

theorem ends_set {ok : PUnit → σ → Prop} {s' : σ} :
    Ends (set s' : EStateM ε σ PUnit) s ok raised ↔ ok ⟨⟩ s' := Iff.rfl

theorem ends_modify {ok : PUnit → σ → Prop} {f : σ → σ} :
    Ends (modify f : EStateM ε σ PUnit) s ok raised ↔ ok ⟨⟩ (f s) := Iff.rfl

theorem ends_throw {e : ε} : Ends (throw e : EStateM ε σ β) s ok raised ↔ raised e s := Iff.rfl

theorem ends_ite {c : Prop} [Decidable c] {m n : EStateM ε σ β} :
    Ends (if c then m else n) s ok raised ↔ (c → Ends m s ok raised) ∧ (¬c → Ends n s ok raised) := by
  split <;> rename_i h <;> simp [h]

theorem ends_congr {m : EStateM ε σ β} {ok' : β → σ → Prop} {raised' : ε → σ → Prop} (returned : ∀ a s', ok a s' ↔ ok' a s')
    (thrown : ∀ e s', raised e s' ↔ raised' e s') : Ends m s ok raised ↔ Ends m s ok' raised' := by
  rw [Ends, Ends]
  cases m.run s with
  | ok a s' => exact returned a s'
  | error e s' => exact thrown e s'

/-- Consequence. -/
theorem Ends.imp {m : EStateM ε σ β} {ok' : β → σ → Prop} {raised' : ε → σ → Prop} (h : Ends m s ok raised)
    (returned : ∀ a s', ok a s' → ok' a s') (thrown : ∀ e s', raised e s' → raised' e s') :
    Ends m s ok' raised' := by
  rw [Ends] at h ⊢
  cases run : m.run s with
  | ok a s' => rw [run] at h; exact returned a s' h
  | error e s' => rw [run] at h; exact thrown e s' h

theorem Ends.and {m : EStateM ε σ β} {ok' : β → σ → Prop} {raised' : ε → σ → Prop} (h : Ends m s ok raised)
    (h' : Ends m s ok' raised') :
    Ends m s (fun a s' => ok a s' ∧ ok' a s') fun e s' => raised e s' ∧ raised' e s' := by
  rw [Ends] at h h' ⊢
  cases run : m.run s with
  | ok a s' =>
    rw [run] at h h'
    exact ⟨h, h'⟩
  | error e s' =>
    rw [run] at h h'
    exact ⟨h, h'⟩

/-- What holds however the computation ends holds of its final state. -/
theorem Ends.finalState {m : EStateM ε σ β} {P : σ → Prop} (h : Ends m s (fun _ => P) fun _ => P) :
    P (finalState m s) := by
  rw [Ends] at h
  rw [Library.finalState]
  cases run : m.run s with
  | ok a s' => rw [run] at h; exact h
  | error e s' => rw [run] at h; exact h

/-- What a computation ends with is what any statement about its end says. -/
theorem Ends.of_run_ok {m : EStateM ε σ β} (h : Ends m s ok raised) {a : β} {s' : σ} (run : m.run s = .ok a s') :
    ok a s' := by
  rw [Ends, run] at h
  exact h

theorem Ends.of_run_error {m : EStateM ε σ β} (h : Ends m s ok raised) {e : ε} {s' : σ}
    (run : m.run s = .error e s') : raised e s' := by
  rw [Ends, run] at h
  exact h

/-- The computation returns. -/
def returns (m : EStateM ε σ α) (s : σ) : Bool :=
  match m.run s with
  | .ok _ _ => true
  | .error _ _ => false

theorem exists_of_returns {m : EStateM ε σ α} {s : σ} (h : returns m s = true) : ∃ a s', m.run s = .ok a s' := by
  rw [returns] at h
  cases run : m.run s with
  | ok a s' => exact ⟨a, s', rfl⟩
  | error e s' =>
    rw [run] at h
    cases h

end Xair.Library
