import Xair.Library.Ends
import Mathlib.Order.Defs.Unbundled

/-!
# What a stateful computation moves along

`Moves R m` holds if `m` ends, returned or raised, in a state that the preorder `R` relates
to the one it started in. It is enough that each of its steps does.
-/

namespace Xair.Library

variable {ε σ α β : Type} {R : σ → σ → Prop}

def Moves (R : σ → σ → Prop) (m : EStateM ε σ α) : Prop := ∀ s, Ends m s (fun _ s' => R s s') fun _ s' => R s s'

theorem Moves.finalState {m : EStateM ε σ α} (h : Moves R m) (s : σ) : R s (finalState m s) := Ends.finalState (h s)

theorem moves_modify {f : σ → σ} (moved : ∀ s, R s (f s)) : Moves R (modify f : EStateM ε σ PUnit) := fun s =>
  ends_modify.mpr (moved s)

theorem moves_get_bind {f : σ → EStateM ε σ β} (next : ∀ s, Moves R (f s)) : Moves R (get >>= f) := fun s =>
  ends_bind.mpr (next s s)

theorem moves_ite {c : Prop} [Decidable c] {m n : EStateM ε σ α} (yes : c → Moves R m) (no : ¬c → Moves R n) :
    Moves R (if c then m else n) := by
  split
  · exact yes ‹c›
  · exact no ‹¬c›

section

variable [IsPreorder σ R]

theorem moves_pure (a : α) : Moves R (pure a : EStateM ε σ α) := fun s => ends_pure.mpr (Std.Refl.refl s)

theorem moves_throw (e : ε) : Moves R (throw e : EStateM ε σ α) := fun s => ends_throw.mpr (Std.Refl.refl s)

/-- The rest of a computation that has come from `s` to `s'`. -/
theorem Moves.after {m : EStateM ε σ α} (h : Moves R m) {s s' : σ} (moved : R s s') : Ends m s' (fun _ s'' => R s s'') fun _ s'' => R s s'' :=
  (h s').imp (fun _ _ later => IsTrans.trans _ _ _ moved later) fun _ _ later => IsTrans.trans _ _ _ moved later

theorem moves_bind {m : EStateM ε σ α} {f : α → EStateM ε σ β} (first : Moves R m) (next : ∀ a, Moves R (f a)) :
    Moves R (m >>= f) := fun s =>
  ends_bind.mpr ((first s).imp (fun a _ moved => (next a).after moved) fun _ _ moved => moved)

/-- A step that writes a state made from the one it has read. -/
theorem moves_set {m : EStateM ε σ β} (rest : Moves R m) {s s' : σ} (moved : R s s') :
    Ends (set s' >>= fun _ => m) s (fun _ s'' => R s s'') fun _ s'' => R s s'' :=
  ends_bind.mpr (rest.after moved)

end

end Xair.Library
