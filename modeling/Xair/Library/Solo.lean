import Xair.Library.Interference

/-!
# One program by itself

A program that runs while no other does: between its commands only the environment moves,
and each command meets some fate. A run of a method is taken apart into the runs of its
parts.
-/

namespace Xair.Library

variable {S : Service} {α β : Type} {quiet : S.State → S.State → Prop}

/-- The program ends with this result, in this state. -/
inductive Executes (quiet : S.State → S.State → Prop) : Prog S α → S.State → α → S.State → Prop
  | ret {a : α} {s s' : S.State} (moved : quiet s s') : Executes quiet (.ret a) s a s'
  | call {c : S.Command} {next : Except Failure (S.Reply c) → Prog S α} {s s₁ s' : S.State} {a : α} (fate : Fate)
    (moved : quiet s s₁) (rest : Executes quiet (next (S.perform c s₁ fate).1) (S.perform c s₁ fate).2 a s') :
    Executes quiet (.call c next) s a s'

/-- The run in which every command is done at once. -/
def Prog.serve : Prog S α → S.State → α × S.State
  | .ret a, s => (a, s)
  | .call c next, s => (next (.ok (S.exec c s).1)).serve (S.exec c s).2

theorem Prog.serve_bind (p : Prog S α) (f : α → Prog S β) (s : S.State) :
    (p.bind f).serve s = (f (p.serve s).1).serve (p.serve s).2 := by
  induction p generalizing s with
  | ret a => rfl
  | call c next ih => exact ih _ _

/-- However the environment moves between the commands, if all of them are done the program ends with `post`. -/
def Prog.Served (quiet : S.State → S.State → Prop) : Prog S α → S.State → (α → S.State → Prop) → Prop
  | .ret a, s, post => post a s
  | .call c next, s, post =>
    ∀ s', quiet s s' → (next (.ok (S.exec c s').1)).Served quiet (S.exec c s').2 post

theorem Prog.Served.imp {p : Prog S α} {s : S.State} {post post' : α → S.State → Prop} (h : p.Served quiet s post)
    (weaker : ∀ a s', post a s' → post' a s') : p.Served quiet s post' := by
  induction p generalizing s with
  | ret a => exact weaker a s h
  | call c next ih => exact fun s' moved => ih _ (h s' moved)

theorem Prog.Served.bind {p : Prog S α} {f : α → Prog S β} {s : S.State} {post : β → S.State → Prop}
    (h : p.Served quiet s fun a s' => (f a).Served quiet s' post) : (p.bind f).Served quiet s post := by
  induction p generalizing s with
  | ret a => exact h
  | call c next ih => exact fun s' moved => ih _ (h s' moved)

/-- The run in which nothing moves is one of them. -/
theorem Prog.Served.serve (refl : ∀ s, quiet s s) {p : Prog S α} {s : S.State} {post : α → S.State → Prop}
    (h : p.Served quiet s post) : post (p.serve s).1 (p.serve s).2 := by
  induction p generalizing s with
  | ret a => exact h
  | call c next ih => exact ih _ (h s (refl s))

namespace Executes

theorem of_serve (refl : ∀ s, quiet s s) (p : Prog S α) (s : S.State) : Executes quiet p s (p.serve s).1 (p.serve s).2 := by
  induction p generalizing s with
  | ret a => exact .ret (refl s)
  | call c next ih => exact .call .done (refl s) (ih _ _)

theorem later (trans : ∀ s s' s'', quiet s s' → quiet s' s'' → quiet s s'') {p : Prog S α} {s s' s'' : S.State} {a : α}
    (run : Executes quiet p s a s') (moved : quiet s' s'') : Executes quiet p s a s'' := by
  induction run with
  | ret before => exact .ret (trans _ _ _ before moved)
  | call fate before _ ih => exact .call fate before (ih moved)

/-- A run of one program after another. -/
theorem of_bind (refl : ∀ s, quiet s s) {p : Prog S α} {f : α → Prog S β} {s s' : S.State} {b : β}
    (run : Executes quiet (p.bind f) s b s') : ∃ a s₁, Executes quiet p s a s₁ ∧ Executes quiet (f a) s₁ b s' := by
  induction p generalizing s with
  | ret a => exact ⟨a, s, .ret (refl s), run⟩
  | call c next ih =>
    cases run with
    | call fate moved rest =>
      obtain ⟨a, s₁, first, later⟩ := ih _ rest
      exact ⟨a, s₁, .call fate moved first, later⟩

/-- What the environment and every command that the program can send only move along. -/
theorem along {sent : S.Command → Prop} {R : S.State → S.State → Prop} (refl : ∀ s, R s s)
    (trans : ∀ s s' s'', R s s' → R s' s'' → R s s'') (others : ∀ s s', quiet s s' → R s s')
    (command : ∀ c s, sent c → R s (S.exec c s).2) {p : Prog S α} (sends : p.Sends sent) {s s' : S.State} {a : α}
    (run : Executes quiet p s a s') : R s s' := by
  induction run with
  | ret moved => exact others _ _ moved
  | call fate moved _ ih =>
    refine trans _ _ _ (trans _ _ _ (others _ _ moved) ?_) (ih (sends.2 _))
    exact S.perform_of (P := R _) (refl _) (command _ _ sends.1) fate

end Executes

namespace Method

variable {L ε : Type}

/-- A call that returns. -/
def Returns (quiet : S.State → S.State → Prop) (m : Method S L ε α) (l : L) (s : S.State) (a : α) (l' : L) (s' : S.State) : Prop :=
  Executes quiet (m.program l) s (.ok a, l') s'

variable {l l' : L} {s s' : S.State} {a : α}

theorem of_returns_pure {b : α} (run : Returns quiet (pure b : Method S L ε α) l s a l' s') : a = b ∧ l' = l ∧ quiet s s' := by
  cases run with
  | ret moved => exact ⟨rfl, rfl, moved⟩

theorem not_returns_throw {e : ε} : ¬Returns quiet (throw e : Method S L ε α) l s a l' s' := by
  intro run
  cases run

theorem of_returns_bind (refl : ∀ s, quiet s s) {m : Method S L ε β} {f : β → Method S L ε α}
    (run : Returns quiet (m >>= f) l s a l' s') :
    ∃ b l₁ s₁, Returns quiet m l s b l₁ s₁ ∧ Returns quiet (f b) l₁ s₁ a l' s' := by
  obtain ⟨⟨result, l₁⟩, s₁, first, later⟩ := Executes.of_bind refl run
  cases result with
  | ok b => exact ⟨b, l₁, s₁, first, later⟩
  | error e => cases later

theorem of_returns_command {fault : Failure → ε} {c : S.Command} {reply : S.Reply c}
    (run : Returns quiet (command fault c : Method S L ε (S.Reply c)) l s reply l' s') :
    ∃ s₁, quiet s s₁ ∧ reply = (S.exec c s₁).1 ∧ l' = l ∧ quiet (S.exec c s₁).2 s' := by
  cases run with
  | call fate moved rest =>
    cases fate with
    | done =>
      cases rest with
      | ret after => exact ⟨_, moved, rfl, rfl, after⟩
    | refused => cases rest
    | broken effect => cases rest

theorem Returns.along {sent : S.Command → Prop} {R : S.State → S.State → Prop} (refl : ∀ s, R s s)
    (trans : ∀ s s' s'', R s s' → R s' s'' → R s s'') (others : ∀ s s', quiet s s' → R s s')
    (command : ∀ c s, sent c → R s (S.exec c s).2) {m : Method S L ε α} (sends : Sends sent m)
    (run : Returns quiet m l s a l' s') : R s s' :=
  Executes.along refl trans others command (sends l) run

/-! ### Calls whose commands are all done -/

/-- The call ends with `ok` if it returns and with `raised` if it raises, when every command is done. -/
def Served (quiet : S.State → S.State → Prop) (m : Method S L ε α) (l : L) (s : S.State) (ok : α → L → S.State → Prop)
    (raised : ε → L → S.State → Prop) : Prop :=
  (m.program l).Served quiet s fun out s' =>
    match out.1 with
    | .ok a => ok a out.2 s'
    | .error e => raised e out.2 s'

variable {ok : α → L → S.State → Prop} {raised : ε → L → S.State → Prop}

theorem Served.imp {m : Method S L ε α} (h : Served quiet m l s ok raised) {ok' : α → L → S.State → Prop}
    {raised' : ε → L → S.State → Prop} (returned : ∀ a l' s', ok a l' s' → ok' a l' s')
    (thrown : ∀ e l' s', raised e l' s' → raised' e l' s') : Served quiet m l s ok' raised' := by
  refine Prog.Served.imp h fun out s' ends => ?_
  obtain ⟨result, l'⟩ := out
  cases result with
  | ok a => exact returned a l' s' ends
  | error e => exact thrown e l' s' ends

theorem served_pure {a : α} (h : ok a l s) : Served quiet (pure a : Method S L ε α) l s ok raised := h

theorem served_throw {e : ε} (h : raised e l s) : Served quiet (throw e : Method S L ε α) l s ok raised := h

theorem served_bind {m : Method S L ε β} {f : β → Method S L ε α}
    (h : Served quiet m l s (fun b l' s' => Served quiet (f b) l' s' ok raised) raised) :
    Served quiet (m >>= f) l s ok raised := by
  refine Prog.Served.bind (Prog.Served.imp h fun out s' ends => ?_)
  obtain ⟨result, l'⟩ := out
  cases result with
  | ok b => exact ends
  | error e => exact ends

theorem served_tryCatch {m : Method S L ε α} {handler : ε → Method S L ε α}
    (h : Served quiet m l s ok fun e l' s' => Served quiet (handler e) l' s' ok raised) :
    Served quiet (tryCatch m handler) l s ok raised := by
  refine Prog.Served.bind (Prog.Served.imp h fun out s' ends => ?_)
  obtain ⟨result, l'⟩ := out
  cases result with
  | ok a => exact ends
  | error e => exact ends

theorem served_ite {p : Prop} [Decidable p] {m m' : Method S L ε α} (yes : p → Served quiet m l s ok raised)
    (no : ¬p → Served quiet m' l s ok raised) : Served quiet (if p then m else m') l s ok raised := by
  split
  · exact yes ‹_›
  · exact no ‹_›

theorem served_get_bind {f : L → Method S L ε α} (h : Served quiet (f l) l s ok raised) :
    Served quiet (get >>= f) l s ok raised := h

theorem served_modify_bind {g : L → L} {f : PUnit → Method S L ε α} (h : Served quiet (f ⟨⟩) (g l) s ok raised) :
    Served quiet (modify g >>= f) l s ok raised := h

theorem served_command {fault : Failure → ε} {c : S.Command} {ok : S.Reply c → L → S.State → Prop}
    (h : ∀ s', quiet s s' → ok (S.exec c s').1 l (S.exec c s').2) : Served quiet (command fault c) l s ok raised := h

end Method

end Xair.Library
