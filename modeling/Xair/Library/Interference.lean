import Mathlib

/-!
# Programs under interference

Processes run programs that send atomic commands to one shared service. Between
two commands of a program the others run; a command may fail before it takes
effect, or its reply may be lost. `Safe` is the rely-guarantee judgement for one
program, `Runs` the same for a method of an object that keeps local state.
-/

namespace Xair.Library

/-- A shared state with its atomic commands. -/
structure Service where
  Command : Type
  Reply : Command → Type
  State : Type
  exec : (c : Command) → State → Reply c × State

/-- How a command failed: the service refused it, or the connection broke. -/
inductive Failure where
  | refused | broken
  deriving DecidableEq

inductive Prog (S : Service) (α : Type) where
  | ret (a : α)
  | call (c : S.Command) (next : Except Failure (S.Reply c) → Prog S α)

namespace Prog

variable {S : Service} {α β : Type}

def bind : Prog S α → (α → Prog S β) → Prog S β
  | ret a, f => f a
  | call c next, f => call c fun r => (next r).bind f

instance : Monad (Prog S) where
  pure := ret
  bind := bind

theorem bind_ret (p : Prog S α) : p.bind ret = p := by
  induction p with
  | ret a => rfl
  | call c next ih => exact congrArg (call c) (funext ih)

theorem bind_bind {γ : Type} (p : Prog S α) (f : α → Prog S β) (g : β → Prog S γ) :
    (p.bind f).bind g = p.bind fun a => (f a).bind g := by
  induction p with
  | ret a => rfl
  | call c next ih => exact congrArg (call c) (funext ih)

instance : LawfulMonad (Prog S) :=
  LawfulMonad.mk' (Prog S) bind_ret (fun _ _ => rfl) bind_bind

/-- What the program ends with if no command is done any more. -/
def stop : Prog S α → α
  | ret a => a
  | call _ next => (next (.error .refused)).stop

end Prog

/-- Every command the program can send is `ok`. -/
def Prog.Sends {S : Service} {α : Type} (ok : S.Command → Prop) : Prog S α → Prop
  | .ret _ => True
  | .call c next => ok c ∧ ∀ reply, (next reply).Sends ok

theorem Prog.Sends.bind {S : Service} {α β : Type} {ok : S.Command → Prop} {p : Prog S α} {f : α → Prog S β}
    (h : p.Sends ok) (later : ∀ a, (f a).Sends ok) : (p.bind f).Sends ok := by
  induction p with
  | ret a => exact later a
  | call c next ih => exact ⟨h.1, fun reply => ih reply (h.2 reply)⟩

theorem Prog.Sends.imp {S : Service} {α : Type} {ok ok' : S.Command → Prop} {p : Prog S α} (h : p.Sends ok)
    (weaker : ∀ c, ok c → ok' c) : p.Sends ok' := by
  induction p with
  | ret a => trivial
  | call c next ih => exact ⟨weaker c h.1, fun reply => ih reply (h.2 reply)⟩

theorem Prog.sends_of_forall {S : Service} {α : Type} {ok : S.Command → Prop} (all : ∀ c, ok c) (p : Prog S α) :
    p.Sends ok := by
  induction p with
  | ret a => trivial
  | call c next ih => exact ⟨all c, ih⟩

/-- What becomes of a command. A connection may break before or after the command takes effect. -/
inductive Fate where
  | done | refused
  | broken (effect : Bool)
  deriving DecidableEq

def Service.perform (S : Service) (c : S.Command) (s : S.State) : Fate → Except Failure (S.Reply c) × S.State
  | .done => (.ok (S.exec c s).1, (S.exec c s).2)
  | .refused => (.error .refused, s)
  | .broken effect => (.error .broken, if effect then (S.exec c s).2 else s)

theorem Service.perform_of {S : Service} {P : S.State → Prop} {c : S.Command} {s : S.State} (same : P s)
    (effect : P (S.exec c s).2) (fate : Fate) : P (S.perform c s fate).2 := by
  cases fate with
  | done => exact effect
  | refused => exact same
  | broken took =>
    cases took
    · exact same
    · exact effect

/-- A command takes effect, or nothing has happened. -/
theorem Service.perform_cases (S : Service) (c : S.Command) (s : S.State) (fate : Fate) : (S.perform c s fate).2 = s ∨
    fate ∈ [.done, .broken true] ∧ (S.perform c s fate).2 = (S.exec c s).2 := by
  cases fate with
  | done => exact Or.inr ⟨List.mem_cons_self, rfl⟩
  | refused => exact Or.inl rfl
  | broken took =>
    cases took with
    | false => exact Or.inl rfl
    | true => exact Or.inr ⟨List.mem_cons_of_mem _ List.mem_cons_self, rfl⟩

/-! ### Rely and guarantee -/

/-- The invariant of the shared state, what a program with a given ticket and role may do to it, and
what it relies on the others for. -/
structure Discipline (S : Service) (Role : Type) where
  Inv : S.State → Prop
  Step : Nat → Role → S.State → S.State → Prop
  Rely : Nat → S.State → S.State → Prop
  step_refl : ∀ t role s, Step t role s s
  rely_refl : ∀ t s, Rely t s s
  rely_trans : ∀ t s s' s'', Rely t s s' → Rely t s' s'' → Rely t s s''
  rely_of_step : ∀ t role t' s s', t ≠ t' → Step t role s s' → Rely t' s s'

variable {S : Service} {Role α β : Type}

/-- The program keeps the invariant and its guarantee whatever the others do and whatever becomes
of its commands, among the fates that `may` come, and ends with `post`. -/
def Safe (D : Discipline S Role) (t : Nat) (role : Role) (may : S.Command → S.State → Fate → Prop) :
    Prog S α → S.State → (α → S.State → Prop) → Prop
  | .ret a, s, post => ∀ s', D.Rely t s s' → D.Inv s' → post a s'
  | .call c next, s, post => ∀ s', D.Rely t s s' → D.Inv s' → ∀ fate, may c s' fate →
      D.Inv (S.perform c s' fate).2 ∧ D.Step t role s' (S.perform c s' fate).2 ∧
        Safe D t role may (next (S.perform c s' fate).1) (S.perform c s' fate).2 post

section

variable {D : Discipline S Role} {t : Nat} {role : Role} {may : S.Command → S.State → Fate → Prop}

theorem Safe.rely {p : Prog S α} {s s' : S.State} {post : α → S.State → Prop} (h : Safe D t role may p s post)
    (rely : D.Rely t s s') : Safe D t role may p s' post := by
  cases p with
  | ret a => exact fun s'' later inv => h s'' (D.rely_trans t _ _ _ rely later) inv
  | call c next => exact fun s'' later inv => h s'' (D.rely_trans t _ _ _ rely later) inv

theorem Safe.imp {p : Prog S α} {s : S.State} {post post' : α → S.State → Prop} (h : Safe D t role may p s post)
    (weaker : ∀ a s', D.Inv s' → post a s' → post' a s') : Safe D t role may p s post' := by
  induction p generalizing s with
  | ret a => exact fun s' rely inv => weaker a s' inv (h s' rely inv)
  | call c next ih =>
    intro s' rely inv fate allowed
    obtain ⟨after, step, rest⟩ := h s' rely inv fate allowed
    exact ⟨after, step, ih _ rest⟩

/-- What a program ends with stays true under the others. -/
theorem Safe.always {p : Prog S α} {s : S.State} {post : α → S.State → Prop} (h : Safe D t role may p s post) :
    Safe D t role may p s fun a s' => ∀ s'', D.Rely t s' s'' → D.Inv s'' → post a s'' := by
  induction p generalizing s with
  | ret a => exact fun s' rely _ s'' later inv => h s'' (D.rely_trans t _ _ _ rely later) inv
  | call c next ih =>
    intro s' rely inv fate allowed
    obtain ⟨after, step, rest⟩ := h s' rely inv fate allowed
    exact ⟨after, step, ih _ rest⟩

theorem Safe.bind {p : Prog S α} {f : α → Prog S β} {s : S.State} {post : β → S.State → Prop}
    (inv : D.Inv s) (h : Safe D t role may p s fun a s' => Safe D t role may (f a) s' post) :
    Safe D t role may (p.bind f) s post := by
  induction p generalizing s with
  | ret a => exact h s (D.rely_refl t s) inv
  | call c next ih =>
    intro s' rely inv' fate allowed
    obtain ⟨after, step, rest⟩ := h s' rely inv' fate allowed
    exact ⟨after, step, ih _ after rest⟩

/-- A program whose every command keeps the discipline. -/
theorem Safe.of_sends {sent : S.Command → Prop}
    (keeps : ∀ c s fate, sent c → D.Inv s → may c s fate → D.Inv (S.exec c s).2 ∧ D.Step t role s (S.exec c s).2)
    {p : Prog S α} (sends : p.Sends sent) {s : S.State} : Safe D t role may p s fun _ _ => True := by
  induction p generalizing s with
  | ret a => exact fun _ _ _ => trivial
  | call c next ih =>
    intro s' rely inv fate allowed
    obtain ⟨after, step⟩ := keeps c s' fate sends.1 inv allowed
    exact ⟨S.perform_of (P := D.Inv) inv after fate, S.perform_of (P := D.Step t role s') (D.step_refl t role s') step fate,
      ih _ (sends.2 _)⟩

/-- The steps of the program and of the others have led from the start to the end. -/
theorem Safe.since {R : S.State → S.State → Prop} (trans : ∀ s s' s'', R s s' → R s' s'' → R s s'')
    (step : ∀ s s', D.Step t role s s' → R s s') (others : ∀ s s', D.Rely t s s' → R s s')
    {p : Prog S α} {s : S.State} {post : α → S.State → Prop} (h : Safe D t role may p s post) :
    Safe D t role may p s fun a s' => post a s' ∧ R s s' := by
  have from_ : ∀ {p : Prog S α} {s₀ s : S.State}, R s₀ s → Safe D t role may p s post →
      Safe D t role may p s fun a s' => post a s' ∧ R s₀ s' := by
    intro p
    induction p with
    | ret a => exact fun before h s' rely inv => ⟨h s' rely inv, trans _ _ _ before (others _ _ rely)⟩
    | call c next ih =>
      intro s₀ s before h s' rely inv fate allowed
      obtain ⟨after, moved, rest⟩ := h s' rely inv fate allowed
      exact ⟨after, moved, ih _ (trans _ _ _ (trans _ _ _ before (others _ _ rely)) (step _ _ moved)) rest⟩
  exact from_ (others _ _ (D.rely_refl t s)) h

/-- A program whose every command keeps the discipline and a fact on which the others leave it. -/
theorem Safe.keeping {sent : S.Command → Prop} {K : S.State → Prop} (others : ∀ s s', K s → D.Rely t s s' → K s')
    (keeps : ∀ c s fate, sent c → D.Inv s → K s → may c s fate →
      D.Inv (S.exec c s).2 ∧ D.Step t role s (S.exec c s).2 ∧ K (S.exec c s).2)
    {p : Prog S α} (sends : p.Sends sent) {s : S.State} (start : K s) : Safe D t role may p s fun _ s' => K s' := by
  induction p generalizing s with
  | ret a => exact fun s' rely _ => others _ _ start rely
  | call c next ih =>
    intro s' rely inv fate allowed
    have here := others _ _ start rely
    obtain ⟨after, step, kept⟩ := keeps c s' fate sends.1 inv here allowed
    exact ⟨S.perform_of (P := D.Inv) inv after fate, S.perform_of (P := D.Step t role s') (D.step_refl t role s') step fate,
      ih _ (sends.2 _) (S.perform_of (P := K) here kept fate)⟩

/-- What is safe under one discipline is safe under another with more to keep, if its commands keep that too. -/
theorem Safe.transfer {Role' : Type} {D' : Discipline S Role'} {role' : Role'} {may' : S.Command → S.State → Fate → Prop}
    {sent : S.Command → Prop} (invs : ∀ s, D'.Inv s → D.Inv s) (relies : ∀ s s', D'.Rely t s s' → D.Rely t s s')
    (allows : ∀ c s fate, may' c s fate → may c s fate)
    (keeps : ∀ c s fate, sent c → D'.Inv s → may' c s fate → D.Inv (S.exec c s).2 → D.Step t role s (S.exec c s).2 →
      D'.Inv (S.exec c s).2 ∧ D'.Step t role' s (S.exec c s).2)
    {p : Prog S α} (sends : p.Sends sent) {s : S.State} {post : α → S.State → Prop} (h : Safe D t role may p s post) :
    Safe D' t role' may' p s post := by
  induction p generalizing s with
  | ret a => exact fun s' rely inv => h s' (relies _ _ rely) (invs _ inv)
  | call c next ih =>
    intro s' rely inv fate allowed
    obtain ⟨after, step, rest⟩ := h s' (relies _ _ rely) (invs _ inv) fate (allows _ _ _ allowed)
    suffices D'.Inv (S.perform c s' fate).2 ∧ D'.Step t role' s' (S.perform c s' fate).2 from ⟨this.1, this.2, ih _ (sends.2 _) rest⟩
    rcases S.perform_cases c s' fate with same | ⟨_, executed⟩
    · rw [same]
      exact ⟨inv, D'.step_refl t role' s'⟩
    · rw [executed] at after step ⊢
      exact keeps c s' fate sends.1 inv allowed after step

end

/-! ### Two disciplines at once -/

/-- What two disciplines ask for together; the roles of the second are read as roles of the first. -/
def Discipline.both {Role' : Type} (D : Discipline S Role) (reading : Role' → Role) (D' : Discipline S Role') :
    Discipline S Role' where
  Inv s := D.Inv s ∧ D'.Inv s
  Step t role s s' := D.Step t (reading role) s s' ∧ D'.Step t role s s'
  Rely t s s' := D.Rely t s s' ∧ D'.Rely t s s'
  step_refl t role s := ⟨D.step_refl t (reading role) s, D'.step_refl t role s⟩
  rely_refl t s := ⟨D.rely_refl t s, D'.rely_refl t s⟩
  rely_trans t s s' s'' first second := ⟨D.rely_trans t s s' s'' first.1 second.1, D'.rely_trans t s s' s'' first.2 second.2⟩
  rely_of_step t role t' s s' ne step :=
    ⟨D.rely_of_step t (reading role) t' s s' ne step.1, D'.rely_of_step t role t' s s' ne step.2⟩

/-- What is safe under each of two disciplines is safe under both. -/
theorem Safe.both {Role' : Type} {D : Discipline S Role} {D' : Discipline S Role'} {reading : Role' → Role} {t : Nat} {role : Role'}
    {may may' may'' : S.Command → S.State → Fate → Prop}
    (allows : ∀ c s fate, D.Inv s → D'.Inv s → may'' c s fate → may c s fate ∧ may' c s fate) {p : Prog S α} {s : S.State}
    {post post' : α → S.State → Prop} (h : Safe D t (reading role) may p s post) (h' : Safe D' t role may' p s post') :
    Safe (D.both reading D') t role may'' p s fun a s' => post a s' ∧ post' a s' := by
  induction p generalizing s with
  | ret a => exact fun s' rely inv => ⟨h s' rely.1 inv.1, h' s' rely.2 inv.2⟩
  | call c next ih =>
    intro s' rely inv fate allowed
    obtain ⟨here, here'⟩ := allows c s' fate inv.1 inv.2 allowed
    obtain ⟨after, step, rest⟩ := h s' rely.1 inv.1 fate here
    obtain ⟨after', step', rest'⟩ := h' s' rely.2 inv.2 fate here'
    exact ⟨⟨after, after'⟩, ⟨step, step'⟩, ih _ rest rest'⟩

/-- What is safe under a discipline, and safe under another as long as the first is kept, is safe under both. -/
theorem Safe.both_kept {Role' : Type} {D : Discipline S Role} {D' : Discipline S Role'} {reading : Role' → Role} {t : Nat} {role : Role'}
    {may may' may'' : S.Command → S.State → Fate → Prop} (allows : ∀ c s fate, may'' c s fate → may c s fate ∧ may c s .done)
    (knows : ∀ c s fate, D.Inv s → D.Inv (S.exec c s).2 → D.Step t (reading role) s (S.exec c s).2 → may' c s fate)
    {p : Prog S α} {s : S.State} {post post' : α → S.State → Prop} (h : Safe D t (reading role) may p s post)
    (h' : Safe D' t role may' p s post') : Safe (D.both reading D') t role may'' p s fun a s' => post a s' ∧ post' a s' := by
  induction p generalizing s with
  | ret a => exact fun s' rely inv => ⟨h s' rely.1 inv.1, h' s' rely.2 inv.2⟩
  | call c next ih =>
    intro s' rely inv fate allowed
    obtain ⟨here, executed⟩ := allows c s' fate allowed
    obtain ⟨kept, moved, _⟩ := h s' rely.1 inv.1 .done executed
    obtain ⟨after, step, rest⟩ := h s' rely.1 inv.1 fate here
    obtain ⟨after', step', rest'⟩ := h' s' rely.2 inv.2 fate (knows c s' fate inv.1 kept moved)
    exact ⟨⟨after, after'⟩, ⟨step, step'⟩, ih _ rest rest'⟩

/-! ### Programs with one command of a kind -/

/-- Every command the program can send is `ok`, but for at most one, which is `single`. -/
def Prog.SendsOnce (ok single : S.Command → Prop) : Prog S α → Prop
  | .ret _ => True
  | .call c next => (ok c ∧ ∀ reply, (next reply).SendsOnce ok single) ∨ (single c ∧ ∀ reply, (next reply).Sends ok)

section

variable {ok single : S.Command → Prop} {p : Prog S α} {f : α → Prog S β}

theorem Prog.Sends.once (h : p.Sends ok) : p.SendsOnce ok single := by
  induction p with
  | ret a => trivial
  | call c next ih => exact Or.inl ⟨h.1, fun reply => ih reply (h.2 reply)⟩

/-- The one command comes later. -/
theorem Prog.Sends.bind_once (h : p.Sends ok) (later : ∀ a, (f a).SendsOnce ok single) : (p.bind f).SendsOnce ok single := by
  induction p with
  | ret a => exact later a
  | call c next ih => exact Or.inl ⟨h.1, fun reply => ih reply (h.2 reply)⟩

/-- The one command has been sent. -/
theorem Prog.SendsOnce.bind (h : p.SendsOnce ok single) (later : ∀ a, (f a).Sends ok) : (p.bind f).SendsOnce ok single := by
  induction p with
  | ret a => exact (later a).once
  | call c next ih =>
    rcases h with ⟨here, rest⟩ | ⟨here, rest⟩
    · exact Or.inl ⟨here, fun reply => ih reply (rest reply)⟩
    · exact Or.inr ⟨here, fun reply => (rest reply).bind later⟩

/-- A program whose commands keep the discipline, the one among them as long as a fact holds that the others keep. -/
theorem Safe.of_sendsOnce {D : Discipline S Role} {t : Nat} {role : Role} {may : S.Command → S.State → Fate → Prop}
    {K : S.State → Prop} (others : ∀ s s', K s → D.Rely t s s' → K s')
    (keeps : ∀ c s fate, ok c → D.Inv s → may c s fate →
      D.Inv (S.exec c s).2 ∧ D.Step t role s (S.exec c s).2 ∧ (K s → K (S.exec c s).2))
    (once : ∀ c s fate, single c → D.Inv s → K s → may c s fate → D.Inv (S.exec c s).2 ∧ D.Step t role s (S.exec c s).2)
    (sends : p.SendsOnce ok single) {s : S.State} (start : K s) : Safe D t role may p s fun _ _ => True := by
  have quiet : ∀ c s fate, ok c → D.Inv s → may c s fate → D.Inv (S.exec c s).2 ∧ D.Step t role s (S.exec c s).2 :=
    fun c s fate here inv allowed => ⟨(keeps c s fate here inv allowed).1, (keeps c s fate here inv allowed).2.1⟩
  induction p generalizing s with
  | ret a => exact fun _ _ _ => trivial
  | call c next ih =>
    intro s' rely inv fate allowed
    have here := others _ _ start rely
    rcases sends with ⟨plain, rest⟩ | ⟨its, rest⟩
    · obtain ⟨after, step, kept⟩ := keeps c s' fate plain inv allowed
      exact ⟨S.perform_of (P := D.Inv) inv after fate, S.perform_of (P := D.Step t role s') (D.step_refl t role s') step fate,
        ih _ (rest _) (S.perform_of (P := K) here (kept here) fate)⟩
    · obtain ⟨after, step⟩ := once c s' fate its inv here allowed
      exact ⟨S.perform_of (P := D.Inv) inv after fate, S.perform_of (P := D.Step t role s') (D.step_refl t role s') step fate,
        Safe.of_sends quiet (rest _)⟩

end

/-! ### Values guarded by a count -/

/-- The count never goes back, and a value that has changed has moved it. -/
def Guarded {σ τ : Type} (count : σ → Nat) (value : σ → τ) (s s' : σ) : Prop :=
  count s ≤ count s' ∧ (count s' = count s → value s' = value s)

namespace Guarded

variable {σ τ : Type} {count : σ → Nat} {value : σ → τ} {s s' s'' : σ}

theorem refl (s : σ) : Guarded count value s s := ⟨Nat.le_refl _, fun _ => rfl⟩

theorem trans (first : Guarded count value s s') (second : Guarded count value s' s'') :
    Guarded count value s s'' := by
  refine ⟨Nat.le_trans first.1 second.1, fun same => ?_⟩
  have lower := first.1
  have upper := second.1
  rw [second.2 (by omega), first.2 (by omega)]

/-- What was read while the count stood still is what is there in the end. -/
theorem between (first : Guarded count value s s') (second : Guarded count value s' s'')
    (same : count s'' = count s) : value s'' = value s' := by
  have lower := first.1
  have upper := second.1
  exact second.2 (by omega)

theorem of_eq (counts : count s' = count s) (values : value s' = value s) : Guarded count value s s' :=
  ⟨Nat.le_of_eq counts.symm, fun _ => values⟩

theorem of_lt (moved : count s < count s') : Guarded count value s s' :=
  ⟨Nat.le_of_lt moved, fun same => absurd same (by omega)⟩

end Guarded

/-! ### Programs with local state and exceptions -/

/-- The methods of an object: what they wrote to it before they raised stays written. -/
abbrev Method (S : Service) (L ε : Type) := ExceptT ε (StateT L (Prog S))

namespace Method

variable {L ε : Type}

/-- The program of a call, on the object's present state. -/
def program (m : Method S L ε α) (l : L) : Prog S (Except ε α × L) := m l

/-- Send a command; `fault` is the exception of a command that fails. -/
def command (fault : Failure → ε) (c : S.Command) : Method S L ε (S.Reply c) := fun l =>
  Prog.call c fun r => Prog.ret (r.mapError fault, l)

/-- The call ends with `ok` if it returns and with `raised` if it raises. -/
def Runs (D : Discipline S Role) (t : Nat) (role : Role) (may : S.Command → S.State → Fate → Prop) (m : Method S L ε α) (l : L)
    (s : S.State) (ok : α → L → S.State → Prop) (raised : ε → L → S.State → Prop) : Prop :=
  Safe D t role may (m.program l) s fun out s' =>
    match out.1 with
    | .ok a => ok a out.2 s'
    | .error e => raised e out.2 s'

variable {D : Discipline S Role} {t : Nat} {role : Role} {may : S.Command → S.State → Fate → Prop} {l : L} {s : S.State}
  {ok : α → L → S.State → Prop} {raised : ε → L → S.State → Prop}

theorem Runs.rely {m : Method S L ε α} (h : Runs D t role may m l s ok raised) {s' : S.State} (rely : D.Rely t s s') :
    Runs D t role may m l s' ok raised :=
  Safe.rely h rely

theorem Runs.imp {m : Method S L ε α} (h : Runs D t role may m l s ok raised) {ok' : α → L → S.State → Prop}
    {raised' : ε → L → S.State → Prop} (returned : ∀ a l' s', D.Inv s' → ok a l' s' → ok' a l' s')
    (thrown : ∀ e l' s', D.Inv s' → raised e l' s' → raised' e l' s') : Runs D t role may m l s ok' raised' := by
  refine Safe.imp h fun out s' inv ends => ?_
  obtain ⟨result, l'⟩ := out
  cases result with
  | ok a => exact returned a l' s' inv ends
  | error e => exact thrown e l' s' inv ends

theorem runs_pure {a : α} (h : ∀ s', D.Rely t s s' → D.Inv s' → ok a l s') :
    Runs D t role may (pure a : Method S L ε α) l s ok raised := h

theorem runs_throw {e : ε} (h : ∀ s', D.Rely t s s' → D.Inv s' → raised e l s') :
    Runs D t role may (throw e : Method S L ε α) l s ok raised := h

theorem runs_bind {m : Method S L ε β} {f : β → Method S L ε α} (inv : D.Inv s)
    (h : Runs D t role may m l s (fun b l' s' => D.Inv s' → Runs D t role may (f b) l' s' ok raised) raised) :
    Runs D t role may (m >>= f) l s ok raised := by
  refine Safe.bind inv ((Safe.always h).imp fun out s' inv' ends => ?_)
  obtain ⟨result, l'⟩ := out
  cases result with
  | ok b => exact ends s' (D.rely_refl t s') inv' inv'
  | error e => exact ends

/-- A call and a function of what it returned. -/
theorem runs_map {m : Method S L ε β} {f : β → α} {ok' : β → L → S.State → Prop} (inv : D.Inv s)
    (h : Runs D t role may m l s ok' raised) (weaker : ∀ b l' s', D.Inv s' → ok' b l' s' → ok (f b) l' s') :
    Runs D t role may (m >>= fun b => pure (f b)) l s ok raised := by
  refine Safe.bind inv ((Safe.always h).imp fun out s' _ ends => ?_)
  obtain ⟨result, l'⟩ := out
  cases result with
  | ok b => exact fun s'' rely inv'' => weaker b l' s'' inv'' (ends s'' rely inv'')
  | error e => exact ends

theorem runs_tryCatch {m : Method S L ε α} {handler : ε → Method S L ε α} (inv : D.Inv s)
    (h : Runs D t role may m l s ok fun e l' s' => D.Inv s' → Runs D t role may (handler e) l' s' ok raised) :
    Runs D t role may (tryCatch m handler) l s ok raised := by
  refine Safe.bind inv ((Safe.always h).imp fun out s' inv' ends => ?_)
  obtain ⟨result, l'⟩ := out
  cases result with
  | ok a => exact ends
  | error e => exact ends s' (D.rely_refl t s') inv' inv'

theorem runs_get {ok : L → L → S.State → Prop} (h : ∀ s', D.Rely t s s' → D.Inv s' → ok l l s') :
    Runs D t role may (get : Method S L ε L) l s ok raised := h

theorem runs_set {ok : PUnit → L → S.State → Prop} {l' : L} (h : ∀ s', D.Rely t s s' → D.Inv s' → ok ⟨⟩ l' s') :
    Runs D t role may (set l' : Method S L ε PUnit) l s ok raised := h

theorem runs_modify {ok : PUnit → L → S.State → Prop} {f : L → L}
    (h : ∀ s', D.Rely t s s' → D.Inv s' → ok ⟨⟩ (f l) s') :
    Runs D t role may (modify f : Method S L ε PUnit) l s ok raised := h

theorem runs_ite {p : Prop} [Decidable p] {m m' : Method S L ε α} (yes : p → Runs D t role may m l s ok raised)
    (no : ¬p → Runs D t role may m' l s ok raised) : Runs D t role may (if p then m else m') l s ok raised := by
  split
  · exact yes ‹_›
  · exact no ‹_›

/-- One command whose effect keeps the discipline when it may come, with what holds after each of its fates. -/
theorem runs_sent {fault : Failure → ε} {c : S.Command} {ok : S.Reply c → L → S.State → Prop}
    (effect : ∀ s' fate, D.Rely t s s' → D.Inv s' → may c s' fate →
      D.Inv (S.exec c s').2 ∧ D.Step t role s' (S.exec c s').2)
    (answered : ∀ s', D.Rely t s s' → D.Inv s' → may c s' .done →
      ∀ s'', D.Rely t (S.exec c s').2 s'' → D.Inv s'' → ok (S.exec c s').1 l s'')
    (failed : ∀ s' fate, D.Rely t s s' → D.Inv s' → may c s' fate → fate ≠ .done →
      ∀ s'', D.Rely t (S.perform c s' fate).2 s'' → D.Inv s'' → ∀ failure, raised (fault failure) l s'') :
    Runs D t role may (command fault c) l s ok raised := by
  intro s' rely inv fate allowed
  obtain ⟨after, step⟩ := effect s' fate rely inv allowed
  refine ⟨S.perform_of (P := D.Inv) inv after fate, S.perform_of (P := D.Step t role s') (D.step_refl t role s') step fate, ?_⟩
  cases fate with
  | done => exact answered s' rely inv allowed
  | refused => exact fun s'' later inv' => failed s' .refused rely inv allowed (fun same => nomatch same) s'' later inv' _
  | broken took =>
    exact fun s'' later inv' => failed s' (.broken took) rely inv allowed (fun same => nomatch same) s'' later inv' _

/-- The same, where what it raises is left open. -/
theorem runs_guarded {fault : Failure → ε} {c : S.Command} {ok : S.Reply c → L → S.State → Prop}
    (effect : ∀ s' fate, D.Rely t s s' → D.Inv s' → may c s' fate →
      D.Inv (S.exec c s').2 ∧ D.Step t role s' (S.exec c s').2)
    (answered : ∀ s', D.Rely t s s' → D.Inv s' → may c s' .done →
      ∀ s'', D.Rely t (S.exec c s').2 s'' → D.Inv s'' → ok (S.exec c s').1 l s'') :
    Runs D t role may (command fault c) l s ok fun _ _ _ => True :=
  runs_sent effect answered fun _ _ _ _ _ _ _ _ _ _ => trivial

/-- One command: its effect keeps the discipline, and each fate it may have leads on. -/
theorem runs_command {fault : Failure → ε} {c : S.Command} {ok : S.Reply c → L → S.State → Prop}
    (effect : ∀ s', D.Rely t s s' → D.Inv s' → D.Inv (S.exec c s').2 ∧ D.Step t role s' (S.exec c s').2)
    (answered : ∀ s', D.Rely t s s' → D.Inv s' → may c s' .done →
      ∀ s'', D.Rely t (S.exec c s').2 s'' → D.Inv s'' → ok (S.exec c s').1 l s'')
    (refused : ∀ s', D.Rely t s s' → D.Inv s' → may c s' .refused →
      ∀ s'', D.Rely t s' s'' → D.Inv s'' → raised (fault .refused) l s'')
    (broken : ∀ s' effect, D.Rely t s s' → D.Inv s' → may c s' (.broken effect) →
      ∀ s'', D.Rely t (S.perform c s' (.broken effect)).2 s'' → D.Inv s'' → raised (fault .broken) l s'') :
    Runs D t role may (command fault c) l s ok raised := by
  intro s' rely inv fate allowed
  obtain ⟨after, step⟩ := effect s' rely inv
  cases fate with
  | done => exact ⟨after, step, answered s' rely inv allowed⟩
  | refused => exact ⟨inv, D.step_refl t role s', refused s' rely inv allowed⟩
  | broken took =>
    refine ⟨?_, ?_, broken s' took rely inv allowed⟩ <;> cases took
    · exact inv
    · exact after
    · exact D.step_refl t role s'
    · exact step

/-- A command that changes nothing. -/
theorem runs_read {fault : Failure → ε} {c : S.Command} {ok : S.Reply c → L → S.State → Prop}
    (reads : ∀ s', (S.exec c s').2 = s')
    (answered : ∀ s', D.Rely t s s' → D.Inv s' → may c s' .done →
      ∀ s'', D.Rely t s' s'' → D.Inv s'' → ok (S.exec c s').1 l s'')
    (failed : ∀ s' failure, D.Rely t s s' → D.Inv s' → (∃ fate, fate ≠ .done ∧ may c s' fate) →
      ∀ s'', D.Rely t s' s'' → D.Inv s'' → raised (fault failure) l s'') :
    Runs D t role may (command fault c) l s ok raised := by
  refine runs_command (fun s' _ inv => ?_) (fun s' rely inv allowed => ?_)
    (fun s' rely inv allowed => failed s' _ rely inv ⟨_, by simp, allowed⟩) (fun s' effect rely inv allowed => ?_)
  · rw [reads s']
    exact ⟨inv, D.step_refl t role s'⟩
  · rw [reads s']
    exact answered s' rely inv allowed
  · have same : (S.perform c s' (.broken effect)).2 = s' := by cases effect <;> simp [Service.perform, reads s']
    rw [same]
    exact failed s' _ rely inv ⟨_, by simp, allowed⟩

/-- Every command a call can send is `ok`, on whichever object. -/
def Sends (ok : S.Command → Prop) (m : Method S L ε α) : Prop := ∀ l, (m.program l).Sends ok

variable {sent : S.Command → Prop}

theorem sends_pure (a : α) : Sends sent (pure a : Method S L ε α) := fun _ => trivial

theorem sends_throw (e : ε) : Sends sent (throw e : Method S L ε α) := fun _ => trivial

theorem sends_get : Sends sent (get : Method S L ε L) := fun _ => trivial

theorem sends_modify (f : L → L) : Sends sent (modify f : Method S L ε PUnit) := fun _ => trivial

theorem sends_command {fault : Failure → ε} {c : S.Command} (h : sent c) :
    Sends sent (command fault c : Method S L ε (S.Reply c)) := fun _ => ⟨h, fun _ => trivial⟩

theorem sends_bind {m : Method S L ε β} {f : β → Method S L ε α} (h : Sends sent m) (later : ∀ b, Sends sent (f b)) :
    Sends sent (m >>= f) := by
  intro l
  refine Prog.Sends.bind (h l) fun out => ?_
  obtain ⟨result, l'⟩ := out
  cases result with
  | ok b => exact later b l'
  | error e => trivial

theorem sends_tryCatch {m : Method S L ε α} {handler : ε → Method S L ε α} (h : Sends sent m)
    (handled : ∀ e, Sends sent (handler e)) : Sends sent (tryCatch m handler) := by
  intro l
  refine Prog.Sends.bind (h l) fun out => ?_
  obtain ⟨result, l'⟩ := out
  cases result with
  | ok a => trivial
  | error e => exact handled e l'

theorem sends_ite {p : Prop} [Decidable p] {m m' : Method S L ε α} (yes : Sends sent m) (no : Sends sent m') :
    Sends sent (if p then m else m') := by
  split
  · exact yes
  · exact no

theorem Sends.imp {sent' : S.Command → Prop} {m : Method S L ε α} (h : Sends sent m) (weaker : ∀ c, sent c → sent' c) :
    Sends sent' m :=
  fun l => (h l).imp weaker

/-- A call whose every command keeps the discipline. -/
theorem Runs.of_sends
    (keeps : ∀ c s fate, sent c → D.Inv s → may c s fate → D.Inv (S.exec c s).2 ∧ D.Step t role s (S.exec c s).2)
    {m : Method S L ε α} (sends : Sends sent m) : Runs D t role may m l s (fun _ _ _ => True) fun _ _ _ => True := by
  refine (Safe.of_sends keeps (sends l)).imp fun out s' _ _ => ?_
  obtain ⟨result, l'⟩ := out
  cases result with
  | ok a => trivial
  | error e => trivial

/-- A call whose every command keeps the discipline and a fact on which the others leave it, returned and raised alike. -/
theorem Runs.keeping {K : S.State → Prop} (others : ∀ s s', K s → D.Rely t s s' → K s')
    (keeps : ∀ c s fate, sent c → D.Inv s → K s → may c s fate →
      D.Inv (S.exec c s).2 ∧ D.Step t role s (S.exec c s).2 ∧ K (S.exec c s).2)
    {m : Method S L ε α} (sends : Sends sent m) (start : K s) :
    Runs D t role may m l s (fun _ _ s' => K s') fun _ _ s' => K s' := by
  refine (Safe.keeping others keeps (sends l) start).imp fun out s' _ kept => ?_
  obtain ⟨result, l'⟩ := out
  cases result with
  | ok a => exact kept
  | error e => exact kept

/-- A call and what follows it, with what has happened to the shared state since the start of the call. -/
theorem runs_bind_since {R : S.State → S.State → Prop} (trans : ∀ s s' s'', R s s' → R s' s'' → R s s'')
    (step : ∀ s s', D.Step t role s s' → R s s') (others : ∀ s s', D.Rely t s s' → R s s')
    {m : Method S L ε β} {f : β → Method S L ε α} {ok' : β → L → S.State → Prop} (inv : D.Inv s)
    (h : Runs D t role may m l s ok' raised)
    (later : ∀ b l' s', D.Inv s' → R s s' → ok' b l' s' → Runs D t role may (f b) l' s' ok raised) :
    Runs D t role may (m >>= f) l s ok raised := by
  refine runs_bind inv ((Safe.since trans step others h).imp fun out s' _ ends => ?_)
  obtain ⟨result, l'⟩ := out
  cases result with
  | ok b => exact fun inv' => later b l' s' inv' ends.2 ends.1
  | error e => exact ends.1

/-- What a call does under each of two disciplines. -/
theorem Runs.both {Role' : Type} {D' : Discipline S Role'} {reading : Role' → Role} {role' : Role'}
    {may' may'' : S.Command → S.State → Fate → Prop} {ok' : α → L → S.State → Prop} {raised' : ε → L → S.State → Prop}
    (allows : ∀ c s fate, D.Inv s → D'.Inv s → may'' c s fate → may c s fate ∧ may' c s fate) {m : Method S L ε α}
    (h : Runs D t (reading role') may m l s ok raised) (h' : Runs D' t role' may' m l s ok' raised') :
    Runs (D.both reading D') t role' may'' m l s (fun a l' s' => ok a l' s' ∧ ok' a l' s')
      fun e l' s' => raised e l' s' ∧ raised' e l' s' := by
  refine (Safe.both allows h h').imp fun out s' _ ends => ?_
  obtain ⟨result, l'⟩ := out
  cases result with
  | ok a => exact ends
  | error e => exact ends

/-- What a call does under a discipline, and under another as long as the first is kept. -/
theorem Runs.both_kept {Role' : Type} {D' : Discipline S Role'} {reading : Role' → Role} {role' : Role'}
    {may' may'' : S.Command → S.State → Fate → Prop} {ok' : α → L → S.State → Prop} {raised' : ε → L → S.State → Prop}
    (allows : ∀ c s fate, may'' c s fate → may c s fate ∧ may c s .done)
    (knows : ∀ c s fate, D.Inv s → D.Inv (S.exec c s).2 → D.Step t (reading role') s (S.exec c s).2 → may' c s fate) {m : Method S L ε α}
    (h : Runs D t (reading role') may m l s ok raised) (h' : Runs D' t role' may' m l s ok' raised') :
    Runs (D.both reading D') t role' may'' m l s (fun a l' s' => ok a l' s' ∧ ok' a l' s')
      fun e l' s' => raised e l' s' ∧ raised' e l' s' := by
  refine (Safe.both_kept allows knows h h').imp fun out s' _ ends => ?_
  obtain ⟨result, l'⟩ := out
  cases result with
  | ok a => exact ends
  | error e => exact ends

/-- Every command a call can send is `ok`, but for at most one, which is `single`. -/
def SendsOnce (ok single : S.Command → Prop) (m : Method S L ε α) : Prop := ∀ l, (m.program l).SendsOnce ok single

section

variable {single : S.Command → Prop} {m : Method S L ε α}

theorem Sends.once (h : Sends sent m) : SendsOnce sent single m := fun l => (h l).once

theorem sendsOnce_command {fault : Failure → ε} {c : S.Command} (h : single c) :
    SendsOnce sent single (command fault c : Method S L ε (S.Reply c)) := fun _ => Or.inr ⟨h, fun _ => trivial⟩

/-- The one command comes later. -/
theorem Sends.bind_once {m : Method S L ε β} {f : β → Method S L ε α} (h : Sends sent m) (later : ∀ b, SendsOnce sent single (f b)) :
    SendsOnce sent single (m >>= f) := by
  intro l
  refine Prog.Sends.bind_once (h l) fun out => ?_
  obtain ⟨result, l'⟩ := out
  cases result with
  | ok b => exact later b l'
  | error e => trivial

/-- The one command has been sent. -/
theorem SendsOnce.bind {m : Method S L ε β} {f : β → Method S L ε α} (h : SendsOnce sent single m) (later : ∀ b, Sends sent (f b)) :
    SendsOnce sent single (m >>= f) := by
  intro l
  refine Prog.SendsOnce.bind (h l) fun out => ?_
  obtain ⟨result, l'⟩ := out
  cases result with
  | ok b => exact later b l'
  | error e => trivial

theorem SendsOnce.tryCatch {handler : ε → Method S L ε α} (h : SendsOnce sent single m) (handled : ∀ e, Sends sent (handler e)) :
    SendsOnce sent single (tryCatch m handler) := by
  intro l
  refine Prog.SendsOnce.bind (h l) fun out => ?_
  obtain ⟨result, l'⟩ := out
  cases result with
  | ok a => trivial
  | error e => exact handled e l'

theorem Runs.of_sendsOnce {K : S.State → Prop} (others : ∀ s s', K s → D.Rely t s s' → K s')
    (keeps : ∀ c s fate, sent c → D.Inv s → may c s fate →
      D.Inv (S.exec c s).2 ∧ D.Step t role s (S.exec c s).2 ∧ (K s → K (S.exec c s).2))
    (once : ∀ c s fate, single c → D.Inv s → K s → may c s fate → D.Inv (S.exec c s).2 ∧ D.Step t role s (S.exec c s).2)
    (sends : SendsOnce sent single m) (start : K s) : Runs D t role may m l s (fun _ _ _ => True) fun _ _ _ => True := by
  refine (Safe.of_sendsOnce others keeps once (sends l) start).imp fun out s' _ _ => ?_
  obtain ⟨result, l'⟩ := out
  cases result with
  | ok a => trivial
  | error e => trivial

theorem sendsOnce_ite {p : Prop} [Decidable p] {m m' : Method S L ε α} (yes : SendsOnce sent single m)
    (no : SendsOnce sent single m') : SendsOnce sent single (if p then m else m') := by
  split
  · exact yes
  · exact no

end

/-! ### Calls that keep a fact -/

/-- The call keeps the fact, returned and raised alike, and ends with `ok` if it returns. -/
def Steady (D : Discipline S Role) (t : Nat) (role : Role) (may : S.Command → S.State → Fate → Prop) (K : S.State → Prop)
    (m : Method S L ε α) (l : L) (s : S.State) (ok : α → L → S.State → Prop) : Prop :=
  Runs D t role may m l s (fun a l' s' => K s' ∧ ok a l' s') fun _ _ s' => K s'

section

variable {K : S.State → Prop} (others : ∀ s s', K s → D.Rely t s s' → K s')

theorem Steady.imp {m : Method S L ε α} (h : Steady D t role may K m l s ok) {ok' : α → L → S.State → Prop}
    (weaker : ∀ a l' s', D.Inv s' → K s' → ok a l' s' → ok' a l' s') : Steady D t role may K m l s ok' :=
  Runs.imp h (fun a l' s' inv ends => ⟨ends.1, weaker a l' s' inv ends.1 ends.2⟩) fun _ _ _ _ kept => kept

theorem steady_bind {m : Method S L ε β} {f : β → Method S L ε α} {P : β → L → S.State → Prop} (inv : D.Inv s)
    (h : Steady D t role may K m l s P)
    (later : ∀ b l' s', D.Inv s' → K s' → P b l' s' → Steady D t role may K (f b) l' s' ok) :
    Steady D t role may K (m >>= f) l s ok :=
  runs_bind inv (Runs.imp h (fun b l' s' _ ends inv' => later b l' s' inv' ends.1 ends.2) fun _ _ _ _ kept => kept)

theorem steady_tryCatch {m : Method S L ε α} {handler : ε → Method S L ε α} (inv : D.Inv s)
    (h : Steady D t role may K m l s ok)
    (handled : ∀ e l' s', D.Inv s' → K s' → Steady D t role may K (handler e) l' s' ok) :
    Steady D t role may K (tryCatch m handler) l s ok :=
  runs_tryCatch inv (Runs.imp h (fun _ _ _ _ ends => ends) fun e l' s' _ kept inv' => handled e l' s' inv' kept)

theorem steady_ite {p : Prop} [Decidable p] {m m' : Method S L ε α} (yes : p → Steady D t role may K m l s ok)
    (no : ¬p → Steady D t role may K m' l s ok) : Steady D t role may K (if p then m else m') l s ok :=
  runs_ite yes no

include others

theorem steady_pure {a : α} (start : K s) (h : ∀ s', D.Rely t s s' → D.Inv s' → ok a l s') :
    Steady D t role may K (pure a : Method S L ε α) l s ok :=
  runs_pure fun s' rely inv => ⟨others _ _ start rely, h s' rely inv⟩

theorem steady_throw {e : ε} (start : K s) : Steady D t role may K (throw e : Method S L ε α) l s ok :=
  runs_throw fun _ rely _ => others _ _ start rely

theorem steady_of_sends
    (keeps : ∀ c s fate, sent c → D.Inv s → K s → may c s fate →
      D.Inv (S.exec c s).2 ∧ D.Step t role s (S.exec c s).2 ∧ K (S.exec c s).2)
    {m : Method S L ε α} (sends : Sends sent m) (start : K s) : Steady D t role may K m l s fun _ _ _ => True :=
  (Runs.keeping others keeps sends start).imp (fun _ _ _ _ kept => ⟨kept, trivial⟩) fun _ _ _ _ kept => kept

theorem steady_command {fault : Failure → ε} {c : S.Command} {ok : S.Reply c → L → S.State → Prop} (start : K s)
    (effect : ∀ s' fate, D.Inv s' → K s' → may c s' fate →
      D.Inv (S.exec c s').2 ∧ D.Step t role s' (S.exec c s').2 ∧ K (S.exec c s').2)
    (answered : ∀ s', D.Rely t s s' → D.Inv s' → K s' → may c s' .done →
      ∀ s'', D.Rely t (S.exec c s').2 s'' → D.Inv s'' → ok (S.exec c s').1 l s'') :
    Steady D t role may K (command fault c) l s ok := by
  have here : ∀ s' fate, D.Rely t s s' → D.Inv s' → may c s' fate → K (S.perform c s' fate).2 := fun s' fate rely inv allowed =>
    have before := others _ _ start rely
    S.perform_of (P := K) before (effect s' fate inv before allowed).2.2 fate
  refine runs_sent (fun s' fate rely inv allowed => ?_) (fun s' rely inv allowed s'' later inv' => ⟨?_, ?_⟩)
    fun s' fate rely inv allowed _ s'' later _ _ => others _ _ (here s' fate rely inv allowed) later
  · obtain ⟨after, step, _⟩ := effect s' fate inv (others _ _ start rely) allowed
    exact ⟨after, step⟩
  · exact others _ _ (here s' .done rely inv allowed) later
  · exact answered s' rely inv (others _ _ start rely) allowed s'' later inv'

end

end Method

end Xair.Library
