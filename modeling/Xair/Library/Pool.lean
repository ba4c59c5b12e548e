import Xair.Library.Interference

/-!
# Pools of processes

Any number of processes, each at one job at a time, over one shared service.
`Sound` is what every interleaving of safe jobs preserves.
-/

namespace Xair.Library

variable {S : Service}

/-- The jobs processes may start. A job gets the number of its call, which is used once. -/
structure Workload (S : Service) where
  Job : Type
  Local : Type
  Out : Type
  code : Job → Nat → Local → Prog S (Out × Local)
  Env : Type
  env : Env → S.State → S.State

inductive Proc (S : Service) (W : Workload S) where
  | idle (l : W.Local)
  | busy (ticket : Nat) (job : W.Job) (prog : Prog S (W.Out × W.Local))

structure Pool (S : Service) (W : Workload S) where
  shared : S.State
  procs : Nat → Proc S W
  next : Nat
  finished : List (Nat × W.Job × W.Out)

inductive PoolEvent (S : Service) (W : Workload S) where
  | start (pid : Nat) (job : W.Job)
  | step (pid : Nat) (fate : Fate)
  | env (e : W.Env)

/-- The process of an event. -/
def PoolEvent.pid {W : Workload S} : PoolEvent S W → Option Nat
  | .start pid _ => some pid
  | .step pid _ => some pid
  | .env _ => none

/-- No command fails in this event. -/
def PoolEvent.Unfailing {W : Workload S} : PoolEvent S W → Prop
  | .step _ fate => fate = .done
  | _ => True

instance PoolEvent.decidableUnfailing {W : Workload S} : DecidablePred (PoolEvent.Unfailing (S := S) (W := W))
  | .step _ fate => inferInstanceAs (Decidable (fate = .done))
  | .start _ _ => .isTrue trivial
  | .env _ => .isTrue trivial

namespace Pool

variable {W : Workload S}

def init (s : S.State) (l : Nat → W.Local) : Pool S W := ⟨s, fun pid => .idle (l pid), 0, []⟩

def setProc (P : Pool S W) (pid : Nat) (proc : Proc S W) : Pool S W :=
  { P with procs := fun p => if p = pid then proc else P.procs p }

/-- One event; an event that is not possible changes nothing. -/
def next_ (P : Pool S W) : PoolEvent S W → Pool S W
  | .start pid job =>
    match P.procs pid with
    | .idle l => { P.setProc pid (.busy P.next job (W.code job P.next l)) with next := P.next + 1 }
    | .busy _ _ _ => P
  | .step pid fate =>
    match P.procs pid with
    | .idle _ => P
    | .busy t job (.ret (out, l)) =>
      { P.setProc pid (.idle l) with finished := P.finished ++ [(t, job, out)] }
    | .busy t job (.call c next) =>
      { P.setProc pid (.busy t job (next (S.perform c P.shared fate).1)) with
        shared := (S.perform c P.shared fate).2 }
  | .env e => { P with shared := W.env e P.shared }

def run (P : Pool S W) (events : List (PoolEvent S W)) : Pool S W := events.foldl next_ P

theorem run_append (P : Pool S W) (events more : List (PoolEvent S W)) :
    P.run (events ++ more) = (P.run events).run more :=
  List.foldl_append

/-- One event is one command, a change of the environment, or nothing to the shared state. -/
theorem shared_next (P : Pool S W) (e : PoolEvent S W) : (P.next_ e).shared = P.shared ∨
    (∃ pid t job c next fate, e = .step pid fate ∧ P.procs pid = .busy t job (.call c next) ∧
      (P.next_ e).shared = (S.perform c P.shared fate).2) ∨
    ∃ change, e = .env change ∧ (P.next_ e).shared = W.env change P.shared := by
  cases e with
  | start pid job =>
    left
    simp only [next_]
    split <;> rfl
  | step pid fate =>
    cases found : P.procs pid with
    | idle l => left; simp only [next_, found]
    | busy t job prog =>
      cases prog with
      | ret out => left; simp only [next_, found]; rfl
      | call c next => exact Or.inr (Or.inl ⟨pid, t, job, c, next, fate, rfl, found, by simp only [next_, found]⟩)
  | env change => exact Or.inr (Or.inr ⟨change, rfl, rfl⟩)

/-- The event is a step of some process that sends this command, which has this fate. -/
def Performs (P : Pool S W) (e : PoolEvent S W) (c : S.Command) (fate : Fate) : Prop :=
  ∃ pid t job next, e = .step pid fate ∧ P.procs pid = .busy t job (.call c next)

theorem Performs.shared {P : Pool S W} {e : PoolEvent S W} {c : S.Command} {fate : Fate} (h : P.Performs e c fate) :
    (P.next_ e).shared = (S.perform c P.shared fate).2 := by
  obtain ⟨pid, t, job, next, rfl, busy⟩ := h
  simp only [next_, busy]

/-- A process that no event is about stays as it is. -/
theorem procs_run {pid : Nat} {events : List (PoolEvent S W)} (others : ∀ e ∈ events, e.pid ≠ some pid) (P : Pool S W) :
    (P.run events).procs pid = P.procs pid := by
  induction events generalizing P with
  | nil => rfl
  | cons e events ih =>
    refine (ih (fun e' member => others e' (List.mem_cons_of_mem _ member)) (P.next_ e)).trans ?_
    have other : e.pid ≠ some pid := others e List.mem_cons_self
    have set : ∀ {p : Nat} {proc : Proc S W}, some p ≠ some pid → (P.setProc p proc).procs pid = P.procs pid :=
      fun different => if_neg fun same => different (congrArg some same.symm)
    cases e with
    | start p job =>
      simp only [next_]
      split
      · exact set other
      · rfl
    | step p fate =>
      simp only [next_]
      split
      · rfl
      · exact set other
      · exact set other
    | env change => rfl

/-- A process that is idle starts a job, and then sends its first command. -/
theorem performs_start {P : Pool S W} {pid : Nat} {l : W.Local} {job : W.Job} {c : S.Command}
    {next : Except Failure (S.Reply c) → Prog S (W.Out × W.Local)} (idle : P.procs pid = .idle l)
    (sends : W.code job P.next l = .call c next) (fate : Fate) : (P.next_ (.start pid job)).Performs (.step pid fate) c fate := by
  refine ⟨pid, P.next, job, next, rfl, ?_⟩
  simp only [next_, idle, sends]
  exact if_pos rfl

/-- What every command and every change of the environment only moves along. -/
theorem shared_run {R : S.State → S.State → Prop} (refl : ∀ s, R s s) (trans : ∀ s s' s'', R s s' → R s' s'' → R s s'')
    (command : ∀ c s fate, R s (S.perform c s fate).2) (env : ∀ change s, R s (W.env change s)) (P : Pool S W)
    (events : List (PoolEvent S W)) : R P.shared (P.run events).shared := by
  induction events generalizing P with
  | nil => exact refl _
  | cons e events ih =>
    refine trans _ _ _ ?_ (ih (P.next_ e))
    rcases shared_next P e with same | ⟨_, _, _, c, _, fate, _, _, now⟩ | ⟨change, _, now⟩
    · rw [same]
      exact refl _
    · rw [now]
      exact command c _ fate
    · rw [now]
      exact env change _

/-- Every busy process can only send what its job may send. -/
theorem sends_run {ok : Nat → W.Job → S.Command → Prop} (code : ∀ job t l, (W.code job t l).Sends (ok t job)) {P : Pool S W}
    (start : ∀ pid t job prog, P.procs pid = .busy t job prog → prog.Sends (ok t job)) (events : List (PoolEvent S W))
    {pid t : Nat} {job : W.Job} {prog : Prog S (W.Out × W.Local)} (busy : (P.run events).procs pid = .busy t job prog) :
    prog.Sends (ok t job) := by
  induction events generalizing P with
  | nil => exact start pid t job prog busy
  | cons e events ih =>
    refine ih (P := P.next_ e) (fun p t' job' prog' now => ?_) busy
    have others : ∀ {p' proc}, (P.setProc p' proc).procs p = .busy t' job' prog' →
        proc = .busy t' job' prog' ∨ P.procs p = .busy t' job' prog' := by
      intro p' proc now
      by_cases here : p = p'
      · exact Or.inl ((if_pos here).symm.trans now)
      · exact Or.inr ((if_neg here).symm.trans now)
    cases e with
    | start p' job₁ =>
      cases found : P.procs p' with
      | busy => simp only [next_, found] at now; exact start _ _ _ _ now
      | idle l =>
        simp only [next_, found] at now
        rcases others now with new | old
        · cases new
          exact code _ _ _
        · exact start _ _ _ _ old
    | env change => exact start _ _ _ _ now
    | step p' fate =>
      cases found : P.procs p' with
      | idle l => simp only [next_, found] at now; exact start _ _ _ _ now
      | busy t₁ job₁ prog₁ =>
        have before := start _ _ _ _ found
        cases prog₁ with
        | ret out =>
          simp only [next_, found] at now
          rcases others now with new | old
          · cases new
          · exact start _ _ _ _ old
        | call c next =>
          simp only [next_, found] at now
          rcases others now with new | old
          · cases new
            exact before.2 _
          · exact start _ _ _ _ old

/-- An invariant of the commands that jobs may send, and of the environment. -/
theorem inv_run (ok : S.Command → Prop) (I : S.State → Prop) (code : ∀ job t l, (W.code job t l).Sends ok)
    (command : ∀ c s fate, ok c → I s → I (S.perform c s fate).2) (env : ∀ change s, I s → I (W.env change s)) {s : S.State}
    {l : Nat → W.Local} (start : I s) (events : List (PoolEvent S W)) : I ((init s l : Pool S W).run events).shared := by
  induction events using List.reverseRecOn with
  | nil => exact start
  | append_singleton events e ih =>
    rw [run_append]
    change I (next_ _ e).shared
    rcases shared_next ((init s l : Pool S W).run events) e with same | ⟨pid, t, job, c, next, fate, _, busy, now⟩ | ⟨change, _, now⟩
    · rw [same]
      exact ih
    · rw [now]
      have sends : (Prog.call c next).Sends ok := sends_run code (P := init s l) (fun _ _ _ _ busy => by cases busy) events busy
      exact command c _ fate sends.1 ih
    · rw [now]
      exact env change _ ih

/-- The command of the event, if it has one, is `ok` for the job that sends it. -/
def Meets (ok : W.Job → S.Command → S.State → Prop) (P : Pool S W) : PoolEvent S W → Prop
  | .step pid _ =>
    match P.procs pid with
    | .busy _ job (.call c _) => ok job c P.shared
    | _ => True
  | _ => True

instance Meets.decidable {ok : W.Job → S.Command → S.State → Prop} [∀ job c s, Decidable (ok job c s)] (P : Pool S W)
    (e : PoolEvent S W) : Decidable (Meets ok P e) :=
  match e with
  | .step pid _ =>
    match h : P.procs pid with
    | .busy _ job (.call c _) => decidable_of_iff (ok job c P.shared) (by simp only [Meets, h])
    | .busy _ _ (.ret _) => .isTrue (by simp only [Meets, h])
    | .idle _ => .isTrue (by simp only [Meets, h])
  | .start _ _ => .isTrue trivial
  | .env _ => .isTrue trivial

theorem Meets.command {ok : W.Job → S.Command → S.State → Prop} {P : Pool S W} {pid : Nat} {fate : Fate}
    (meets : Meets ok P (.step pid fate)) {t : Nat} {job : W.Job} {c : S.Command}
    {next : Except Failure (S.Reply c) → Prog S (W.Out × W.Local)} (busy : P.procs pid = .busy t job (.call c next)) :
    ok job c P.shared := by
  simp only [Meets, busy] at meets
  exact meets

/-- The command of the event, if it has one, may become of it what does; `ok` also tells who sends it. -/
def Allows (ok : Nat → W.Job → S.Command → S.State → Fate → Prop) (P : Pool S W) : PoolEvent S W → Prop
  | .step pid fate =>
    match P.procs pid with
    | .busy t job (.call c _) => ok t job c P.shared fate
    | _ => True
  | _ => True

instance Allows.decidable {ok : Nat → W.Job → S.Command → S.State → Fate → Prop}
    [∀ t job c s fate, Decidable (ok t job c s fate)] (P : Pool S W) (e : PoolEvent S W) : Decidable (Allows ok P e) :=
  match e with
  | .step pid fate =>
    match h : P.procs pid with
    | .busy t job (.call c _) => decidable_of_iff (ok t job c P.shared fate) (by simp only [Allows, h])
    | .busy _ _ (.ret _) => .isTrue (by simp only [Allows, h])
    | .idle _ => .isTrue (by simp only [Allows, h])
  | .start _ _ => .isTrue trivial
  | .env _ => .isTrue trivial

theorem Allows.command {ok : Nat → W.Job → S.Command → S.State → Fate → Prop} {P : Pool S W} {pid : Nat} {fate : Fate}
    (allows : Allows ok P (.step pid fate)) {t : Nat} {job : W.Job} {c : S.Command}
    {next : Except Failure (S.Reply c) → Prog S (W.Out × W.Local)} (busy : P.procs pid = .busy t job (.call c next)) :
    ok t job c P.shared fate := by
  simp only [Allows, busy] at allows
  exact allows

/-- Every event of a run is `ok` where it happens. -/
def Along (ok : Pool S W → PoolEvent S W → Prop) : Pool S W → List (PoolEvent S W) → Prop
  | _, [] => True
  | P, e :: events => ok P e ∧ Along ok (P.next_ e) events

instance Along.decidable {ok : Pool S W → PoolEvent S W → Prop} [∀ P e, Decidable (ok P e)] (P : Pool S W)
    (events : List (PoolEvent S W)) : Decidable (Along ok P events) :=
  match events with
  | [] => .isTrue trivial
  | e :: events => @instDecidableAnd _ _ inferInstance (Along.decidable (P.next_ e) events)

theorem along_append {ok : Pool S W → PoolEvent S W → Prop} {P : Pool S W} {events more : List (PoolEvent S W)} :
    Along ok P (events ++ more) ↔ Along ok P events ∧ Along ok (P.run events) more := by
  induction events generalizing P with
  | nil => exact (and_iff_right trivial).symm
  | cons e events ih => exact (and_congr_right fun _ => ih).trans and_assoc.symm

/-- The last event of a run is `ok` where the others have led. -/
theorem along_last {ok : Pool S W → PoolEvent S W → Prop} {P : Pool S W} {events : List (PoolEvent S W)} {e : PoolEvent S W}
    (along : Along ok P (events ++ [e])) : ok (P.run events) e :=
  (along_append.mp along).2.1

theorem along_of_forall {ok : Pool S W → PoolEvent S W → Prop} {P : Pool S W} {events : List (PoolEvent S W)}
    (all : ∀ e ∈ events, ∀ P, ok P e) : Along ok P events := by
  induction events generalizing P with
  | nil => trivial
  | cons e events ih =>
    exact ⟨all e List.mem_cons_self P, ih fun e member => all e (List.mem_cons_of_mem _ member)⟩

theorem Along.imp {ok ok' : Pool S W → PoolEvent S W → Prop} {P : Pool S W} {events : List (PoolEvent S W)}
    (along : Along ok P events) (weaker : ∀ e ∈ events, ∀ P, ok P e → ok' P e) : Along ok' P events := by
  induction events generalizing P with
  | nil => trivial
  | cons e events ih =>
    exact ⟨weaker e List.mem_cons_self P along.1, ih along.2 fun e member => weaker e (List.mem_cons_of_mem _ member)⟩

theorem setProc_self (P : Pool S W) (pid : Nat) (proc : Proc S W) : (P.setProc pid proc).procs pid = proc :=
  if_pos rfl

theorem setProc_ne (P : Pool S W) {pid p : Nat} (proc : Proc S W) (ne : p ≠ pid) :
    (P.setProc pid proc).procs p = P.procs p :=
  if_neg ne

end Pool

/-- What has to be known of the jobs for every interleaving of them to be sound. -/
structure Contract (S : Service) (W : Workload S) (D : Discipline S W.Job) where
  /-- The jobs that may be started. -/
  Starts : W.Job → Prop
  /-- What may become of the commands of a job. -/
  May : Nat → W.Job → S.Command → S.State → Fate → Prop
  LocalOk : W.Local → S.State → Prop
  Fresh : Nat → S.State → Prop
  /-- What holds from the start of a job on. -/
  Since : Nat → W.Job → S.State → Prop
  Post : Nat → W.Job → W.Out → S.State → Prop
  local_rely : ∀ t l s s', LocalOk l s → D.Inv s → D.Inv s' → D.Rely t s s' → LocalOk l s'
  fresh_rely : ∀ t s s', Fresh t s → D.Rely t s s' → Fresh t s'
  since_fresh : ∀ t job s, Fresh t s → Since t job s
  since_step : ∀ t job s s', Since t job s → D.Step t job s s' → Since t job s'
  since_rely : ∀ t job s s', Since t job s → D.Rely t s s' → Since t job s'
  env_inv : ∀ e s, D.Inv s → D.Inv (W.env e s)
  env_rely : ∀ e t s, D.Inv s → D.Rely t s (W.env e s)

namespace Pool

variable {W : Workload S} {D : Discipline S W.Job} {C : Contract S W D}

/-- The end of a job with this ticket. -/
def Ended (C : Contract S W D) (t : Nat) (job : W.Job) (out : W.Out × W.Local) (s : S.State) : Prop :=
  C.Post t job out.1 s ∧ C.LocalOk out.2 s

/-- What holds of a pool in every interleaving of safe jobs. -/
structure Sound (C : Contract S W D) (P : Pool S W) : Prop where
  inv : D.Inv P.shared
  idle : ∀ pid l, P.procs pid = .idle l → C.LocalOk l P.shared
  busy : ∀ pid t job prog, P.procs pid = .busy t job prog → t < P.next ∧
    C.Since t job P.shared ∧ Safe D t job (C.May t job) prog P.shared (Ended C t job)
  distinct : ∀ pid pid' t job job' prog prog', P.procs pid = .busy t job prog → P.procs pid' = .busy t job' prog' →
    pid = pid'
  fresh : ∀ t, P.next ≤ t → C.Fresh t P.shared
  finished : ∀ t job out, (t, job, out) ∈ P.finished → t < P.next ∧
    (∀ pid job' prog, P.procs pid ≠ .busy t job' prog) ∧ C.Since t job P.shared ∧
    ∀ s', D.Rely t P.shared s' → D.Inv s' → C.Post t job out s'
  once : (P.finished.map Prod.fst).Nodup
  started : ∀ t, t < P.next → (∃ pid job prog, P.procs pid = .busy t job prog) ∨
    ∃ job out, (t, job, out) ∈ P.finished

/-- A change of the shared state while every busy process stays at its job. -/
theorem Sound.advance {P : Pool S W} (h : Sound C P) {s' : S.State} {procs : Nat → Proc S W} (inv : D.Inv s')
    (same : ∀ pid, procs pid = P.procs pid ∨
      ∃ t job prog prog', P.procs pid = .busy t job prog ∧ procs pid = .busy t job prog')
    (rely : ∀ t, (∀ pid job prog, P.procs pid ≠ .busy t job prog) → D.Rely t P.shared s')
    (since : ∀ pid t job prog, procs pid = .busy t job prog → C.Since t job s')
    (safe : ∀ pid t job prog, procs pid = .busy t job prog → Safe D t job (C.May t job) prog s' (Ended C t job)) :
    Sound C { P with shared := s', procs := procs } := by
  have before : ∀ {pid t job prog}, procs pid = .busy t job prog → ∃ prog', P.procs pid = .busy t job prog' := by
    intro pid t job prog busy
    rcases same pid with kept | ⟨t', job', prog₁, prog₂, was, now⟩
    · exact ⟨prog, by rw [← kept, busy]⟩
    · rw [busy] at now
      cases now
      exact ⟨prog₁, was⟩
  have after : ∀ {pid t job prog}, P.procs pid = .busy t job prog → ∃ prog', procs pid = .busy t job prog' := by
    intro pid t job prog busy
    rcases same pid with kept | ⟨t', job', prog₁, prog₂, was, now⟩
    · exact ⟨prog, by rw [kept, busy]⟩
    · rw [busy] at was
      cases was
      exact ⟨prog₂, now⟩
  have past : ∀ {pid t job prog}, P.procs pid = .busy t job prog → t < P.next := fun busy =>
    (h.busy _ _ _ _ busy).1
  refine ⟨inv, fun pid l idle => ?_, fun pid t job prog busy => ?_, fun pid pid' t job job' prog prog' busy busy' => ?_,
    fun t later => ?_, fun t job out member => ?_, h.once, fun t started => ?_⟩
  · have was : P.procs pid = .idle l := by
      rcases same pid with kept | ⟨t', job', prog₁, prog₂, _, now⟩
      · rw [← kept]; exact idle
      · exact absurd (idle.symm.trans now) (by simp)
    -- a ticket that was never given out relies on everybody
    exact C.local_rely P.next l P.shared s' (h.idle pid l was) h.inv inv
      (rely _ fun pid' job prog busy => Nat.lt_irrefl _ (past busy))
  · obtain ⟨prog', was⟩ := before busy
    exact ⟨past was, since pid t job prog busy, safe pid t job prog busy⟩
  · obtain ⟨_, was⟩ := before busy
    obtain ⟨_, was'⟩ := before busy'
    exact h.distinct _ _ _ _ _ _ _ was was'
  · exact C.fresh_rely t _ _ (h.fresh t later)
      (rely t fun pid' job prog busy => Nat.lt_irrefl _ (Nat.lt_of_lt_of_le (past busy) later))
  · obtain ⟨old, notBusy, held, post⟩ := h.finished t job out member
    refine ⟨old, fun pid job' prog busy => ?_, C.since_rely t job _ _ held (rely t notBusy), fun s'' later inv'' =>
      post s'' (D.rely_trans t _ _ _ (rely t notBusy) later) inv''⟩
    obtain ⟨_, was⟩ := before busy
    exact notBusy _ _ _ was
  · rcases h.started t started with ⟨pid, job, prog, busy⟩ | done
    · obtain ⟨prog', now⟩ := after busy
      exact Or.inl ⟨pid, job, prog', now⟩
    · exact Or.inr done

/-- An idle process starts a job with the next ticket. -/
theorem Sound.begin {P : Pool S W} (h : Sound C P) {pid : Nat} {l : W.Local} (idle : P.procs pid = .idle l) {job : W.Job}
    (since : C.Since P.next job P.shared)
    (safe : Safe D P.next job (C.May P.next job) (W.code job P.next l) P.shared (Ended C P.next job)) :
    Sound C { P.setProc pid (.busy P.next job (W.code job P.next l)) with next := P.next + 1 } := by
  have others : ∀ {p t job' prog}, (P.setProc pid (.busy P.next job (W.code job P.next l))).procs p = .busy t job' prog →
      (p = pid ∧ t = P.next) ∨ (p ≠ pid ∧ P.procs p = .busy t job' prog) := by
    intro p t job' prog busy
    by_cases here : p = pid
    · subst here
      rw [setProc_self] at busy
      cases busy
      exact Or.inl ⟨rfl, rfl⟩
    · rw [setProc_ne P _ here] at busy
      exact Or.inr ⟨here, busy⟩
  have kept : ∀ {p t job' prog}, P.procs p = .busy t job' prog →
      (P.setProc pid (.busy P.next job (W.code job P.next l))).procs p = .busy t job' prog := by
    intro p t job' prog busy
    rw [setProc_ne P]
    · exact busy
    · rintro rfl
      rw [idle] at busy
      cases busy
  refine ⟨h.inv, fun p l' idle' => ?_, fun p t job' prog busy => ?_, fun p p' t job₁ job₂ prog₁ prog₂ busy busy' => ?_,
    fun t later => h.fresh t (Nat.le_of_succ_le later), fun t job' out member => ?_, h.once, fun t started => ?_⟩
  · by_cases here : p = pid
    · subst here
      rw [show (Pool.setProc P p _).procs p = _ from setProc_self P p _] at idle'
      cases idle'
    · exact h.idle p l' (by rw [← setProc_ne P _ here]; exact idle')
  · by_cases here : p = pid
    · subst here
      rw [show (Pool.setProc P p _).procs p = _ from setProc_self P p _] at busy
      cases busy
      exact ⟨Nat.lt_succ_self _, since, safe⟩
    · obtain ⟨past, since', safe'⟩ := h.busy p t job' prog (by rw [← setProc_ne P _ here]; exact busy)
      exact ⟨Nat.lt_succ_of_lt past, since', safe'⟩
  · rcases others busy with ⟨rfl, rfl⟩ | ⟨_, was⟩ <;> rcases others busy' with ⟨rfl, same⟩ | ⟨_, was'⟩
    · rfl
    · exact absurd (h.busy _ _ _ _ was').1 (Nat.lt_irrefl _)
    · exact absurd (same ▸ (h.busy _ _ _ _ was).1) (Nat.lt_irrefl _)
    · exact h.distinct _ _ _ _ _ _ _ was was'
  · obtain ⟨past, notBusy, post⟩ := h.finished t job' out member
    refine ⟨Nat.lt_succ_of_lt past, fun p job'' prog busy => ?_, post⟩
    rcases others busy with ⟨_, rfl⟩ | ⟨_, was⟩
    · exact Nat.lt_irrefl _ past
    · exact notBusy _ _ _ was
  · by_cases new : t = P.next
    · exact Or.inl ⟨pid, job, _, by rw [new]; exact setProc_self P pid _⟩
    · rcases h.started t (by have := Nat.lt_succ_iff_lt_or_eq.mp started; omega) with ⟨p, job', prog, busy⟩ | done
      · exact Or.inl ⟨p, job', prog, kept busy⟩
      · exact Or.inr done

/-- A busy process that has come to its end is idle again. -/
theorem Sound.finish {P : Pool S W} (h : Sound C P) {pid t : Nat} {job : W.Job} {out : W.Out} {l : W.Local}
    (busy : P.procs pid = .busy t job (.ret (out, l))) :
    Sound C { P.setProc pid (.idle l) with finished := P.finished ++ [(t, job, out)] } := by
  obtain ⟨past, since, ends⟩ := h.busy _ _ _ _ busy
  have still : ∀ {p t' job' prog}, (P.setProc pid (.idle l)).procs p = .busy t' job' prog →
      p ≠ pid ∧ P.procs p = .busy t' job' prog := by
    intro p t' job' prog busy'
    by_cases here : p = pid
    · subst here
      rw [setProc_self] at busy'
      cases busy'
    · exact ⟨here, by rw [← setProc_ne P _ here]; exact busy'⟩
  refine ⟨h.inv, fun p l' idle' => ?_, fun p t' job' prog busy' => h.busy _ _ _ _ (still busy').2,
    fun p p' t' job₁ job₂ prog₁ prog₂ busy₁ busy₂ => h.distinct _ _ _ _ _ _ _ (still busy₁).2 (still busy₂).2,
    h.fresh, fun t' job' out' member => ?_, ?_, fun t' started => ?_⟩
  · by_cases here : p = pid
    · subst here
      rw [show (Pool.setProc P p _).procs p = _ from setProc_self P p _] at idle'
      cases idle'
      exact (ends P.shared (D.rely_refl _ _) h.inv).2
    · exact h.idle p l' (by rw [← setProc_ne P _ here]; exact idle')
  · rcases List.mem_append.mp member with old | new
    · obtain ⟨past', notBusy, post⟩ := h.finished _ _ _ old
      exact ⟨past', fun p job'' prog busy' => notBusy _ _ _ (still busy').2, post⟩
    · obtain ⟨rfl, rfl, rfl⟩ : t' = t ∧ job' = job ∧ out' = out := by simpa using new
      refine ⟨past, fun p job'' prog busy' => ?_, since, fun s' rely inv => (ends s' rely inv).1⟩
      obtain ⟨ne, was⟩ := still busy'
      exact ne (h.distinct _ _ _ _ _ _ _ was busy)
  · rw [List.map_append, List.nodup_append]
    refine ⟨h.once, by simp, fun a old b new => ?_⟩
    obtain ⟨⟨t', job', out'⟩, member, rfl⟩ := List.mem_map.mp old
    obtain rfl : b = t := by simpa using new
    rintro rfl
    exact (h.finished _ _ _ member).2.1 _ _ _ busy
  · rcases h.started t' started with ⟨p, job', prog, busy'⟩ | ⟨job', out', member⟩
    · by_cases here : p = pid
      · subst here
        rw [busy] at busy'
        cases busy'
        exact Or.inr ⟨job, out, List.mem_append_right _ List.mem_cons_self⟩
      · exact Or.inl ⟨p, job', prog, by rw [← busy']; exact setProc_ne P _ here⟩
    · exact Or.inr ⟨job', out', List.mem_append_left _ member⟩

/-- The events the contract is about. -/
def Admissible (C : Contract S W D) (P : Pool S W) : PoolEvent S W → Prop
  | .start _ job => C.Starts job
  | .step pid fate => ∀ t job c next, P.procs pid = .busy t job (.call c next) → C.May t job c P.shared fate
  | .env _ => True

/-- One event. -/
theorem Sound.step {P : Pool S W} (h : Sound C P)
    (code : ∀ t job l s, C.Starts job → D.Inv s → C.LocalOk l s → C.Fresh t s →
      Safe D t job (C.May t job) (W.code job t l) s (Ended C t job))
    {e : PoolEvent S W} (admissible : Admissible C P e) : Sound C (P.next_ e) := by
  cases e with
  | start pid job =>
    cases found : P.procs pid with
    | idle l =>
      simp only [next_, found]
      have fresh := h.fresh _ (Nat.le_refl P.next)
      exact h.begin found (C.since_fresh _ job _ fresh) (code _ _ _ _ admissible h.inv (h.idle _ _ found) fresh)
    | busy t job' prog => simp only [next_, found]; exact h
  | step pid fate =>
    cases found : P.procs pid with
    | idle l => simp only [next_, found]; exact h
    | busy t job prog =>
      cases prog with
      | ret out =>
        obtain ⟨out, l⟩ := out
        simp only [next_, found]
        exact h.finish found
      | call c next =>
        simp only [next_, found]
        obtain ⟨_, since, safe⟩ := h.busy _ _ _ _ found
        obtain ⟨inv, step, rest⟩ := safe P.shared (D.rely_refl _ _) h.inv fate (admissible _ _ _ _ found)
        have others : ∀ t', t ≠ t' → D.Rely t' P.shared (S.perform c P.shared fate).2 := fun t' ne =>
          D.rely_of_step t job t' _ _ ne step
        -- the other busy processes, as they were
        have other : ∀ {p t' job' prog'}, p ≠ pid → P.procs p = .busy t' job' prog' → t ≠ t' := by
          rintro p t' job' prog' ne busy rfl
          exact ne (h.distinct _ _ _ _ _ _ _ busy found)
        refine h.advance inv (fun p => ?_) (fun t' notBusy => others t' ?_) (fun p t' job' prog' busy => ?_)
          fun p t' job' prog' busy => ?_
        · by_cases here : p = pid
          · subst here
            exact Or.inr ⟨t, job, _, _, found, setProc_self P p _⟩
          · exact Or.inl (setProc_ne P _ here)
        · rintro rfl
          exact notBusy _ _ _ found
        · by_cases here : p = pid
          · subst here
            rw [setProc_self] at busy
            cases busy
            exact C.since_step t job _ _ since step
          · rw [setProc_ne P _ here] at busy
            exact C.since_rely t' job' _ _ (h.busy _ _ _ _ busy).2.1 (others t' (other here busy))
        · by_cases here : p = pid
          · subst here
            rw [setProc_self] at busy
            cases busy
            exact rest
          · rw [setProc_ne P _ here] at busy
            exact (h.busy _ _ _ _ busy).2.2.rely (others t' (other here busy))
  | env e =>
    refine h.advance (C.env_inv e _ h.inv) (fun _ => Or.inl rfl) (fun t _ => C.env_rely e t _ h.inv)
      (fun pid t job prog busy => ?_) fun pid t job prog busy => ?_
    · exact C.since_rely t job _ _ (h.busy _ _ _ _ busy).2.1 (C.env_rely e t _ h.inv)
    · exact (h.busy _ _ _ _ busy).2.2.rely (C.env_rely e t _ h.inv)

/-- Any interleaving. -/
theorem Sound.run {P : Pool S W} (h : Sound C P)
    (code : ∀ t job l s, C.Starts job → D.Inv s → C.LocalOk l s → C.Fresh t s →
      Safe D t job (C.May t job) (W.code job t l) s (Ended C t job))
    {events : List (PoolEvent S W)} (admissible : Along (Admissible C) P events) : Sound C (P.run events) := by
  induction events generalizing P with
  | nil => exact h
  | cons e events ih => exact ih (h.step code admissible.1) admissible.2

theorem sound_init {s : S.State} {l : Nat → W.Local} (inv : D.Inv s) (locals : ∀ pid, C.LocalOk (l pid) s)
    (fresh : ∀ t, C.Fresh t s) : Sound C (init s l : Pool S W) := by
  refine ⟨inv, ?_, ?_, ?_, fun t _ => fresh t, ?_, List.nodup_nil, fun t started => absurd started (Nat.not_lt_zero t)⟩
  · intro pid l' idle
    obtain rfl := Proc.idle.inj idle
    exact locals pid
  · rintro pid t job prog ⟨⟩
  · rintro pid pid' t job job' prog prog' ⟨⟩
  · rintro t job out ⟨⟩

end Pool

/-! ### One process after the other -/

/-- No process takes a step once a later one has begun. -/
def Successive {W : Workload S} (events : List (PoolEvent S W)) : Prop := (events.filterMap PoolEvent.pid).Pairwise (· ≤ ·)

instance {W : Workload S} (events : List (PoolEvent S W)) : Decidable (Successive events) :=
  inferInstanceAs (Decidable ((events.filterMap PoolEvent.pid).Pairwise (· ≤ ·)))

/-- The process whose turn it is may do anything and relies on the `quiet` changes of its environment. -/
def alone (Role : Type) (Inv : S.State → Prop) (quiet : S.State → S.State → Prop) (refl : ∀ s, quiet s s)
    (trans : ∀ s s' s'', quiet s s' → quiet s' s'' → quiet s s'') (turn : Nat) : Discipline S Role where
  Inv := Inv
  Step t _ s s' := t = turn ∨ s' = s
  Rely t s s' := t = turn → quiet s s'
  step_refl _ _ _ := Or.inr rfl
  rely_refl _ s _ := refl s
  rely_trans _ s s' s'' first second here := trans s s' s'' (first here) (second here)
  rely_of_step t role t' s s' ne step := by
    rintro rfl
    rcases step with rfl | rfl
    · exact absurd rfl ne
    · exact refl _

namespace Pool

variable {W : Workload S}

section

variable {Inv : S.State → Prop} {quiet : S.State → S.State → Prop} {refl : ∀ s, quiet s s}
  {trans : ∀ s s' s'', quiet s s' → quiet s' s'' → quiet s s''}

/-- The later processes have not begun, and the one at work is safe. -/
structure Turn (Inv : S.State → Prop) (quiet : S.State → S.State → Prop) (refl : ∀ s, quiet s s)
    (trans : ∀ s s' s'', quiet s s' → quiet s' s'' → quiet s s'') (P : Pool S W) (pid : Nat) : Prop where
  inv : Inv P.shared
  idle : ∀ p, pid < p → ∃ l, P.procs p = .idle l
  safe : ∀ t job prog, P.procs pid = .busy t job prog →
    Safe (alone W.Job Inv quiet refl trans t) t job (fun _ _ _ => True) prog P.shared fun _ _ => True

theorem Turn.later {P : Pool S W} {pid pid' : Nat} (h : Turn Inv quiet refl trans P pid) (after : pid ≤ pid') :
    Turn Inv quiet refl trans P pid' := by
  rcases Nat.eq_or_lt_of_le after with rfl | lt
  · exact h
  · refine ⟨h.inv, fun p more => h.idle p (Nat.lt_trans lt more), fun t job prog busy => ?_⟩
    obtain ⟨l, idle⟩ := h.idle pid' lt
    rw [idle] at busy
    cases busy

theorem Turn.change {P : Pool S W} {pid : Nat} (h : Turn Inv quiet refl trans P pid) {s : S.State} (inv : Inv s)
    (moved : quiet P.shared s) : Turn Inv quiet refl trans { P with shared := s } pid :=
  ⟨inv, h.idle, fun t job prog busy => (h.safe t job prog busy).rely fun _ => moved⟩

/-- An event of the process at work. -/
theorem Turn.own {P : Pool S W} {pid : Nat} (h : Turn Inv quiet refl trans P pid)
    (code : ∀ t job l s, Inv s →
      Safe (alone W.Job Inv quiet refl trans t) t job (fun _ _ _ => True) (W.code job t l) s fun _ _ => True)
    {e : PoolEvent S W} (own : e.pid = some pid) : Turn Inv quiet refl trans (P.next_ e) pid := by
  have others : ∀ proc p, pid < p → ∃ l, (P.setProc pid proc).procs p = .idle l := by
    intro proc p after
    rw [setProc_ne P proc (Nat.ne_of_gt after)]
    exact h.idle p after
  cases e with
  | start p job =>
    obtain rfl : p = pid := Option.some.inj own
    cases found : P.procs p with
    | idle l =>
      simp only [next_, found]
      refine ⟨h.inv, others _, fun t job' prog busy => ?_⟩
      rw [show (Pool.setProc P p _).procs p = _ from setProc_self P p _] at busy
      cases busy
      exact code P.next job l P.shared h.inv
    | busy t job' prog => simp only [next_, found]; exact h
  | step p fate =>
    obtain rfl : p = pid := Option.some.inj own
    cases found : P.procs p with
    | idle l => simp only [next_, found]; exact h
    | busy t job prog =>
      cases prog with
      | ret out =>
        obtain ⟨out, l⟩ := out
        simp only [next_, found]
        refine ⟨h.inv, others _, fun t' job' prog busy => ?_⟩
        rw [show (Pool.setProc P p _).procs p = _ from setProc_self P p _] at busy
        cases busy
      | call c next =>
        simp only [next_, found]
        obtain ⟨inv, _, rest⟩ := h.safe _ _ _ found P.shared (fun _ => refl _) h.inv fate trivial
        refine ⟨inv, others _, fun t' job' prog busy => ?_⟩
        rw [show (Pool.setProc P p _).procs p = _ from setProc_self P p _] at busy
        cases busy
        exact rest
  | env e => cases own

theorem Turn.run {P : Pool S W} {pid : Nat} (h : Turn Inv quiet refl trans P pid)
    (code : ∀ t job l s, Inv s →
      Safe (alone W.Job Inv quiet refl trans t) t job (fun _ _ _ => True) (W.code job t l) s fun _ _ => True)
    (env : ∀ e s, Inv s → Inv (W.env e s) ∧ quiet s (W.env e s)) {events : List (PoolEvent S W)}
    (successive : Successive events) (after : ∀ p ∈ events.filterMap PoolEvent.pid, pid ≤ p) : Inv (P.run events).shared := by
  induction events generalizing P pid with
  | nil => exact h.inv
  | cons e events ih =>
    cases here : e.pid with
    | none =>
      rw [Successive, List.filterMap_cons_none here] at successive
      rw [List.filterMap_cons_none here] at after
      cases e with
      | env e =>
        obtain ⟨inv, moved⟩ := env e P.shared h.inv
        exact ih (h.change inv moved) successive after
      | start p job => cases here
      | step p fate => cases here
    | some p =>
      rw [Successive, List.filterMap_cons_some here, List.pairwise_cons] at successive
      rw [List.filterMap_cons_some here] at after
      exact ih ((h.later (after p List.mem_cons_self)).own code here) successive.2 successive.1

/-- Processes that run one after the other. -/
theorem inv_run_successive {s : S.State} {l : Nat → W.Local} (inv : Inv s)
    (code : ∀ t job l s, Inv s →
      Safe (alone W.Job Inv quiet refl trans t) t job (fun _ _ _ => True) (W.code job t l) s fun _ _ => True)
    (env : ∀ e s, Inv s → Inv (W.env e s) ∧ quiet s (W.env e s)) {events : List (PoolEvent S W)}
    (successive : Successive events) : Inv ((init s l : Pool S W).run events).shared := by
  have start : Turn Inv quiet refl trans (init s l : Pool S W) 0 :=
    ⟨inv, fun p _ => ⟨l p, rfl⟩, fun t job prog busy => nomatch busy⟩
  exact start.run code env successive fun p _ => Nat.zero_le p

end

end Pool

end Xair.Library
