import Mathlib.Algebra.Order.Ring.Rat
import Mathlib.Tactic.Linarith
import Xair.Release.ExactlyOnce

/-!
# The recheck at the effect

Consumers of one name that run one after the other, each with `recheck_at_apply`. A
crash between a decision on a record and the write of the offset makes the next
consumer decide on it again, by a context and a clock that have moved on meanwhile.
-/

namespace Xair

open Library

/-! ### Consumers with the recheck -/

/-- The log grows by any record, the context changes and time passes. -/
def Plant.drift : PlantChange → Plant → Plant
  | .append record, s => { s with log := s.log ++ [record] }
  | .show view, s => { s with view := view }
  | .tick clock, s => if s.clock ≤ clock then { s with clock := clock } else s

/-- Consumers of one name, each polling again and again, with a recheck at the effect. -/
def recheckers : Workload plant where
  Job := Unit
  Local := Consumer
  Out := Except ConsumerError Nat
  code _ _ l := (poll true).program l
  Env := PlantChange
  env := Plant.drift

/-- The lists of a consumer, those of a crashed one as the crash left them. -/
def lists : Proc plant recheckers → Consumer
  | .idle l => l
  | .busy _ _ prog => prog.stop.2

/-- What the consumers before one have reported as withheld. -/
def reportsBefore (P : Pool plant recheckers) (pid : Nat) : List Str :=
  (List.range pid).flatMap fun p => (lists (P.procs p)).withheld

/-- The same with its own reports. -/
def reports (P : Pool plant recheckers) (pid : Nat) : List Str := reportsBefore P pid ++ (lists (P.procs pid)).withheld

/-- What a poll reads of the record at the offset agrees with what has been decided on its intent: after its
effect it is neither moved nor late, and after it was withheld it is moved or late. -/
def SameVerdict (reported : List Str) (s : Plant) : ConsumerCommand → Prop
  | .snapshotWithPredicates _ => ∀ record ∈ s.log[s.offset.getD 0]?, ∀ id ∈ authorized record,
      (id ∈ s.effects → moved record s.view = false) ∧
        (id ∈ reported → moved record s.view = true ∨ late s.clock record = true)
  | .time => ∀ record ∈ s.log[s.offset.getD 0]?, ∀ id ∈ authorized record, id ∈ s.effects → late s.clock record = false
  | _ => True

instance (reported : List Str) (s : Plant) : DecidablePred (SameVerdict reported s)
  | .snapshotWithPredicates _ => inferInstanceAs (Decidable (∀ record ∈ s.log[s.offset.getD 0]?, ∀ id ∈ authorized record,
      (id ∈ s.effects → moved record s.view = false) ∧
        (id ∈ reported → moved record s.view = true ∨ late s.clock record = true)))
  | .time => inferInstanceAs (Decidable (∀ record ∈ s.log[s.offset.getD 0]?, ∀ id ∈ authorized record,
      id ∈ s.effects → late s.clock record = false))
  | .kvGet => .isTrue trivial
  | .kvSet _ => .isTrue trivial
  | .actuationLog _ => .isTrue trivial
  | .apply _ => .isTrue trivial

/-- The event is not a read by which a consumer would decide otherwise than before. -/
def Agrees (P : Pool plant recheckers) : PoolEvent plant recheckers → Prop
  | .step pid .done =>
    match P.procs pid with
    | .busy _ _ (.call c _) => SameVerdict (reports P pid) P.shared c
    | _ => True
  | _ => True

instance (P : Pool plant recheckers) : DecidablePred (Agrees P)
  | .step pid .done =>
    match found : P.procs pid with
    | .busy _ _ (.call c _) => decidable_of_iff (SameVerdict (reports P pid) P.shared c) (by simp only [Agrees, found])
    | .busy _ _ (.ret _) => .isTrue (by simp only [Agrees, found])
    | .idle _ => .isTrue (by simp only [Agrees, found])
  | .step _ .refused | .step _ (.broken _) | .start _ _ | .env _ => .isTrue trivial

/-! ### One consumer at work -/

/-- The others leave the offset and the effects alone while this one is at work, and time passes. -/
def Plant.Later (s s' : Plant) : Prop := s.Quiet s' ∧ s.clock ≤ s'.clock

theorem Plant.Later.trans {s s' s'' : Plant} (first : s.Later s') (second : s'.Later s'') : s.Later s'' :=
  ⟨Plant.Quiet.trans _ _ _ first.1 second.1, le_trans first.2 second.2⟩

theorem Plant.later_drift (c : PlantChange) (s : Plant) : s.Later (s.drift c) := by
  cases c with
  | append record => exact ⟨⟨List.prefix_append _ _, rfl, rfl⟩, le_refl _⟩
  | «show» view => exact ⟨Plant.Quiet.refl s, le_refl _⟩
  | tick clock =>
    rw [Plant.drift]
    split
    · rename_i forward
      exact ⟨Plant.Quiet.refl s, forward⟩
    · exact ⟨Plant.Quiet.refl s, le_refl _⟩

/-- None of these intents has had its effect. -/
def Plant.Without (reported : List Str) (s : Plant) : Prop := ∀ id ∈ reported, id ∉ s.effects

theorem Plant.Without.later {reported : List Str} {s s' : Plant} (h : s.Without reported) (later : s.Later s') :
    s'.Without reported := fun id member => by
  rw [later.1.2.2]
  exact h id member

/-- However the run of a consumer goes on, if its reads agree with what has been decided then no intent that it or
the others have reported has its effect. -/
def Careful (others : List Str) : Prog plant (Except ConsumerError Nat × Consumer) → Plant → Prop
  | .ret out, s => s.Without (others ++ out.2.withheld)
  | .call c next, s => s.Without (others ++ (next (.error .refused)).stop.2.withheld) ∧ ∀ s', s.Later s' → ∀ fate,
      (fate = .done → SameVerdict (others ++ (next (.error .refused)).stop.2.withheld) s' c) →
      Careful others (next (plant.perform c s' fate).1) (plant.perform c s' fate).2

namespace Careful

variable {α : Type} {others : List Str} {l : Consumer} {s : Plant}

theorem without {p : Prog plant (Except ConsumerError Nat × Consumer)} (h : Careful others p s) :
    s.Without (others ++ p.stop.2.withheld) := by
  cases p with
  | ret out => exact h
  | call c next => exact h.1

theorem later {p : Prog plant (Except ConsumerError Nat × Consumer)} (h : Careful others p s) {s' : Plant} (moved : s.Later s') :
    Careful others p s' := by
  cases p with
  | ret out => exact Plant.Without.later h moved
  | call c next => exact ⟨h.1.later moved, fun s'' moved' => h.2 s'' (moved.trans moved')⟩

/-- A command whose effect, if it has one, gives none of the reported intents its effect. -/
theorem consume_bind {c : ConsumerCommand} {g : c.Reply → ConsumerM α} {f : α → ConsumerM Nat}
    (start : s.Without (others ++ l.withheld))
    (effect : ∀ s', s.Later s' → (Plant.exec c s').2.Without (others ++ l.withheld))
    (answered : ∀ s', s.Later s' → SameVerdict (others ++ l.withheld) s' c →
      Careful others ((g (Plant.exec c s').1 >>= f).program l) (Plant.exec c s').2) :
    Careful others ((consume c >>= g >>= f).program l) s := by
  rw [bind_assoc]
  refine ⟨start, fun s' moved fate agrees => ?_⟩
  cases fate with
  | done => exact answered s' moved (agrees rfl)
  | refused => exact Plant.Without.later start moved
  | broken took =>
    cases took with
    | false => exact Plant.Without.later start moved
    | true => exact effect s' moved

/-- A command that reads. -/
theorem ask_bind {c : ConsumerCommand} {g : c.Reply → ConsumerM α} {f : α → ConsumerM Nat}
    (reads : ∀ s', (Plant.exec c s').2 = s') (start : s.Without (others ++ l.withheld))
    (answered : ∀ s', s.Later s' → SameVerdict (others ++ l.withheld) s' c →
      Careful others ((g (Plant.exec c s').1 >>= f).program l) s') :
    Careful others ((consume c >>= g >>= f).program l) s := by
  refine consume_bind start (fun s' moved => ?_) fun s' moved agrees => ?_
  · rw [reads]
    exact start.later moved
  · rw [reads]
    exact answered s' moved agrees

theorem apply_bind {id : Str} {g : Bool → ConsumerM α} {f : α → ConsumerM Nat} (start : s.Without (others ++ l.withheld))
    (new : id ∉ others ++ l.withheld)
    (next : ∀ performed s', s.log <+: s'.log → s'.Without (others ++ l.withheld) →
      Careful others ((g performed >>= f).program l) s') :
    Careful others ((consume (.apply id) >>= g >>= f).program l) s := by
  have effect : ∀ s', s.Later s' → s.log <+: (Plant.exec (.apply id) s').2.log ∧
      (Plant.exec (.apply id) s').2.Without (others ++ l.withheld) := by
    intro s' moved
    have before := start.later moved
    simp only [Plant.exec]
    split
    · exact ⟨moved.1.1, before⟩
    · refine ⟨moved.1.1, fun x member performed => ?_⟩
      rcases List.mem_append.mp performed with old | here
      · exact before x member old
      · rw [List.mem_singleton.mp here] at member
        exact new member
  exact consume_bind start (fun s' moved => (effect s' moved).2) fun s' moved _ =>
    next _ _ (effect s' moved).1 (effect s' moved).2

/-- The write of the offset past the record ends a turn. -/
theorem kvSet_bind {k : Nat} {f : Unit → ConsumerM Nat} (start : s.Without (others ++ l.withheld))
    (next : ∀ s', s.log <+: s'.log → s'.offset.getD 0 = k + 1 → s'.Without (others ++ l.withheld) →
      Careful others ((f ()).program l) s') :
    Careful others ((consume (.kvSet (k + 1)) >>= f).program l) s := by
  have turn : Careful others ((consume (.kvSet (k + 1)) >>= (fun _ => f ()) >>= pure).program l) s := by
    refine consume_bind start (fun _ moved => (start.later moved :)) fun s' moved _ => ?_
    rw [bind_pure]
    exact next { s' with offset := some (k + 1) } moved.1.1 rfl (start.later moved :)
  rwa [bind_pure] at turn

theorem modify_bind {g : Consumer → Consumer} {h : PUnit → ConsumerM α} {f : α → ConsumerM Nat}
    (next : Careful others ((h ⟨⟩ >>= f).program (g l)) s) : Careful others ((modify g >>= h >>= f).program l) s := next

theorem ite_bind {p : Prop} [Decidable p] {m m' : ConsumerM α} {f : α → ConsumerM Nat}
    (yes : p → Careful others ((m >>= f).program l) s) (no : ¬p → Careful others ((m' >>= f).program l) s) :
    Careful others (((if p then m else m') >>= f).program l) s := by
  split
  · exact yes ‹_›
  · exact no ‹_›

/-! ### A turn of the loop -/

/-- Time only makes a record late. -/
theorem late_mono {record : Members} {now now' : ℚ} (forward : now ≤ now') (late_ : late now record = true) :
    late now' record = true := by
  unfold late at late_ ⊢
  split at late_
  · rename_i decision bound _ _
    cases bound with
    | fin b =>
      have past : b < now - decision := of_decide_eq_true late_
      exact decide_eq_true (by linarith)
    | inf neg => cases neg <;> simp_all [PyFloat.lt]
    | nan => cases late_
  · cases late_

variable {k : Nat} {record : Members} {id : Str}

/-- A turn of the loop on the record at the offset. -/
theorem pollRecord_bind {f : Unit → ConsumerM Nat} (here : s.log[k]? = some record) (offset : s.offset.getD 0 = k)
    (start : s.Without (others ++ l.withheld))
    (next : ∀ l' s', s.log <+: s'.log → s'.offset.getD 0 = k + 1 → s'.Without (others ++ l'.withheld) →
      Careful others ((f ()).program l') s') :
    Careful others ((pollRecord true k record >>= f).program l) s := by
  refine ite_bind (fun authorizes => ?_) fun _ => kvSet_bind (k := k) start fun s' => next l s'
  cases named : recordId record with
  | none => exact start
  | some id =>
    have authorizes' := authorized_eq authorizes named
    refine ask_bind (fun _ => rfl) start fun s₁ later₁ agrees => ?_
    have offset₁ : s₁.offset.getD 0 = k := by rw [later₁.1.2.1, offset]
    have here₁ := getElem?_of_initial later₁.1.1 here
    obtain ⟨performed, withheld⟩ := agrees record (by rw [offset₁]; exact here₁) id authorizes'
    refine ask_bind (fun _ => rfl) (start.later later₁) fun s₂ later₂ agrees => ?_
    have late_ := agrees record (by rw [later₂.1.2.1, offset₁]; exact getElem?_of_initial later₂.1.1 here₁) id authorizes'
    have later := later₁.trans later₂
    refine modify_bind (ite_bind (fun verdict => modify_bind ?_) fun verdict => ?_)
    · -- an intent that had its effect would have been found neither moved nor late
      change ((moved record s₁.view || late s₂.clock record) && true) = true at verdict
      rw [Bool.and_true] at verdict
      have new : id ∉ s₂.effects := fun effect => by
        have effect₁ : id ∈ s₁.effects := later₂.1.2.2 ▸ effect
        rw [performed effect₁, late_ effect] at verdict
        cases verdict
      have kept : s₂.Without (others ++ (l.withheld ++ [id])) := fun x member => by
        rw [← List.append_assoc] at member
        rcases List.mem_append.mp member with old | last
        · exact start.later later x old
        · rwa [List.mem_singleton.mp last]
      exact kvSet_bind (k := k) kept fun s₃ grows => next _ s₃ (later.1.1.trans grows)
    · -- an intent that was withheld would have been found moved or late
      change ¬((moved record s₁.view || late s₂.clock record) && true) = true at verdict
      rw [Bool.and_true] at verdict
      have new : id ∉ others ++ l.withheld := fun reported => verdict <| Bool.or_eq_true_iff.mpr <|
        (withheld reported).imp_right (late_mono later₂.2)
      refine apply_bind (start.later later) new fun done s₃ grows without => modify_bind ?_
      exact kvSet_bind (k := k) without fun s₄ grows' => next _ s₄ ((later.1.1.trans grows).trans grows')

/-- The loop from the offset on. -/
theorem pollLoop_bind {f : Unit → ConsumerM Nat} (ends : ∀ l s, s.Without (others ++ l.withheld) → Careful others ((f ()).program l) s)
    {records : List Members} (ahead : records <+: s.log.drop k) (offset : s.offset.getD 0 = k)
    (start : s.Without (others ++ l.withheld)) : Careful others ((pollLoop true k records >>= f).program l) s := by
  induction records generalizing k l s with
  | nil => exact ends l s start
  | cons record rest ih =>
    obtain ⟨more, split⟩ := ahead
    have here : s.log[k]? = some record := by
      rw [← Nat.add_zero k, ← List.getElem?_drop, ← split]
      rfl
    rw [pollLoop, bind_assoc]
    refine pollRecord_bind here offset start fun l' s' grows offset' start' => ih ?_ offset' start'
    obtain ⟨later, appended⟩ := grows
    have inside : k + 1 ≤ s.log.length := (List.getElem?_eq_some_iff.mp here).1
    have next : s.log.drop (k + 1) = rest ++ more := by
      rw [← List.tail_drop, ← split]
      rfl
    exact ⟨more ++ later, by rw [← appended, List.drop_append_of_le_length inside, next, List.append_assoc]⟩

/-- A poll may begin wherever no reported intent has its effect. -/
theorem of_poll (start : s.Without (others ++ l.withheld)) : Careful others ((poll true).program l) s := by
  rw [← bind_pure (poll true)]
  refine ask_bind (fun _ => rfl) start fun s₁ later₁ _ => ask_bind (fun _ => rfl) (start.later later₁) fun s₂ later₂ _ => ?_
  rw [bind_assoc]
  refine pollLoop_bind (fun l s ends => ?_) (List.prefix_refl _) (by rw [later₂.1.2.1]; rfl)
    (start.later (later₁.trans later₂))
  exact ends

end Careful

/-! ### Every run -/

/-- The later consumers have not begun, no reported intent has its effect, and the one at work is careful. -/
structure Orderly (P : Pool plant recheckers) (turn : Nat) : Prop where
  idle : ∀ p, turn < p → P.procs p = .idle Consumer.init
  without : ∀ p, P.shared.Without (lists (P.procs p)).withheld
  careful : ∀ t job prog, P.procs turn = .busy t job prog → Careful (reportsBefore P turn) prog P.shared

namespace Orderly

variable {P P' : Pool plant recheckers} {turn : Nat}

theorem mem_reportsBefore {id : Str} : id ∈ reportsBefore P turn ↔ ∃ p < turn, id ∈ (lists (P.procs p)).withheld := by
  simp [reportsBefore]

theorem without_reports (h : Orderly P turn) : P.shared.Without (reports P turn) := fun id member => by
  rcases List.mem_append.mp member with before | own
  · obtain ⟨p, _, reported⟩ := mem_reportsBefore.mp before
    exact h.without p id reported
  · exact h.without turn id own

theorem later (h : Orderly P turn) {turn' : Nat} (after : turn ≤ turn') : Orderly P turn' := by
  rcases Nat.eq_or_lt_of_le after with rfl | lt
  · exact h
  · refine ⟨fun p more => h.idle p (Nat.lt_trans lt more), h.without, fun t job prog busy => ?_⟩
    rw [h.idle turn' lt] at busy
    cases busy

/-- An event that concerns no other consumer than the one at work. -/
theorem next (h : Orderly P turn) (others : ∀ p, p ≠ turn → P'.procs p = P.procs p)
    (without : P'.shared.Without (reportsBefore P turn ++ (lists (P'.procs turn)).withheld))
    (careful : ∀ t job prog, P'.procs turn = .busy t job prog → Careful (reportsBefore P turn) prog P'.shared) :
    Orderly P' turn := by
  have before : reportsBefore P' turn = reportsBefore P turn := by
    refine List.flatMap_congr fun p member => ?_
    rw [others p (Nat.ne_of_lt (List.mem_range.mp member))]
  refine ⟨fun p more => (others p (Nat.ne_of_gt more)).trans (h.idle p more), fun p id reported => ?_, by rwa [before]⟩
  rcases Nat.lt_trichotomy p turn with lower | rfl | more
  · rw [others p (Nat.ne_of_lt lower)] at reported
    exact without id (List.mem_append_left _ (mem_reportsBefore.mpr ⟨p, lower, reported⟩))
  · exact without id (List.mem_append_right _ reported)
  · rw [others p (Nat.ne_of_gt more), h.idle p more] at reported
    cases reported

/-- An event of the consumer at work. -/
theorem own (h : Orderly P turn) {e : PoolEvent plant recheckers} (own : e.pid = some turn) (agrees : Agrees P e) :
    Orderly (P.next_ e) turn := by
  have start := h.without_reports
  cases e with
  | start p job =>
    obtain rfl : p = turn := Option.some.inj own
    cases found : P.procs p with
    | busy t job' prog => simp only [Pool.next_, found]; exact h
    | idle l =>
      simp only [Pool.next_, found]
      rw [reports, found] at start
      refine h.next (fun p' ne => Pool.setProc_ne P _ ne) ?_ fun t job' prog busy => ?_
      · rw [show (Pool.setProc P p _).procs p = _ from Pool.setProc_self P p _]
        exact start
      · rw [show (Pool.setProc P p _).procs p = _ from Pool.setProc_self P p _] at busy
        cases busy
        exact Careful.of_poll start
  | step p fate =>
    obtain rfl : p = turn := Option.some.inj own
    cases found : P.procs p with
    | idle l => simp only [Pool.next_, found]; exact h
    | busy t job prog =>
      have careful := h.careful _ _ _ found
      cases prog with
      | ret out =>
        obtain ⟨out, l⟩ := out
        simp only [Pool.next_, found]
        refine h.next (fun p' ne => Pool.setProc_ne P _ ne) ?_ fun t job' prog busy => ?_
        · rw [show (Pool.setProc P p _).procs p = _ from Pool.setProc_self P p _]
          exact careful
        · rw [show (Pool.setProc P p _).procs p = _ from Pool.setProc_self P p _] at busy
          cases busy
      | call c next =>
        simp only [Pool.next_, found]
        have after := careful.2 P.shared ⟨Plant.Quiet.refl _, le_refl _⟩ fate (by
          rintro rfl
          simp only [Agrees, found, reports] at agrees
          exact agrees)
        refine h.next (fun p' ne => Pool.setProc_ne P _ ne) ?_ fun t job' prog busy => ?_
        · rw [show (Pool.setProc P p _).procs p = _ from Pool.setProc_self P p _]
          exact after.without
        · rw [show (Pool.setProc P p _).procs p = _ from Pool.setProc_self P p _] at busy
          cases busy
          exact after
  | env c => cases own

theorem run (h : Orderly P turn) {events : List (PoolEvent plant recheckers)} (successive : Successive events)
    (after : ∀ p ∈ events.filterMap PoolEvent.pid, turn ≤ p) (agrees : Pool.Along Agrees P events) :
    ∀ pid, (P.run events).shared.Without (lists ((P.run events).procs pid)).withheld := by
  induction events generalizing P turn with
  | nil => exact h.without
  | cons e events ih =>
    cases here : e.pid with
    | none =>
      rw [Successive, List.filterMap_cons_none here] at successive
      rw [List.filterMap_cons_none here] at after
      cases e with
      | env c =>
        refine ih (P := P.next_ (.env c)) (h.next (fun _ _ => rfl) ?_ fun t job prog busy => ?_) successive after agrees.2
        · exact h.without_reports.later (Plant.later_drift c P.shared)
        · exact (h.careful t job prog busy).later (Plant.later_drift c P.shared)
      | start p job => cases here
      | step p fate => cases here
    | some p =>
      rw [Successive, List.filterMap_cons_some here, List.pairwise_cons] at successive
      rw [List.filterMap_cons_some here] at after
      exact ih ((h.later (after p List.mem_cons_self)).own here agrees.1) successive.2 successive.1 agrees.2

end Orderly

/-- The consumers have not begun. -/
def consumersAt (s : Plant) : Pool plant recheckers := Pool.init s fun _ => Consumer.init

/-- While every read of a record that was decided on before agrees with that decision, no intent that a consumer
reports as withheld has its effect. -/
theorem withheld_without_effect (s : Plant) {events : List (PoolEvent plant recheckers)} (successive : Successive events)
    (agrees : Pool.Along Agrees (consumersAt s) events) (pid : Nat) :
    ∀ id ∈ (lists (((consumersAt s).run events).procs pid)).withheld, id ∉ ((consumersAt s).run events).shared.effects := by
  have start : Orderly (consumersAt s) 0 :=
    ⟨fun _ _ => rfl, fun _ _ member => absurd member List.not_mem_nil, fun _ _ _ busy => nomatch busy⟩
  exact start.run successive (fun p _ => Nat.zero_le p) agrees pid

/-! ### A crash between the effect and the offset -/

/-- A commit of `i` at version 0 of the path `a`. -/
def guardedCommit : Members :=
  .cons "intent_id".toList (.str "i".toList) (.cons "read_set".toList (.arr (.cons (.str "a".toList) .nil))
    (.cons "read_set_version".toList (.int 0) (.cons "commit_version".toList (.int 1) .nil)))

/-- The first consumer stops after the effect and the second decides again, after these changes. -/
def crashedRecheck (changes : List PlantChange) : List (PoolEvent plant recheckers) :=
  .env (.append guardedCommit) :: .start 0 () :: List.replicate 5 (.step 0 .done) ++ (changes.map fun c => .env (show recheckers.Env from c)) ++
    .start 1 () :: List.replicate 7 (.step 1 .done)

theorem withheld_without_effect_crashedRecheck :
    "i".toList ∈ ((consumersAt (.init emptyView 0)).run (crashedRecheck [.tick 1])).shared.effects ∧
      "i".toList ∉ (lists (((consumersAt (.init emptyView 0)).run (crashedRecheck [.tick 1])).procs 1)).withheld := by
  have effect : "i".toList ∈ ((consumersAt (.init emptyView 0)).run (crashedRecheck [.tick 1])).shared.effects := by
    decide +kernel
  exact ⟨effect, fun reported =>
    withheld_without_effect (.init emptyView 0) (by decide +kernel) (by decide +kernel) 1 _ reported effect⟩

/-- Version 2 has changed the path. -/
def movedView : SnapshotDoc := ⟨⟨.nil, 2, Dict.empty.insert "a".toList 2⟩, .empty, true⟩

/-- The context has moved when the second consumer reads it: it reports an intent that had its effect. -/
theorem withheld_after_effect : ¬∀ (s : Plant) (events : List (PoolEvent plant recheckers)), Successive events →
    ∀ pid, ∀ id ∈ (lists (((consumersAt s).run events).procs pid)).withheld,
      id ∉ ((consumersAt s).run events).shared.effects := by
  intro always
  exact always (.init emptyView 0) (crashedRecheck [.show movedView]) (by decide +kernel) 1 "i".toList (by decide +kernel)
    (by decide +kernel)

end Xair
