import Xair.Release.Consumer

/-!
# Exactly once

Whatever consumers of one name do and wherever they crash, an intent has one effect
at most, and every authorizing record below the durable offset has had its effect.
-/

namespace Xair

open Library

/-! ### Any number of consumers -/

/-- The authorizing records below `k` have had their effects. -/
def Plant.Covers (k : Nat) (s : Plant) : Prop := k ≤ s.log.length ∧ ∀ id ∈ authorizedIds (s.log.take k), id ∈ s.effects

structure Plant.Inv (s : Plant) : Prop where
  distinct : (authorizedIds s.log).Nodup
  named : ∀ record ∈ s.log, authorizing record = true → ∃ id, recordId record = some id
  once : s.effects.Nodup
  justified : ∀ id ∈ s.effects, id ∈ authorizedIds s.log
  below : s.Covers (s.offset.getD 0)

/-- The log and the effects only grow. -/
def Plant.Grows (s s' : Plant) : Prop := s.log <+: s'.log ∧ s.effects <+: s'.effects

theorem Plant.Grows.refl (s : Plant) : s.Grows s := ⟨List.prefix_refl _, List.prefix_refl _⟩

theorem Plant.Grows.trans {s s' s'' : Plant} (first : s.Grows s') (second : s'.Grows s'') : s.Grows s'' :=
  ⟨first.1.trans second.1, first.2.trans second.2⟩

theorem take_of_initial {α : Type} {xs ys : List α} {k : Nat} (le : xs <+: ys) (inside : k ≤ xs.length) :
    ys.take k = xs.take k := by
  obtain ⟨more, rfl⟩ := le
  exact List.take_append_of_le_length inside

theorem Plant.Covers.grows {k : Nat} {s s' : Plant} (h : s.Covers k) (grows : s.Grows s') : s'.Covers k := by
  refine ⟨Nat.le_trans h.1 grows.1.length_le, fun id member => grows.2.subset (h.2 id ?_)⟩
  rwa [take_of_initial grows.1 h.1] at member

theorem getElem?_of_initial {α : Type} {xs ys : List α} {k : Nat} {x : α} (le : xs <+: ys) (here : xs[k]? = some x) :
    ys[k]? = some x := by
  obtain ⟨more, rfl⟩ := le
  rw [List.getElem?_append_left (List.getElem?_eq_some_iff.mp here).1, here]

theorem authorizedIds_singleton (record : Members) : authorizedIds [record] = (authorized record).toList := by
  cases found : authorized record <;> simp [authorizedIds, found]

/-- The records below the next position. -/
theorem authorizedIds_take_succ {log : List Members} {k : Nat} {record : Members} (here : log[k]? = some record) :
    authorizedIds (log.take (k + 1)) = authorizedIds (log.take k) ++ (authorized record).toList := by
  rw [List.take_add_one, here, Option.toList_some, authorizedIds_append, authorizedIds_singleton]

theorem authorized_of_not {record : Members} (not : authorizing record = false) : authorized record = none := by
  rw [authorized, if_neg (by rw [not]; decide)]

theorem mem_authorizedIds {log : List Members} {k : Nat} {record : Members} {id : Str} (here : log[k]? = some record)
    (authorizes : authorized record = some id) : id ∈ authorizedIds log :=
  List.mem_filterMap.mpr ⟨record, List.mem_of_getElem? here, authorizes⟩

theorem Plant.Covers.succ {k : Nat} {s : Plant} {record : Members} (h : s.Covers k) (here : s.log[k]? = some record)
    (done : ∀ id, authorized record = some id → id ∈ s.effects) : s.Covers (k + 1) := by
  refine ⟨(List.getElem?_eq_some_iff.mp here).1, fun id member => ?_⟩
  rw [authorizedIds_take_succ here, List.mem_append, Option.mem_toList] at member
  rcases member with old | new
  · exact h.2 id old
  · exact done id new

/-! ### What a poll needs of the plant -/

/-- A poll takes the plant from `Ready` at one position to `Ready` at the next, by way of `Done`. -/
structure Walk (D : Discipline plant Unit) (t : Nat) (Ready Done : Nat → Plant → Prop) : Prop where
  log : ∀ s s', D.Rely t s s' → s.log <+: s'.log
  ready_rely : ∀ k s s', Ready k s → D.Rely t s s' → Ready k s'
  done_rely : ∀ k s s', Done k s → D.Rely t s s' → Done k s'
  start : ∀ s, D.Inv s → Ready (s.offset.getD 0) s
  skip : ∀ k s record, D.Inv s → Ready k s → s.log[k]? = some record → authorizing record = false → Done k s
  effect : ∀ k s record id, D.Inv s → Ready k s → s.log[k]? = some record → authorized record = some id →
    let s' := (Plant.exec (.apply id) s).2
    D.Inv s' ∧ D.Step t () s s' ∧ s.log <+: s'.log ∧ Done k s'
  advance : ∀ k s, D.Inv s → Done k s →
    let s' := (Plant.exec (.kvSet (k + 1)) s).2
    D.Inv s' ∧ D.Step t () s s' ∧ Ready (k + 1) s'

namespace Walk

variable {D : Discipline plant Unit} {t : Nat} {Ready Done : Nat → Plant → Prop}

abbrev anyFate : plant.Command → plant.State → Fate → Prop := fun _ _ _ => True

/-- A command that reads. -/
theorem runs_read {c : ConsumerCommand} (reads : ∀ s, (Plant.exec c s).2 = s) {l : Consumer} {s : Plant}
    {ok : c.Reply → Consumer → Plant → Prop}
    (answered : ∀ s', D.Rely t s s' → D.Inv s' → ∀ s'', D.Rely t s' s'' → D.Inv s'' → ok (Plant.exec c s').1 l s'') :
    Method.Runs D t () anyFate (consume c) l s ok fun _ _ _ => True := by
  refine Method.runs_read (S := plant) (c := c) reads (fun s' rely inv _ => answered s' rely inv) ?_
  exact fun _ _ _ _ _ _ _ _ => trivial

theorem runs_kvSet (w : Walk D t Ready Done) {k : Nat} {l : Consumer} {s : Plant} {known : List Members}
    (done : Done k s) (le : known <+: s.log) :
    Method.Runs D t () anyFate (consume (.kvSet (k + 1))) l s (fun _ _ s' => Ready (k + 1) s' ∧ known <+: s'.log)
      fun _ _ _ => True := by
  refine Method.runs_command (S := plant) (c := ConsumerCommand.kvSet (k + 1)) (fun s' rely inv => ?_)
    (fun s' rely inv _ s'' later _ => ?_) (fun _ _ _ _ _ _ _ => trivial) fun _ _ _ _ _ _ _ _ => trivial
  · obtain ⟨after, step, _⟩ := w.advance k s' inv (w.done_rely k _ _ done rely)
    exact ⟨after, step⟩
  · have next := (w.advance k s' inv (w.done_rely k _ _ done rely)).2.2
    exact ⟨w.ready_rely _ _ _ next later, (le.trans (w.log _ _ rely)).trans (w.log (Plant.exec (.kvSet (k + 1)) s').2 s'' later)⟩

theorem runs_apply (w : Walk D t Ready Done) {k : Nat} {l : Consumer} {s : Plant} {known : List Members}
    {record : Members} {id : Str} (ready : Ready k s) (le : known <+: s.log) (here : known[k]? = some record)
    (authorizes : authorized record = some id) :
    Method.Runs D t () anyFate (consume (.apply id)) l s (fun _ _ s' => Done k s' ∧ known <+: s'.log)
      fun _ _ _ => True := by
  have effect : ∀ s', D.Rely t s s' → D.Inv s' → D.Inv (Plant.exec (.apply id) s').2 ∧
      D.Step t () s' (Plant.exec (.apply id) s').2 ∧ s'.log <+: (Plant.exec (.apply id) s').2.log ∧
      Done k (Plant.exec (.apply id) s').2 := fun s' rely inv =>
    w.effect k s' record id inv (w.ready_rely _ _ _ ready rely)
      (getElem?_of_initial (le.trans (w.log _ _ rely)) here) authorizes
  refine Method.runs_command (S := plant) (c := ConsumerCommand.apply id) (fun s' rely inv => ?_)
    (fun s' rely inv _ s'' later _ => ?_) (fun _ _ _ _ _ _ _ => trivial) fun _ _ _ _ _ _ _ _ => trivial
  · obtain ⟨after, step, _⟩ := effect s' rely inv
    exact ⟨after, step⟩
  · obtain ⟨_, _, kept, done⟩ := effect s' rely inv
    exact ⟨w.done_rely _ _ _ done later, ((le.trans (w.log _ _ rely)).trans kept).trans (w.log _ _ later)⟩

/-- One turn of the loop. -/
theorem runs_pollRecord (w : Walk D t Ready Done) {k : Nat} {l : Consumer} {s : Plant} {known : List Members}
    {record : Members} (inv : D.Inv s) (ready : Ready k s) (le : known <+: s.log) (here : known[k]? = some record) :
    Method.Runs D t () anyFate (pollRecord false k record) l s (fun _ _ s' => Ready (k + 1) s' ∧ known <+: s'.log)
      fun _ _ _ => True := by
  refine Method.runs_ite (fun authorizes => ?_) fun passes => ?_
  · cases named : recordId record with
    | none => exact Method.runs_throw fun _ _ _ => trivial
    | some id =>
      -- the two reads and the lists decide nothing without a recheck
      refine Method.runs_bind inv (runs_read (fun _ => rfl) fun s₁ rely₁ _ s₂ later₁ inv₂ _ => ?_)
      have rely₂ := D.rely_trans t _ _ _ rely₁ later₁
      refine Method.runs_bind inv₂ (runs_read (fun _ => rfl) fun s₃ rely₃ _ s₄ later₃ inv₄ _ => ?_)
      have rely₄ := D.rely_trans t _ _ _ rely₂ (D.rely_trans t _ _ _ rely₃ later₃)
      refine Method.runs_bind inv₄ (Method.runs_modify fun s₅ rely₅ inv₅ _ => ?_)
      have rely := D.rely_trans t _ _ _ rely₄ rely₅
      refine Method.runs_ite (fun rechecks => by simp at rechecks) fun _ => ?_
      refine Method.runs_bind inv₅ ?_
      refine (w.runs_apply (w.ready_rely _ _ _ ready rely) (le.trans (w.log _ _ rely)) here
        (authorized_eq authorizes named)).imp (fun performed l' s₆ inv₆ done _ => ?_) fun _ _ _ _ _ => trivial
      refine Method.runs_bind inv₆ (Method.runs_modify fun s₇ rely₇ _ _ => ?_)
      exact w.runs_kvSet (w.done_rely _ _ _ done.1 rely₇) (done.2.trans (w.log _ _ rely₇))
  · exact w.runs_kvSet (w.skip k s record inv ready (getElem?_of_initial le here) (by simpa using passes)) le

theorem runs_pollLoop (w : Walk D t Ready Done) {known : List Members} (records : List Members) {k : Nat} {l : Consumer}
    {s : Plant} (inv : D.Inv s) (ready : Ready k s) (le : known <+: s.log) (here : records = known.drop k) :
    Method.Runs D t () anyFate (pollLoop false k records) l s (fun _ _ _ => True) fun _ _ _ => True := by
  induction records generalizing k l s with
  | nil => exact Method.runs_pure fun _ _ _ => trivial
  | cons record rest ih =>
    have first : known[k]? = some record := by rw [← Nat.add_zero k, ← List.getElem?_drop, ← here]; rfl
    have others : rest = known.drop (k + 1) := by rw [← List.tail_drop, ← here]; rfl
    refine Method.runs_bind inv ((w.runs_pollRecord inv ready le first).imp (fun _ l' s' _ next inv' => ?_)
      fun _ _ _ _ _ => trivial)
    exact ih inv' next.1 next.2 others

/-- A poll keeps the discipline, wherever it ends. -/
theorem runs_poll (w : Walk D t Ready Done) {l : Consumer} {s : Plant} (inv : D.Inv s) :
    Method.Runs D t () anyFate (poll false) l s (fun _ _ _ => True) fun _ _ _ => True := by
  refine Method.runs_bind inv (runs_read (fun _ => rfl) fun s₁ rely₁ inv₁ s₂ later₁ inv₂ _ => ?_)
  have ready := w.start s₁ inv₁
  refine Method.runs_bind inv₂ (runs_read (fun _ => rfl) fun s₃ rely₃ inv₃ s₄ later₃ inv₄ _ => ?_)
  have ready₄ : Ready (s₁.offset.getD 0) s₄ :=
    w.ready_rely _ _ _ ready (D.rely_trans t _ _ _ later₁ (D.rely_trans t _ _ _ rely₃ later₃))
  refine Method.runs_bind inv₄ ((w.runs_pollLoop _ inv₄ ready₄ (w.log _ _ later₃) rfl).imp
    (fun _ _ s' _ _ _ => Method.runs_pure fun _ _ _ => trivial) fun _ _ _ _ _ => trivial)

end Walk

/-! ### In any interleaving -/

theorem Plant.Inv.apply {s : Plant} (h : s.Inv) {id : Str} (authorizes : id ∈ authorizedIds s.log) :
    (Plant.exec (.apply id) s).2.Inv ∧ s.Grows (Plant.exec (.apply id) s).2 ∧ id ∈ (Plant.exec (.apply id) s).2.effects := by
  simp only [Plant.exec]
  split
  · rename_i done
    exact ⟨h, Plant.Grows.refl s, done⟩
  · rename_i new
    have grows : s.Grows { s with effects := s.effects ++ [id] } := ⟨List.prefix_refl _, List.prefix_append _ _⟩
    refine ⟨⟨h.distinct, h.named, ?_, fun id' member => ?_, h.below.grows grows⟩, grows, by simp⟩
    · rw [List.nodup_append]
      exact ⟨h.once, by simp, fun a old b last => by rintro rfl; exact new (by simpa using List.mem_singleton.mp last ▸ old)⟩
    · rcases List.mem_append.mp member with old | last
      · exact h.justified id' old
      · rwa [List.mem_singleton.mp last]

theorem Plant.Inv.kvSet {s : Plant} (h : s.Inv) {k : Nat} (covers : s.Covers k) : (Plant.exec (.kvSet k) s).2.Inv :=
  ⟨h.distinct, h.named, h.once, h.justified, covers⟩

theorem not_mem_of_loggable {log : List Members} {record : Members} (loggable : Loggable log record) {id : Str}
    (authorizes : authorized record = some id) : id ∉ authorizedIds log := by
  unfold authorized at authorizes
  split at authorizes
  · rename_i yes
    obtain ⟨id', named, new⟩ := loggable yes
    rw [named] at authorizes
    cases authorizes
    exact new
  · cases authorizes

theorem Plant.Inv.change {s : Plant} (h : s.Inv) (c : PlantChange) : (Plant.change c s).Inv ∧ s.Grows (Plant.change c s) := by
  cases c with
  | append record =>
    simp only [Plant.change]
    split
    · rename_i loggable
      have grows : s.Grows { s with log := s.log ++ [record] } := ⟨List.prefix_append _ _, List.prefix_refl _⟩
      have ids : authorizedIds (s.log ++ [record]) = authorizedIds s.log ++ (authorized record).toList := by
        rw [authorizedIds_append, authorizedIds_singleton]
      refine ⟨⟨?_, fun r member authorizes => ?_, h.once, fun id member => ?_, h.below.grows grows⟩, grows⟩
      · simp only [ids]
        rw [List.nodup_append]
        refine ⟨h.distinct, by cases authorized record <;> simp, fun id old id' last => ?_⟩
        rintro rfl
        exact not_mem_of_loggable loggable (Option.mem_toList.mp last) old
      · rcases List.mem_append.mp member with old | last
        · exact h.named r old authorizes
        · obtain rfl := List.mem_singleton.mp last
          obtain ⟨id, named, _⟩ := loggable authorizes
          exact ⟨id, named⟩
      · simp only [ids]
        exact List.mem_append_left _ (h.justified id member)
    · exact ⟨h, Plant.Grows.refl s⟩
  | «show» view => exact ⟨⟨h.distinct, h.named, h.once, h.justified, h.below⟩, Plant.Grows.refl s⟩
  | tick clock => exact ⟨⟨h.distinct, h.named, h.once, h.justified, h.below⟩, Plant.Grows.refl s⟩

/-- What the consumers may do to each other. -/
def growth : Discipline plant Unit where
  Inv := Plant.Inv
  Step _ _ := Plant.Grows
  Rely _ := Plant.Grows
  step_refl _ _ := Plant.Grows.refl
  rely_refl _ := Plant.Grows.refl
  rely_trans _ _ _ _ := Plant.Grows.trans
  rely_of_step _ _ _ _ _ _ step := step

theorem walk_growth (t : Nat) : Walk growth t Plant.Covers fun k => Plant.Covers (k + 1) where
  log _ _ grows := grows.1
  ready_rely _ _ _ covers grows := covers.grows grows
  done_rely _ _ _ covers grows := covers.grows grows
  start _ inv := inv.below
  skip _ _ _ _ covers here passes := covers.succ here fun id authorizes => by
    rw [authorized_of_not passes] at authorizes
    cases authorizes
  effect k s record id inv covers here authorizes := by
    obtain ⟨after, grows, done⟩ := inv.apply (mem_authorizedIds here authorizes)
    refine ⟨after, grows, grows.1, (covers.grows grows).succ (getElem?_of_initial grows.1 here) fun id' also => ?_⟩
    rw [authorizes] at also
    cases also
    exact done
  advance _ s inv covers := ⟨inv.kvSet covers, ⟨List.prefix_refl _, List.prefix_refl _⟩, covers⟩

/-- Consumers may start at any time and may crash at any command. -/
def crowd : Contract plant consumers growth where
  Starts _ := True
  May _ _ _ _ _ := True
  LocalOk _ _ := True
  Fresh _ _ := True
  Since _ _ _ := True
  Post _ _ _ _ := True
  local_rely _ _ _ _ _ _ _ _ := trivial
  fresh_rely _ _ _ _ _ := trivial
  since_fresh _ _ _ _ := trivial
  since_step _ _ _ _ _ _ := trivial
  since_rely _ _ _ _ _ _ := trivial
  env_inv c _ inv := (inv.change c).1
  env_rely c _ _ inv := (inv.change c).2

/-! ### One after the other -/

/-- The effects are those of the records below the offset, with or without that of the record at the offset. -/
def Plant.Level (s : Plant) : Prop :=
  s.effects = authorizedIds (s.log.take (s.offset.getD 0)) ∨ s.effects = authorizedIds (s.log.take (s.offset.getD 0 + 1))

/-- The log grows and the consumer's own writes stand. -/
def Plant.Quiet (s s' : Plant) : Prop := s.log <+: s'.log ∧ s'.offset = s.offset ∧ s'.effects = s.effects

theorem Plant.Quiet.refl (s : Plant) : s.Quiet s := ⟨List.prefix_refl _, rfl, rfl⟩

theorem Plant.Quiet.trans (s s' s'' : Plant) (first : s.Quiet s') (second : s'.Quiet s'') : s.Quiet s'' :=
  ⟨first.1.trans second.1, second.2.1.trans first.2.1, second.2.2.trans first.2.2⟩

/-- The invariant of consumers that run one after the other. -/
def Plant.Exact (s : Plant) : Prop := s.Inv ∧ s.Level

theorem Plant.Level.quiet {s s' : Plant} (h : s.Level) (inside : s.offset.getD 0 ≤ s.log.length) (quiet : s.Quiet s') :
    s'.Level := by
  obtain ⟨grows, offset, effects⟩ := quiet
  unfold Plant.Level
  rw [offset, effects]
  rcases Nat.eq_or_lt_of_le inside with top | lower
  · -- the offset is at the end of the log, where the two sides agree
    left
    have below : s.effects = authorizedIds s.log := by
      rcases h with same | same <;> rw [same, List.take_of_length_le (by omega)]
    rw [below, take_of_initial grows inside, List.take_of_length_le (Nat.le_of_eq top.symm)]
  · rw [take_of_initial grows inside, take_of_initial grows (Nat.succ_le_of_lt lower)]
    exact h

theorem Plant.quiet_change (c : PlantChange) (s : Plant) : s.Quiet (Plant.change c s) := by
  cases c with
  | append record =>
    simp only [Plant.change]
    split
    · exact ⟨List.prefix_append _ _, rfl, rfl⟩
    · exact Plant.Quiet.refl s
  | «show» view => exact ⟨List.prefix_refl _, rfl, rfl⟩
  | tick clock => exact ⟨List.prefix_refl _, rfl, rfl⟩

theorem Plant.Exact.change {s : Plant} (h : s.Exact) (c : PlantChange) : (Plant.change c s).Exact :=
  ⟨(h.1.change c).1, h.2.quiet h.1.below.1 (Plant.quiet_change c s)⟩

/-- The record at the offset has had its effect. -/
def Plant.AtEffect (k : Nat) (s : Plant) : Prop :=
  s.offset.getD 0 = k ∧ k < s.log.length ∧ s.effects = authorizedIds (s.log.take (k + 1))

/-- The effect of the record at the offset is performed if it was not. -/
theorem Plant.Exact.apply {k : Nat} {s : Plant} {record : Members} {id : Str} (h : s.Exact) (at_ : s.offset.getD 0 = k)
    (here : s.log[k]? = some record) (authorizes : authorized record = some id) :
    (Plant.exec (.apply id) s).2.effects = authorizedIds (s.log.take (k + 1)) := by
  have next := authorizedIds_take_succ here
  rw [authorizes, Option.toList_some] at next
  obtain ⟨inv, level⟩ := h
  rw [Plant.Level, at_] at level
  have new : id ∉ authorizedIds (s.log.take k) := by
    have distinct : (authorizedIds (s.log.take (k + 1))).Nodup :=
      inv.distinct.sublist ((List.take_sublist (k + 1) s.log).filterMap authorized)
    rw [next, List.nodup_append] at distinct
    exact fun old => distinct.2.2 id old id List.mem_cons_self rfl
  simp only [Plant.exec]
  rcases level with below | at'
  · rw [if_neg (by rw [below]; exact new), next, below]
  · rw [if_pos (by rw [at', next]; simp), at']

theorem walk_alone (t : Nat) : Walk (alone Unit Plant.Exact Plant.Quiet Plant.Quiet.refl Plant.Quiet.trans t) t
    (fun k s => s.offset.getD 0 = k) Plant.AtEffect where
  log _ _ quiet := (quiet rfl).1
  ready_rely _ _ _ at_ quiet := by rw [(quiet rfl).2.1]; exact at_
  done_rely k s s' done quiet := by
    obtain ⟨grows, offset, effects⟩ := quiet rfl
    refine ⟨by rw [offset]; exact done.1, Nat.lt_of_lt_of_le done.2.1 grows.length_le, ?_⟩
    rw [effects, take_of_initial grows done.2.1]
    exact done.2.2
  start _ _ := rfl
  skip k s record inv at_ here passes := by
    have same : authorizedIds (s.log.take (k + 1)) = authorizedIds (s.log.take k) := by
      rw [authorizedIds_take_succ here, authorized_of_not passes, Option.toList_none, List.append_nil]
    refine ⟨at_, (List.getElem?_eq_some_iff.mp here).1, ?_⟩
    have level := inv.2
    rw [Plant.Level, at_, same, or_self] at level
    rw [same, level]
  effect k s record id inv at_ here authorizes := by
    obtain ⟨after, grows, _⟩ := inv.1.apply (mem_authorizedIds here authorizes)
    have effects := inv.apply at_ here authorizes
    have offset : (Plant.exec (.apply id) s).2.offset = s.offset := by simp only [Plant.exec]; split <;> rfl
    have log : (Plant.exec (.apply id) s).2.log = s.log := by simp only [Plant.exec]; split <;> rfl
    refine ⟨⟨after, Or.inr ?_⟩, Or.inl rfl, grows.1, ?_, ?_, ?_⟩
    · rw [effects, offset, log, at_]
    · rw [offset, at_]
    · rw [log]
      exact (List.getElem?_eq_some_iff.mp here).1
    · rw [log, effects]
  advance k s inv done := by
    obtain ⟨at_, inside, effects⟩ := done
    have covers : s.Covers (k + 1) := ⟨inside, fun id member => by rw [effects]; exact member⟩
    exact ⟨⟨inv.1.kvSet covers, Or.inl effects⟩, Or.inl rfl, rfl⟩

/-! ### Every run -/

theorem Plant.inv_init (view : SnapshotDoc) (clock : ℚ) : (Plant.init view clock).Inv where
  distinct := List.nodup_nil
  named _ member := absurd member List.not_mem_nil
  once := List.nodup_nil
  justified _ member := absurd member List.not_mem_nil
  below := ⟨Nat.zero_le _, fun _ member => absurd member List.not_mem_nil⟩

/-- The plant after a run of consumers of one name. -/
def Plant.after (view : SnapshotDoc) (clock : ℚ) (events : List (PoolEvent plant consumers)) : Plant :=
  ((Pool.init (Plant.init view clock) fun _ => Consumer.init : Pool plant consumers).run events).shared

theorem safe_growth (t : Nat) (job : Unit) (l : Consumer) (s : Plant) (inv : s.Inv) :
    Safe growth t job (crowd.May t job) (consumers.code job t l) s (Pool.Ended crowd t job) :=
  Safe.imp ((walk_growth t).runs_poll inv) fun _ _ _ _ => ⟨trivial, trivial⟩

theorem safe_alone (t : Nat) (job : Unit) (l : Consumer) (s : Plant) (h : s.Exact) :
    Safe (alone Unit Plant.Exact Plant.Quiet Plant.Quiet.refl Plant.Quiet.trans t) t job (fun _ _ _ => True)
      (consumers.code job t l) s fun _ _ => True :=
  Safe.imp ((walk_alone t).runs_poll h) fun _ _ _ _ => trivial

theorem Plant.inv_after (view : SnapshotDoc) (clock : ℚ) (events : List (PoolEvent plant consumers)) :
    (Plant.after view clock events).Inv := by
  have start : Pool.Sound crowd (Pool.init (Plant.init view clock) fun _ => Consumer.init : Pool plant consumers) :=
    Pool.sound_init (Plant.inv_init view clock) (fun _ => trivial) fun _ => trivial
  refine (start.run (fun t job l s _ inv _ _ => safe_growth t job l s inv) (Pool.along_of_forall fun e _ P => ?_)).inv
  cases e with
  | start pid job => trivial
  | step pid fate => exact fun _ _ _ _ _ => trivial
  | env c => trivial

theorem Plant.exact_after (view : SnapshotDoc) (clock : ℚ) {events : List (PoolEvent plant consumers)}
    (successive : Successive events) : (Plant.after view clock events).Exact :=
  Pool.inv_run_successive ⟨Plant.inv_init view clock, Or.inl rfl⟩ safe_alone
    (fun c s h => ⟨h.change c, Plant.quiet_change c s⟩) successive

/-- In every run effects are performed once and none is missing below the offset; consumers that run one
after the other perform them in the order of the log. -/
theorem effects_once :
    (∀ view clock events, (Plant.after view clock events).Inv) ∧
      ∀ view clock events, Successive events → (Plant.after view clock events).Level :=
  ⟨Plant.inv_after, fun view clock _ successive => (Plant.exact_after view clock successive).2⟩

/-! ### A crash between the effect and the offset -/

/-- What the log keeps of a granted commit. -/
def loggedCommit : Members :=
  .cons "intent_id".toList (.str "i".toList) (.cons "commit_version".toList (.int 1) .nil)

/-- The first consumer stops after the effect, the second begins anew. -/
def crashedConsumer : List (PoolEvent plant consumers) :=
  .env (.append loggedCommit) :: .start 0 () :: List.replicate 5 (.step 0 .done) ++
    .start 1 () :: List.replicate 7 (.step 1 .done)

def emptyView : SnapshotDoc := ⟨⟨.nil, 0, .empty⟩, .empty, true⟩

theorem effects_once_crashedConsumer :
    (Plant.after emptyView 0 crashedConsumer).Level ∧ (Plant.after emptyView 0 crashedConsumer).effects = ["i".toList] ∧
      (Plant.after emptyView 0 crashedConsumer).offset = some 1 :=
  ⟨effects_once.2 _ _ crashedConsumer (by decide +kernel), by decide +kernel⟩

end Xair
