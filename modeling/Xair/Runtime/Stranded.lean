import Xair.Runtime.Mandates

/-!
# Stranded locks

A lock is given back through the record of an authorized intent. Expiry keeps such a record, but it
lets the id be admitted again, and the new record takes the old one's place.
-/

namespace Xair

open Library

/-- The intent is authorized on this target. A stop takes no lock, but its report gives one back. -/
def Owns (rt : Runtime) (id target : Str) : Prop :=
  ∃ record, rt.records.get id = some record ∧ record.state = .authorized ∧ (rt.heap record.intent).target = target

/-- Every locked target is the target of an authorized record. -/
def Owned (rt : Runtime) : Prop := ∀ target ∈ rt.activeTargets, ∃ id, Owns rt id target

/-- An id whose retention window has passed is admitted again while its record is the only authorized
one on a locked target. -/
def Strands (cfg : Config) (op : Operation) (rt : Runtime) : Prop :=
  ∃ ref mono enqueue target, op = .admitIntent ref mono enqueue ∧
    (expireSeen cfg mono rt).seen.contains (rt.heap ref).id = false ∧ target ∈ rt.activeTargets ∧
    Owns rt (rt.heap ref).id target ∧ ∀ other, Owns rt other target → other = (rt.heap ref).id

/-! ### Frames -/

theorem Local.owns_iff {rt rt' : Runtime} {id other target : Str} (alone : Local id rt rt') (ne : other ≠ id) :
    Owns rt' other target ↔ Owns rt other target := by
  simp only [Owns, alone.others other ne, alone.targets]

theorem Noted.owns_iff {rt rt' : Runtime} (noted : Noted rt rt') {id target : Str} : Owns rt' id target ↔ Owns rt id target := by
  simp only [Owns, noted.records, noted.heap]

/-- A record with another state owns nothing. -/
theorem not_owns {rt : Runtime} {id target : Str} {record : IntentRecord} (found : rt.records.get id = some record)
    (state : record.state ≠ .authorized) : ¬Owns rt id target := by
  rintro ⟨record', found', authorized, _⟩
  obtain rfl := Option.some.inj (found.symm.trans found')
  exact state authorized

namespace Owned

variable {rt rt' : Runtime} {id : Str}

/-- An operation on a record that owns nothing may free locks, not take them. -/
theorem of_local (h : Owned rt) (alone : Local id rt rt') (none : ∀ target, ¬Owns rt id target)
    (locks : ∀ target ∈ rt'.activeTargets, target ∈ rt.activeTargets) : Owned rt' := by
  intro target locked
  obtain ⟨owner, owns⟩ := h target (locks target locked)
  have other : owner ≠ id := fun same => none target (same ▸ owns)
  exact ⟨owner, (alone.owns_iff other).mpr owns⟩

theorem of_noted (h : Owned rt) (noted : Noted rt rt') : Owned rt' := by
  intro target locked
  rw [noted.locks] at locked
  obtain ⟨owner, owns⟩ := h target locked
  exact ⟨owner, noted.owns_iff.mpr owns⟩

/-- A report frees the target of its own record. -/
theorem of_settled (h : Owned rt) {record a : IntentRecord} {state : IntentState} (settled : Settled id rt record state a rt')
    (locks : rt'.activeTargets = (rt.release (rt.heap record.intent).target).activeTargets) : Owned rt' := by
  intro target locked
  rw [locks, Runtime.mem_release] at locked
  obtain ⟨owner, owns⟩ := h target locked.2
  have other : owner ≠ id := by
    rintro rfl
    obtain ⟨record', found, _, same⟩ := owns
    obtain rfl := Option.some.inj (settled.found.symm.trans found)
    exact locked.1 same.symm
  exact ⟨owner, (settled.alone.owns_iff other).mpr owns⟩

end Owned

theorem Runtime.Open.not_owns {rt : Runtime} {id target : Str} (opened : rt.Open id) : ¬Owns rt id target := by
  rintro ⟨record, found, authorized, _⟩
  have validatable := opened record found
  rw [authorized] at validatable
  cases validatable

/-! ### Admission -/

section

variable {cfg : Config} {ref : Ref} {mono : ℚ} {rt rt' : Runtime}

/-- An admission registers the intent unless it finds the record of an id it remembers. -/
theorem ends_admitIntent_answer (cfg : Config) (ref : Ref) (mono : ℚ) (enqueue : Bool) (rt : Runtime) :
    Ends (admitIntent cfg ref mono enqueue) rt
      (fun a _ => a.1 = ((if (expireSeen cfg mono rt).seen.contains (rt.heap ref).id
        then (expireSeen cfg mono rt).records.get (rt.heap ref).id else none).getD (.fresh ref))) fun _ _ => False := by
  have expired : Expired rt (expireSeen cfg mono rt) := expired_expireItems _ _ _
  rw [admitIntent, ends_bind, ends_modify, ends_bind, ends_get]
  simp only [expired.heap]
  cases (if (expireSeen cfg mono rt).seen.contains (rt.heap ref).id
    then (expireSeen cfg mono rt).records.get (rt.heap ref).id else none) with
  | some record => exact ends_pure.mpr rfl
  | none =>
    simp only
    rw [ends_bind, ends_set, ends_pure]
    rfl

/-- Whoever owns a target after an admission has owned it before. -/
theorem Admission.owns (admission : Admission ref rt rt') {id target : Str} (owns : Owns rt' id target) :
    Owns rt id target := by
  obtain ⟨record, found, authorized, same⟩ := owns
  rcases admission.records id record found with before | ⟨_, rfl⟩
  · exact ⟨record, before, authorized, by rw [← same, admission.heap]⟩
  · cases authorized

/-- Only the owner that is admitted can be lost. -/
theorem Admission.owns_other (admission : Admission ref rt rt') {id target : Str} (owns : Owns rt id target)
    (other : id ≠ (rt.heap ref).id) : Owns rt' id target := by
  obtain ⟨record, found, authorized, same⟩ := owns
  refine ⟨record, ?_, authorized, by rw [admission.heap]; exact same⟩
  rcases admission.kept id record found with kept | settled | fresh
  · exact kept
  · rw [authorized] at settled
    cases settled
  · rcases admission.records id _ fresh with before | ⟨own, _⟩
    · rw [found] at before
      rw [Option.some.inj before] at authorized
      cases authorized
    · exact absurd own other

theorem owned_admitIntent (enqueue : Bool) (h : Owned rt) :
    Owned (finalState (admitIntent cfg ref mono enqueue) rt) ↔ ¬Strands cfg (.admitIntent ref mono enqueue) rt := by
  refine Ends.finalState (P := fun rt' => Owned rt' ↔ ¬Strands cfg (.admitIntent ref mono enqueue) rt)
    (((ends_admitIntent cfg ref mono enqueue rt).and (ends_admitIntent_answer cfg ref mono enqueue rt)).imp ?_ fun _ _ h => h.1.elim)
  rintro ⟨a, duplicate⟩ rt' ⟨⟨admission, stored, _⟩, answer⟩
  change rt'.records.get (rt.heap ref).id = some a at stored
  change a = _ at answer
  constructor
  · rintro owned ⟨_, _, _, target, same, unseen, locked, -, only⟩
    cases same
    rw [← admission.locks] at locked
    obtain ⟨owner, owns⟩ := owned target locked
    obtain rfl := only owner (admission.owns owns)
    rw [unseen, if_neg Bool.false_ne_true] at answer
    rw [answer] at stored
    exact not_owns stored nofun owns
  · intro keeps target locked
    rw [admission.locks] at locked
    by_cases others : ∃ other, Owns rt other target ∧ other ≠ (rt.heap ref).id
    · obtain ⟨other, owns, ne⟩ := others
      exact ⟨other, admission.owns_other owns ne⟩
    · have only : ∀ other, Owns rt other target → other = (rt.heap ref).id := fun other owns =>
        not_not.mp fun ne => others ⟨other, owns, ne⟩
      obtain ⟨owner, owns⟩ := h target locked
      obtain rfl := only owner owns
      cases seen : (expireSeen cfg mono rt).seen.contains (rt.heap ref).id with
      | false => exact absurd ⟨ref, mono, enqueue, target, rfl, seen, locked, owns, only⟩ keeps
      | true =>
        obtain ⟨record, found, authorized, same⟩ := owns
        have expired : Expired rt (expireSeen cfg mono rt) := expired_expireItems _ _ _
        have kept : (expireSeen cfg mono rt).records.get (rt.heap ref).id = some record := by
          refine (expired.kept _ record found).resolve_right fun settled => ?_
          rw [authorized] at settled
          cases settled
        rw [seen, if_pos rfl, kept] at answer
        rw [answer] at stored
        exact ⟨_, record, stored, authorized, by rw [admission.heap]; exact same⟩

end

/-! ### Operations -/

section

variable [PyText] {rt : Runtime}

theorem owned_processIntent (cfg : Config) (call : ProcessCall) (ref : Ref) (h : Owned rt) :
    Owned (finalState (processIntent cfg call ref) rt) := by
  refine Ends.finalState ((ends_processIntent cfg call rt ref).imp ?_ ?_)
  · rintro a rt' ⟨alone, verdict⟩
    cases verdict with
    | kept _ _ same => rw [same]; exact h
    | stopped opened _ _ _ _ locks => exact h.of_local alone (fun _ => opened.not_owns) fun target locked => locks ▸ locked
    | refused opened _ _ _ locks => exact h.of_local alone (fun _ => opened.not_owns) fun target locked => locks ▸ locked
    | authorized opened stored granted locks =>
      intro target locked
      rw [locks, Runtime.mem_acquire] at locked
      rcases locked with rfl | before
      · exact ⟨_, a, stored, granted.state, by rw [granted.intent, alone.targets]⟩
      · obtain ⟨owner, owns⟩ := h target before
        have other : owner ≠ (rt.heap ref).id := fun same => opened.not_owns (same ▸ owns)
        exact ⟨owner, (alone.owns_iff other).mpr owns⟩
  · rintro _ rt' ⟨alone, opened, _, locks⟩
    exact h.of_local alone (fun _ => opened.not_owns) fun target locked => locks ▸ locked

/-- Only such an admission strands a lock. -/
theorem owned_exec (cfg : Config) (op : Operation) (h : Owned rt) : Owned (op.exec cfg rt) ↔ ¬Strands cfg op rt := by
  have keeps : (∀ ref mono enqueue, op ≠ .admitIntent ref mono enqueue) → ¬Strands cfg op rt := by
    rintro other ⟨ref, mono, enqueue, _, same, _⟩
    exact other ref mono enqueue same
  cases op with
  | admitIntent ref mono enqueue => exact owned_admitIntent enqueue h
  | processIntent call ref => exact iff_of_true (owned_processIntent cfg call ref h) (keeps (fun _ _ _ h => by cases h))
  | processNext call =>
    refine iff_of_true ?_ (keeps (fun _ _ _ h => by cases h))
    cases queue : rt.queue with
    | nil =>
      rw [exec_next_nil cfg call queue]
      exact h
    | cons q rest =>
      rw [exec_next_cons cfg call queue]
      have dequeued : Owned { rt with queue := rest } := h
      exact owned_processIntent cfg call.next q.intent dequeued
  | recordCommit id committed reason seq =>
    refine iff_of_true (Ends.finalState ((ends_recordCommit rt id committed reason seq).imp ?_
      fun _ _ noted => h.of_noted noted)) (keeps (fun _ _ _ h => by cases h))
    rintro a rt' (⟨rfl, _⟩ | ⟨record, _, settled, locks⟩)
    · exact h
    · exact h.of_settled settled locks
  | reportRelease id released reason cv rv =>
    refine iff_of_true (Ends.finalState ((ends_reportRelease cfg rt id released reason cv rv).imp ?_
      fun _ _ noted => h.of_noted noted)) (keeps (fun _ _ _ h => by cases h))
    rintro a rt' (⟨rfl, _⟩ | ⟨record, _, _, _, _, settled, _, locks⟩)
    · exact h
    · exact h.of_settled settled locks
  | reportEffect id status detail =>
    refine iff_of_true (Ends.finalState ((ends_reportEffect rt id status detail).imp ?_
      fun _ _ noted => h.of_noted noted)) (keeps (fun _ _ _ h => by cases h))
    rintro a rt' (⟨rfl, _⟩ | ⟨record, settled, locks⟩)
    · exact h
    · refine h.of_local settled.alone (fun target => not_owns settled.found fun authorized => ?_) fun target locked => locks ▸ locked
      have allowed := settled.allowed
      rw [authorized] at allowed
      revert allowed
      cases status <;> decide
  | supervisoryRevoke id reason =>
    refine iff_of_true (Ends.finalState ((ends_supervisoryRevoke rt id reason).imp ?_ ?_)) (keeps (fun _ _ _ h => by cases h))
    · rintro a rt' ⟨record, settled, locks⟩
      exact h.of_settled settled locks
    · rintro _ rt' ⟨rfl, _⟩
      exact h
  | setPolicy policy => exact iff_of_true h (keeps (fun _ _ _ h => by cases h))
  | installContext snapshot version =>
    refine iff_of_true ?_ (keeps (fun _ _ _ h => by cases h))
    rw [Operation.exec, installContextSnapshot]
    split
    · exact h
    · exact h
  | setPreconditions ref preconditions =>
    have same : ∀ r, ((rt.putIntent ref { rt.heap ref with preconditions := preconditions }).heap r).target = (rt.heap r).target :=
      ((Local.refl (rt.heap ref).id rt).putIntent (by exact rfl) (by exact rfl) (by exact rfl)).targets
    refine iff_of_true (fun target locked => ?_) (keeps (fun _ _ _ h => by cases h))
    obtain ⟨owner, record, found, authorized, own⟩ := h target locked
    exact ⟨owner, record, found, authorized, (same record.intent).trans own⟩

/-! ### Runs -/

omit [PyText] in
theorem owned_init (heap : Ref → ActionIntent) (context : Members) (policy : Policy) : Owned (.init heap context policy) :=
  fun _ locked => absurd locked List.not_mem_nil

theorem owned_runAll_iff (cfg : Config) (ops : List Operation) (h : Owned rt) :
    (∀ n, Owned (runAll cfg (ops.take n) rt)) ↔ Along cfg (fun op rt => ¬Strands cfg op rt) ops rt := by
  induction ops generalizing rt with
  | nil => exact iff_of_true (fun n => by rw [List.take_nil]; exact h) trivial
  | cons op ops ih =>
    constructor
    · intro always
      have next : Owned (op.exec cfg rt) := always 1
      exact ⟨(owned_exec cfg op h).mp next, (ih next).mp fun n => always (n + 1)⟩
    · rintro ⟨keeps, along⟩ n
      have next : Owned (op.exec cfg rt) := (owned_exec cfg op h).mpr keeps
      cases n with
      | zero => exact h
      | succ n => exact (ih next).mpr along n

/-- Every target stays owned along a run exactly if no admission strands a lock. -/
theorem owned_along_run (cfg : Config) (heap : Ref → ActionIntent) (context : Members) (policy : Policy) (ops : List Operation) :
    (∀ n, Owned (runAll cfg (ops.take n) (.init heap context policy))) ↔
      Along cfg (fun op rt => ¬Strands cfg op rt) ops (.init heap context policy) :=
  owned_runAll_iff cfg ops (owned_init heap context policy)

end

/-- `a` is authorized at time 0, forgotten, and admitted again. -/
def admittedAgain : List Operation := [.admitIntent 0 0 false, .processIntent plainCall 0, .admitIntent 0 4000 false]

theorem admittedAgain_stranded :
    ¬∀ ops : List Operation, Owned (@runAll PyText.ascii plainConfig ops (plainRuntime threeIntents)) := by
  intro owned
  obtain ⟨id, record, found, authorized, _⟩ := owned admittedAgain "cell".toList (by decide +kernel)
  have states : (@runAll PyText.ascii plainConfig admittedAgain (plainRuntime threeIntents)).records.items.all
      (fun entry => decide (entry.2.state ≠ .authorized)) = true := by decide +kernel
  have other := List.all_eq_true.mp states (id, record) (Dict.mem_items.mpr found)
  exact of_decide_eq_true other authorized

end Xair
