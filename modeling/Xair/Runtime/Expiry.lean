import Xair.Runtime.Mandates
import Xair.Runtime.Writes
import Mathlib.Algebra.Order.Ring.Rat
import Mathlib.Tactic.Linarith

/-!
# The idempotency window

The seen-table is in the order of admission, so `_expire_seen` may stop at the first entry
that is young enough. Every call that reads the monotonic clock carries its readings.
-/

namespace Xair

open Library

/-! ### The calls -/

/-- `admitIntent` with its two readings: the one that `_expire_seen` makes, and the one that the new entry is stamped with. -/
def admitTimed (cfg : Config) (ref : Ref) (checked stamped : ℚ) (enqueue : Bool) : RuntimeM (IntentRecord × Bool) := do
  modify (expireSeen cfg checked)
  let rt ← get
  let id := (rt.heap ref).id
  match if rt.seen.contains id then rt.records.get id else none with
  | some record => return (record, true)
  | none =>
    let rt := { rt with seen := rt.seen.insert id stamped }
    let rt := (rt.count fun m => { m with intentsReceived := m.intentsReceived + 1 }).register ref
    set (if enqueue then rt.submit ref else rt)
    return (.fresh ref, false)

theorem admitTimed_same (cfg : Config) (ref : Ref) (mono : ℚ) (enqueue : Bool) :
    admitTimed cfg ref mono mono enqueue = admitIntent cfg ref mono enqueue := rfl

/-- `is_duplicate`. -/
def isDuplicate (cfg : Config) (id : Str) (checked : ℚ) : RuntimeM Bool := do
  modify (expireSeen cfg checked)
  return (← get).seen.contains id

/-- The operation is an admission. -/
def Operation.admits : Operation → Bool
  | admitIntent _ _ _ => true
  | _ => false

inductive TimedCall where
  | admission (ref : Ref) (checked stamped : ℚ) (enqueue : Bool)
  | isDuplicate (id : Str) (checked : ℚ)
  | prepare (ref : Ref)
  | updateContext (patch : Members)
  | mergeContext (snapshot : Members) (version : Nat)
  | operation (op : Operation) (other : op.admits = false)

/-- An admission that was no duplicate: its reading, and where the audit trail has the registration of its record. -/
structure Admittance where
  id : Str
  time : ℚ
  entry : Nat
  deriving DecidableEq

/-- A runtime, the last reading of its clock, and the admissions so far. -/
structure Clocked where
  runtime : Runtime
  now : ℚ
  admissions : List Admittance

/-- No call before this reading. -/
def Clocked.init (heap : Ref → ActionIntent) (context : Members) (policy : Policy) (now : ℚ) : Clocked :=
  ⟨.init heap context policy, now, []⟩

namespace Clocked

variable [PyText] (cfg : Config)

def exec (c : Clocked) : TimedCall → Clocked
  | .admission ref checked stamped enqueue =>
    match (admitTimed cfg ref checked stamped enqueue).run c.runtime with
    | .ok (_, true) rt => { c with runtime := rt, now := checked }
    | .ok (_, false) rt =>
      { runtime := rt, now := stamped, admissions := c.admissions ++ [⟨(c.runtime.heap ref).id, stamped, c.runtime.audit.length⟩] }
    | .error _ rt => { c with runtime := rt, now := checked }
  | .isDuplicate id checked => { c with runtime := finalState (Xair.isDuplicate cfg id checked) c.runtime, now := checked }
  | .prepare ref => { c with runtime := finalState (Xair.prepare ref) c.runtime }
  | .updateContext patch => { c with runtime := Xair.updateContext patch c.runtime }
  | .mergeContext snapshot version => { c with runtime := mergeContextSnapshot snapshot version c.runtime }
  | .operation op _ => { c with runtime := op.exec cfg c.runtime }

def run (c : Clocked) (calls : List TimedCall) : Clocked := calls.foldl (exec cfg) c

/-- Every call of the run is made in a state with `ok`. -/
def Along (ok : Clocked → TimedCall → Prop) : Clocked → List TimedCall → Prop
  | _, [] => True
  | c, call :: calls => ok c call ∧ Along ok (c.exec cfg call) calls

/-- The clock does not run backwards. -/
def Forward (c : Clocked) : TimedCall → Prop
  | .admission _ checked stamped _ => c.now ≤ checked ∧ checked ≤ stamped
  | .isDuplicate _ checked => c.now ≤ checked
  | _ => True

end Clocked

/-! ### What other calls leave alone -/

/-- The seen-table stays, and a record that is there stays there, without being registered again. -/
structure Remains (id : Str) (rt rt' : Runtime) : Prop where
  seen : rt'.seen = rt.seen
  record : (rt.records.get id).isSome = true → (rt'.records.get id).isSome = true ∧
    ∃ more, rt'.audit = rt.audit ++ more ∧ .registration id ∉ more

instance (id : Str) : IsPreorder Runtime (Remains id) where
  refl _ := ⟨rfl, fun there => ⟨there, [], (List.append_nil _).symm, List.not_mem_nil⟩⟩
  trans rt rt' rt'' := by
    intro first second
    refine ⟨second.seen.trans first.seen, fun there => ?_⟩
    obtain ⟨there', more, audit, fresh⟩ := first.record there
    obtain ⟨there'', more', audit', fresh'⟩ := second.record there'
    refine ⟨there'', more ++ more', by rw [audit', audit, List.append_assoc], fun member => ?_⟩
    rcases List.mem_append.mp member with early | late
    · exact fresh early
    · exact fresh' late

/-- Nothing about records and audit trail changes. -/
theorem remains_aside {id : Str} {rt rt' : Runtime} (records : rt'.records = rt.records) (audit : rt'.audit = rt.audit)
    (seen : rt'.seen = rt.seen) : Remains id rt rt' :=
  ⟨seen, fun there => ⟨by rw [records]; exact there, [], by rw [audit, List.append_nil], List.not_mem_nil⟩⟩

theorem isSome_insert {d : Dict Str IntentRecord} {id other : Str} {record : IntentRecord} (there : (d.get id).isSome = true) :
    ((d.insert other record).get id).isSome = true := by
  rw [Dict.get_insert]
  split
  · rfl
  · exact there

section

variable [PyText]

theorem writes_remains (id : Str) : Writes (Remains id) where
  aside _ _ _ records audit seen := remains_aside records audit seen
  moved _ other _ state outcome reason _ allowed :=
    ⟨rfl, fun there => ⟨isSome_insert there, [⟨other, state, outcome, reason⟩], rfl, fun member =>
      (IntentState.ne_self_of_allowed allowed).2 (congrArg AuditEntry.state (List.mem_singleton.mp member)).symm⟩⟩
  assigned _ _ _ _ _ := ⟨rfl, fun there => ⟨isSome_insert there, [], (List.append_nil _).symm, List.not_mem_nil⟩⟩
  noted _ other record reason _ :=
    ⟨rfl, fun there => ⟨there, [⟨other, record.state, none, "rejected_report:".toList ++ reason⟩], rfl, fun member =>
      nomatch congrArg AuditEntry.reason (List.mem_singleton.mp member)⟩⟩
  revised _ _ _ _ := remains_aside rfl rfl rfl

omit [PyText] in
theorem remains_register (id : Str) (rt : Runtime) (ref : Ref) (absent : rt.records.get (rt.heap ref).id = none) :
    Remains id rt (rt.register ref) := by
  refine ⟨rfl, fun there => ⟨isSome_insert there, [.registration (rt.heap ref).id], rfl, fun member => ?_⟩⟩
  obtain rfl : id = (rt.heap ref).id := congrArg AuditEntry.intentId (List.mem_singleton.mp member)
  rw [absent] at there
  cases there

/-- An operation that is no admission. -/
theorem remains_exec (cfg : Config) (id : Str) (rt : Runtime) {op : Operation} (other : op.admits = false) :
    Remains id rt (op.exec cfg rt) := by
  have w := writes_remains id
  cases op with
  | admitIntent ref mono enqueue => cases other
  | processIntent call ref => exact (w.processIntent (remains_register id) cfg call ref).finalState rt
  | processNext call => exact (w.processNext (remains_register id) cfg call).finalState rt
  | recordCommit id committed reason seq => exact (w.recordCommit id committed reason seq).finalState rt
  | reportRelease id released reason cv rv => exact (w.reportRelease cfg id released reason cv rv).finalState rt
  | reportEffect id status detail => exact (w.reportEffect id status detail).finalState rt
  | supervisoryRevoke id reason => exact (w.supervisoryRevoke id reason).finalState rt
  | setPolicy policy => exact remains_aside rfl rfl rfl
  | installContext snapshot version =>
    rw [Operation.exec, installContextSnapshot]
    split
    · exact Std.Refl.refl rt
    · exact remains_aside rfl rfl rfl
  | setPreconditions ref preconditions => exact remains_aside rfl rfl rfl

end

/-! ### One call of `_expire_seen` -/

/-- On a table in the order of admission exactly the entries below the horizon go. -/
theorem items_expireItems {horizon : ℚ} {items : List (Str × ℚ)} {rt : Runtime} (its : rt.seen.items = items)
    (sorted : items.Pairwise fun a b => a.2 ≤ b.2) :
    (expireItems horizon items rt).seen.items = items.filter fun item => decide (horizon ≤ item.2) := by
  induction items generalizing rt with
  | nil => exact its
  | cons item rest ih =>
    obtain ⟨id, admittedAt⟩ := item
    obtain ⟨first, sorted'⟩ := List.pairwise_cons.mp sorted
    simp only [expireItems]
    by_cases young : horizon ≤ admittedAt
    · rw [if_pos young, its, List.filter_eq_self.mpr]
      intro item member
      rcases List.mem_cons.mp member with rfl | later
      · exact decide_eq_true young
      · exact decide_eq_true (le_trans young (first item later))
    · rw [if_neg young, List.filter_cons_of_neg (by simpa using young)]
      have erased : (rt.seen.erase id).items = rest := Dict.items_erase_first its
      split
      · exact ih erased sorted'
      · exact ih erased sorted'

theorem audit_expireSeen (cfg : Config) (checked : ℚ) (rt : Runtime) : (expireSeen cfg checked rt).audit = rt.audit :=
  (expired_expireItems _ _ _).audit

section

variable {cfg : Config} {checked : ℚ} {rt : Runtime} (sorted : rt.seen.items.Pairwise fun a b => a.2 ≤ b.2)

include sorted

theorem get_expireSeen {id : Str} {time : ℚ} : (expireSeen cfg checked rt).seen.get id = some time ↔
    rt.seen.get id = some time ∧ checked - cfg.idempotencyRetentionS ≤ time := by
  rw [← Dict.mem_items, ← Dict.mem_items, expireSeen, items_expireItems rfl sorted, List.mem_filter, decide_eq_true_eq]

theorem sorted_expireSeen : (expireSeen cfg checked rt).seen.items.Pairwise fun a b => a.2 ≤ b.2 := by
  rw [expireSeen, items_expireItems rfl sorted]
  exact sorted.filter _

/-- An entry that stays keeps its record. -/
theorem records_expireSeen {id : Str} {time : ℚ} (stays : (expireSeen cfg checked rt).seen.get id = some time) :
    (expireSeen cfg checked rt).records.get id = rt.records.get id := by
  obtain ⟨seen, young⟩ := (get_expireSeen sorted).mp stays
  refine (expireItems_young (fun time' member => ?_) rt).2
  rw [Dict.mem_items, seen] at member
  rwa [← Option.some.inj member]

end

/-- The last registration of the id in the audit trail. -/
def Runtime.LastRegistered (rt : Runtime) (id : Str) (entry : Nat) : Prop :=
  ∃ before after, rt.audit = before ++ .registration id :: after ∧ before.length = entry ∧ .registration id ∉ after

theorem Runtime.LastRegistered.append {rt rt' : Runtime} {id : Str} {entry : Nat} (h : rt.LastRegistered id entry)
    {more : List AuditEntry} (audit : rt'.audit = rt.audit ++ more) (fresh : .registration id ∉ more) : rt'.LastRegistered id entry := by
  obtain ⟨before, after, trail, place, last⟩ := h
  refine ⟨before, after ++ more, by rw [audit, trail]; simp, place, fun member => ?_⟩
  rcases List.mem_append.mp member with early | late
  · exact last early
  · exact fresh late

theorem Runtime.LastRegistered.congr {rt rt' : Runtime} {id : Str} {entry : Nat} (h : rt.LastRegistered id entry)
    (audit : rt'.audit = rt.audit) : rt'.LastRegistered id entry :=
  h.append (by rw [audit, List.append_nil]) List.not_mem_nil

/-- How an admission ends: it finds its id in the table, with a record, or enters it anew. -/
theorem ends_admitTimed (cfg : Config) (ref : Ref) (checked stamped : ℚ) (enqueue : Bool) (rt : Runtime) :
    Ends (admitTimed cfg ref checked stamped enqueue) rt
      (fun a rt' =>
        (a.2 = true ∧ (expireSeen cfg checked rt).seen.contains (rt.heap ref).id = true ∧
          (expireSeen cfg checked rt).records.get (rt.heap ref).id = some a.1 ∧ rt' = expireSeen cfg checked rt) ∨
        (a.2 = false ∧ ((expireSeen cfg checked rt).seen.contains (rt.heap ref).id = true →
            (expireSeen cfg checked rt).records.get (rt.heap ref).id = none) ∧
          rt'.seen = (expireSeen cfg checked rt).seen.insert (rt.heap ref).id stamped ∧
          rt'.records = (expireSeen cfg checked rt).records.insert (rt.heap ref).id (.fresh ref) ∧
          rt'.audit = rt.audit ++ [.registration (rt.heap ref).id]))
      fun _ _ => False := by
  have expired : Expired rt (expireSeen cfg checked rt) := expired_expireItems _ _ _
  have own : ((expireSeen cfg checked rt).heap ref).id = (rt.heap ref).id := by rw [expired.heap]
  rw [admitTimed, ends_bind, ends_modify, ends_bind, ends_get, ← own, ← expired.audit]
  generalize expireSeen cfg checked rt = rt₁
  cases found : if rt₁.seen.contains (rt₁.heap ref).id then rt₁.records.get (rt₁.heap ref).id else none with
  | some record =>
    simp only [found]
    split at found
    · rename_i seen
      exact ends_pure.mpr (Or.inl ⟨rfl, seen, found, rfl⟩)
    · cases found
  | none =>
    simp only [found]
    rw [ends_bind, ends_set, ends_pure]
    refine Or.inr ⟨rfl, fun seen => by rwa [if_pos seen] at found, ?_⟩
    cases enqueue with
    | true => exact ⟨rfl, rfl, rfl⟩
    | false => exact ⟨rfl, rfl, rfl⟩

/-! ### The invariant -/

namespace Clocked

variable (cfg : Config)

/-- The seen-table is in the order of admission, holds admissions only and all those within the window, and the record
of an entry is the one that its admission registered. -/
structure Inv (c : Clocked) : Prop where
  sorted : c.runtime.seen.items.Pairwise fun a b => a.2 ≤ b.2
  past : ∀ id time, c.runtime.seen.get id = some time → time ≤ c.now
  admitted : ∀ id time, c.runtime.seen.get id = some time → ∃ a ∈ c.admissions, a.id = id ∧ a.time = time ∧
    c.runtime.LastRegistered id a.entry ∧ (c.runtime.records.get id).isSome = true
  kept : ∀ a ∈ c.admissions, c.now - cfg.idempotencyRetentionS ≤ a.time → c.runtime.seen.get a.id = some a.time

theorem inv_init (heap : Ref → ActionIntent) (context : Members) (policy : Policy) (now : ℚ) :
    (init heap context policy now).Inv cfg :=
  ⟨List.Pairwise.nil, (fun _ _ none => nomatch none), (fun _ _ none => nomatch none), (fun _ none => nomatch none)⟩

variable {cfg} {c : Clocked}

theorem Inv.remains (inv : c.Inv cfg) {rt : Runtime} (remains : ∀ id, Remains id c.runtime rt) : ({ c with runtime := rt } : Clocked).Inv cfg := by
  have seen : rt.seen = c.runtime.seen := (remains []).seen
  refine ⟨by rw [seen]; exact inv.sorted, fun id time held => inv.past id time (by rw [← seen]; exact held), fun id time held => ?_,
    fun a member young => by rw [seen]; exact inv.kept a member young⟩
  rw [seen] at held
  obtain ⟨a, member, own, its, registered, there⟩ := inv.admitted id time held
  obtain ⟨there', more, audit, fresh⟩ := (remains id).record there
  exact ⟨a, member, own, its, registered.append audit fresh, there'⟩

/-- After `_expire_seen` the table holds exactly the admissions within the window. -/
theorem Inv.expired (inv : c.Inv cfg) {checked : ℚ} (forward : c.now ≤ checked) :
    ({ c with runtime := expireSeen cfg checked c.runtime, now := checked } : Clocked).Inv cfg := by
  refine ⟨sorted_expireSeen inv.sorted, fun id time held => ?_, fun id time held => ?_, fun a member young => ?_⟩
  · exact le_trans (inv.past id time ((get_expireSeen inv.sorted).mp held).1) forward
  · obtain ⟨a, member, own, its, registered, there⟩ := inv.admitted id time ((get_expireSeen inv.sorted).mp held).1
    refine ⟨a, member, own, its, registered.congr (audit_expireSeen _ _ _), ?_⟩
    rw [records_expireSeen inv.sorted held]
    exact there
  · refine (get_expireSeen inv.sorted).mpr ⟨inv.kept a member ?_, young⟩
    exact le_trans (sub_le_sub_right forward _) young

/-- The id has been admitted, not as a duplicate, within the window before this reading. -/
def Within (cfg : Config) (c : Clocked) (checked : ℚ) (id : Str) (a : Admittance) : Prop :=
  a ∈ c.admissions ∧ a.id = id ∧ checked - a.time ≤ cfg.idempotencyRetentionS

/-- In the table after `_expire_seen`, and within the window, is the same. -/
theorem Inv.within_iff (inv : c.Inv cfg) {checked : ℚ} (forward : c.now ≤ checked) (id : Str) :
    (∃ time, (expireSeen cfg checked c.runtime).seen.get id = some time) ↔ ∃ a, c.Within cfg checked id a := by
  have after := inv.expired forward
  constructor
  · rintro ⟨time, held⟩
    obtain ⟨a, member, own, its, _⟩ := after.admitted id time held
    have young := ((get_expireSeen inv.sorted).mp held).2
    exact ⟨a, member, own, by linarith⟩
  · rintro ⟨a, member, rfl, young⟩
    exact ⟨a.time, after.kept a member (by linarith)⟩

theorem Inv.present (inv : c.Inv cfg) {id : Str} (seen : c.runtime.seen.contains id = true) : ∃ time record,
    c.runtime.seen.get id = some time ∧ c.runtime.records.get id = some record := by
  obtain ⟨time, held⟩ := Option.isSome_iff_exists.mp seen
  obtain ⟨_, _, _, _, _, there⟩ := inv.admitted id time held
  obtain ⟨record, stored⟩ := Option.isSome_iff_exists.mp there
  exact ⟨time, record, held, stored⟩

/-- An admission that is no duplicate goes to the end of the table. -/
theorem Inv.enter (inv : c.Inv cfg) {ref : Ref} {id : Str} {stamped : ℚ} {rt : Runtime} (later : c.now ≤ stamped)
    (absent : c.runtime.seen.get id = none) (seen : rt.seen = c.runtime.seen.insert id stamped)
    (records : rt.records = c.runtime.records.insert id (.fresh ref)) (audit : rt.audit = c.runtime.audit ++ [.registration id]) :
    (⟨rt, stamped, c.admissions ++ [⟨id, stamped, c.runtime.audit.length⟩]⟩ : Clocked).Inv cfg := by
  refine ⟨?_, fun other time held => ?_, fun other time held => ?_, fun a member young => ?_⟩
  · rw [seen, Dict.items_insert_new stamped absent, List.pairwise_append]
    refine ⟨inv.sorted, List.pairwise_singleton _ _, fun item member last new => ?_⟩
    rw [List.mem_singleton.mp new]
    exact le_trans (inv.past item.1 item.2 (Dict.mem_items.mp member)) later
  · rw [seen, Dict.get_insert] at held
    split at held
    · exact le_of_eq (Option.some.inj held).symm
    · exact le_trans (inv.past other time held) later
  · rw [seen, Dict.get_insert] at held
    rw [records, Dict.get_insert]
    split at held
    · rename_i same
      obtain rfl := Option.some.inj held
      subst same
      exact ⟨_, List.mem_append_right _ (List.mem_singleton.mpr rfl), rfl, rfl, ⟨_, [], audit, rfl, List.not_mem_nil⟩, by rw [if_pos rfl]; rfl⟩
    · rename_i ne
      obtain ⟨a, member, own, its, registered, there⟩ := inv.admitted other time held
      refine ⟨a, List.mem_append_left _ member, own, its, registered.append audit fun member => ?_, by rw [if_neg ne]; exact there⟩
      exact ne (congrArg AuditEntry.intentId (List.mem_singleton.mp member))
  · rw [seen, Dict.get_insert]
    rcases List.mem_append.mp member with old | new
    · have kept := inv.kept a old (le_trans (sub_le_sub_right later _) young)
      rw [if_neg (fun same => by rw [same, absent] at kept; cases kept)]
      exact kept
    · rw [List.mem_singleton.mp new, if_pos rfl]

variable [PyText]

theorem Inv.exec (inv : c.Inv cfg) {call : TimedCall} (forward : c.Forward call) : (c.exec cfg call).Inv cfg := by
  cases call with
  | admission ref checked stamped enqueue =>
    have after := inv.expired forward.1
    have ends := ends_admitTimed cfg ref checked stamped enqueue c.runtime
    rw [Clocked.exec]
    cases run : (admitTimed cfg ref checked stamped enqueue).run c.runtime with
    | error e rt => exact (ends.of_run_error run).elim
    | ok a rt =>
      obtain ⟨record, duplicate⟩ := a
      rcases ends.of_run_ok run with ⟨again, _, _, rfl⟩ | ⟨fresh, unknown, seen, records, audit⟩
      · obtain rfl : duplicate = true := again
        exact after
      · obtain rfl : duplicate = false := fresh
        have absent : (expireSeen cfg checked c.runtime).seen.get (c.runtime.heap ref).id = none := by
          by_contra there
          obtain ⟨_, record, _, stored⟩ := after.present (Option.isSome_iff_ne_none.mpr there)
          rw [unknown (Option.isSome_iff_ne_none.mpr there)] at stored
          cases stored
        have entered := after.enter forward.2 absent seen records (by rw [audit, audit_expireSeen])
        simp only [audit_expireSeen] at entered
        exact entered
  | isDuplicate id checked => exact inv.expired forward
  | prepare ref => exact inv.remains fun id => remains_aside rfl rfl rfl
  | updateContext patch => exact inv.remains fun id => remains_aside rfl rfl rfl
  | mergeContext snapshot version =>
    refine inv.remains fun id => ?_
    rw [mergeContextSnapshot]
    split
    · exact Std.Refl.refl _
    · exact remains_aside rfl rfl rfl
  | operation op other => exact inv.remains fun id => remains_exec cfg id _ other

theorem Inv.run (inv : c.Inv cfg) {calls : List TimedCall} (forward : Along cfg Forward c calls) : (c.run cfg calls).Inv cfg := by
  induction calls generalizing c with
  | nil => exact inv
  | cons call calls ih => exact ih (inv.exec forward.1) forward.2

/-- A pass over the first intent. -/
def plainPass : TimedCall := .operation (.processIntent plainCall 0) rfl

/-- The intent `a`, admitted at time 0. -/
def admittedOnce : Clocked := @run PyText.ascii plainConfig (init threeIntents .nil .empty 0) [.admission 0 0 0 false]

end Clocked

end Xair
