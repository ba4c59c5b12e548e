import Xair.Library.Pool
import Xair.Server.Requests
import Xair.Store.Layouts

/-!
# The actuation consumer

`actuation_consumer.py`: `poll` reads the durable offset and the log behind it, and
hands every authorizing record to an actuator that performs the effect of an intent
once. A consumer may crash after any step and is then replaced by another.
-/

namespace Xair

open Library

/-! ### Records -/

/-- `poll` passes over the other records. -/
def authorizing (record : Members) : Bool :=
  !((record.get "withheld".toList).any Json.truthy) && (record.get "commit_version".toList).isSome

/-- `record["intent_id"]`; `none` is a `KeyError`. -/
def recordId (record : Members) : Option Str :=
  match record.get "intent_id".toList with
  | some (.str id) => some id
  | _ => none

/-- The intent a record authorizes. -/
def authorized (record : Members) : Option Str := if authorizing record then recordId record else none

def authorizedIds (log : List Members) : List Str := log.filterMap authorized

theorem authorizedIds_append (log more : List Members) :
    authorizedIds (log ++ more) = authorizedIds log ++ authorizedIds more :=
  List.filterMap_append

theorem authorized_eq {record : Members} {id : Str} (authorizes : authorizing record = true)
    (named : recordId record = some id) : authorized record = some id := by
  rw [authorized, if_pos authorizes, named]

/-- A record the log may grow by: an authorizing one names an intent that has none yet. -/
def Loggable (log : List Members) (record : Members) : Prop :=
  authorizing record = true → ∃ id, recordId record = some id ∧ id ∉ authorizedIds log

instance (log : List Members) (record : Members) : Decidable (Loggable log record) :=
  match here : authorizing record, named : recordId record with
  | false, _ => .isTrue fun authorizes => by rw [here] at authorizes; cases authorizes
  | true, none => .isFalse fun loggable => by
    obtain ⟨id, other, _⟩ := loggable here
    rw [named] at other
    cases other
  | true, some id =>
    if old : id ∈ authorizedIds log then .isFalse fun loggable => by
      obtain ⟨id', other, new⟩ := loggable here
      rw [named] at other
      cases other
      exact new old
    else .isTrue fun _ => ⟨id, named, old⟩

/-! ### The store and the actuator -/

/-- What the consumers of one name share: the store with the log and the durable offset, and the actuator. -/
structure Plant where
  log : List Members
  offset : Option Nat
  /-- What `snapshot_with_predicates` returns. -/
  view : SnapshotDoc
  clock : ℚ
  /-- The effects in the order in which they were performed; an intent among them is done. -/
  effects : List Str

inductive ConsumerCommand where
  | kvGet
  | kvSet (offset : Nat)
  | actuationLog (start : Nat)
  | snapshotWithPredicates (exprs : List Str)
  | time
  /-- `actuator.apply`: the effect and the mark that it is done are one transaction. -/
  | apply (id : Str)

def ConsumerCommand.Reply : ConsumerCommand → Type
  | kvGet => Option Nat
  | kvSet _ => Unit
  | actuationLog _ => List Members
  | snapshotWithPredicates _ => SnapshotDoc
  | time => ℚ
  | apply _ => Bool

def Plant.exec : (c : ConsumerCommand) → Plant → c.Reply × Plant
  | .kvGet, s => (s.offset, s)
  | .kvSet offset, s => ((), { s with offset := some offset })
  | .actuationLog start, s => (s.log.drop start, s)
  | .snapshotWithPredicates _, s => (s.view, s)
  | .time, s => (s.clock, s)
  | .apply id, s => if id ∈ s.effects then (false, s) else (true, { s with effects := s.effects ++ [id] })

abbrev plant : Service := ⟨ConsumerCommand, ConsumerCommand.Reply, Plant, Plant.exec⟩

/-! ### `poll` -/

/-- The lists a consumer keeps. -/
structure Consumer where
  applied : List Members
  invalidatedInFlight : List Str
  withheld : List Str
  lateAtApply : List Str

def Consumer.init : Consumer := ⟨[], [], [], []⟩

/-- A crash, or a `KeyError`. -/
inductive ConsumerError where
  | crash | keyError

abbrev ConsumerM := Method plant Consumer ConsumerError

def consume (c : ConsumerCommand) : ConsumerM c.Reply := Method.command (fun _ => .crash) (show plant.Command from c)

/-- The strings of an array, if there is one. -/
def stringsAt (record : Members) (key : String) : List Str :=
  let rec strings : Elems → List Str
    | .nil => []
    | .cons (.str s) rest => s :: strings rest
    | .cons _ rest => strings rest
  match record.get key.toList with
  | some (.arr xs) => strings xs
  | _ => []

def truthScope (record : Members) : Bool := decide (record.get "scope".toList = some (.str "truth".toList))

/-- The version compared at the commit has moved, or the store is not trusted. -/
def moved (record : Members) (doc : SnapshotDoc) : Bool :=
  let current : Int :=
    if truthScope record then predicateVersion doc.preds (stringsAt record "predicates")
    else readSetVersion doc.snapshot.pathVersions (stringsAt record "read_set")
  let expected := record.get (if truthScope record then "predicate_version" else "read_set_version").toList
  !doc.trusted || !(expected.any (Json.int current).pyEq)

/-- One turn of the loop of `poll`. -/
def pollRecord (recheckAtApply : Bool) (position : Nat) (record : Members) : ConsumerM Unit :=
  if authorizing record then
    match recordId record with
    | none => throw .keyError
    | some id => do
      let doc ← consume (.snapshotWithPredicates (if truthScope record then stringsAt record "predicates" else []))
      let moved := moved record doc
      let now ← consume .time
      let late := late now record
      modify fun l =>
        { l with
          invalidatedInFlight := l.invalidatedInFlight ++ if moved then [id] else []
          lateAtApply := l.lateAtApply ++ if late then [id] else [] }
      if (moved || late) && recheckAtApply then modify fun l => { l with withheld := l.withheld ++ [id] }
      else
        let performed : Bool ← consume (.apply id)
        modify fun l => { l with applied := l.applied ++ if performed then [record] else [] }
      consume (.kvSet (position + 1))
  else consume (.kvSet (position + 1))

def pollLoop (recheckAtApply : Bool) (position : Nat) : List Members → ConsumerM Unit
  | [] => pure ()
  | record :: rest => do
    pollRecord recheckAtApply position record
    pollLoop recheckAtApply (position + 1) rest

/-- `poll`. -/
def poll (recheckAtApply : Bool) : ConsumerM Nat := do
  let start := (← consume .kvGet).getD 0
  let records : List Members ← consume (.actuationLog start)
  pollLoop recheckAtApply start records
  return records.length

/-- What happens to the plant besides: the log grows, the context and the clock move on. -/
inductive PlantChange where
  | append (record : Members)
  | show (view : SnapshotDoc)
  | tick (clock : ℚ)

def Plant.change : PlantChange → Plant → Plant
  | .append record, s => if Loggable s.log record then { s with log := s.log ++ [record] } else s
  | .show view, s => { s with view := view }
  | .tick clock, s => { s with clock := clock }

/-- Consumers of one name, each polling again and again, without a recheck at the effect. -/
def consumers : Workload plant where
  Job := Unit
  Local := Consumer
  Out := Except ConsumerError Nat
  code _ _ l := (poll false).program l
  Env := PlantChange
  env := Plant.change

/-- A plant without records. -/
def Plant.init (view : SnapshotDoc) (clock : ℚ) : Plant := ⟨[], none, view, clock, []⟩

end Xair
