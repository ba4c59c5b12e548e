import Xair.Data.Cjson
import Xair.Store.History

/-!
# Authorization commits

The arguments and results of `commit_authorization`, and the entries of the actuation
log. What an entry keeps of the request it came from is history only.
-/

namespace Xair

open Library

inductive Scope where
  | readset | truth
  deriving DecidableEq

inductive CommitStatus where
  | committed | changed | expired | duplicate | futureSkew | unavailable
  deriving DecidableEq

/-- A refusal is an answer of the store: it is neither a commit nor an outage. -/
def CommitStatus.refused (status : CommitStatus) : Bool :=
  decide (status ≠ .committed ∧ status ≠ .unavailable)

/-- The arguments of `commit_authorization`; `keys` are the paths or, in the truth scope, the expressions. -/
structure CommitRequest where
  intentId : Str
  keys : List Str
  expected : Int
  record : Members
  decisionEpochMs : ℚ
  ageBoundMs : Option ℚ
  maxAheadMs : Option ℚ
  scope : Scope

structure CommitResult where
  status : CommitStatus
  observed : Int
  commitVersion : Int
  storeTimeMs : Option ℚ
  ageAtCommitMs : Option ℚ
  seq : Option Nat

/-- What a commit has compared: the version it was made at, and the registered predicates then. -/
structure Grant where
  request : CommitRequest
  version : Nat
  preds : Dict Str Entry

/-- An entry of the log. `ticket` is the call that appended it; `grant` is there if it authorizes. -/
structure LogEntry where
  record : Members
  ticket : Nat
  grant : Option Grant

/-- The authorizing entries of a log. -/
def grants (actuations : List LogEntry) : List Grant := actuations.filterMap LogEntry.grant

theorem grants_append (actuations more : List LogEntry) : grants (actuations ++ more) = grants actuations ++ grants more :=
  List.filterMap_append

/-- What the result of the call `ticket` says of the log: a commit has its entry at the position it
returns, a refusal has none. -/
structure CommitResult.Answers (result : CommitResult) (ticket : Nat) (req : CommitRequest)
    (actuations : List LogEntry) : Prop where
  committed : result.status = .committed → ∃ n record g, result.seq = some (n + 1) ∧
    actuations[n]? = some ⟨record, ticket, some g⟩ ∧ g.request = req ∧ result.commitVersion = g.version ∧
    result.observed = req.expected
  refused : result.status.refused = true → result.seq = none ∧ ∀ entry ∈ actuations, entry.ticket ≠ ticket

/-- A record that authorizes nothing: a tombstone of a withheld release, or a stop. -/
structure Tombstone where
  record : Members
  unauthorized : record.get "commit_version".toList = none

/-- `{**record, "intent_id": …, "commit_version": …, "store_time_ms": …, "age_at_commit_ms": …}`. -/
def stampRecord (record : Members) (id : Str) (version now age : Json) : Members :=
  (((record.set "intent_id".toList (.str id)).set "commit_version".toList version).set "store_time_ms".toList now).set
    "age_at_commit_ms".toList age

/-- The keys a commit writes. -/
def stampKeys : List Str :=
  ["intent_id".toList, "commit_version".toList, "store_time_ms".toList, "age_at_commit_ms".toList]

theorem get_stampRecord {record : Members} {id : Str} {version now age : Json} {key : Str} (plain : key ∉ stampKeys) :
    (stampRecord record id version now age).get key = record.get key := by
  simp only [stampKeys, List.mem_cons, List.not_mem_nil, or_false, not_or] at plain
  simp only [stampRecord, Members.get_set, if_neg plain.1, if_neg plain.2.1, if_neg plain.2.2.1, if_neg plain.2.2.2]

theorem get_stampRecord_id (record : Members) (id : Str) (version now age : Json) :
    (stampRecord record id version now age).get "intent_id".toList = some (.str id) := by
  simp only [stampRecord, Members.get_set]
  rfl

theorem get_stampRecord_version (record : Members) (id : Str) (version now age : Json) :
    (stampRecord record id version now age).get "commit_version".toList = some version := by
  simp only [stampRecord, Members.get_set]
  rfl

theorem get_stampRecord_time (record : Members) (id : Str) (version now age : Json) :
    (stampRecord record id version now age).get "store_time_ms".toList = some now := by
  simp only [stampRecord, Members.get_set]
  rfl

theorem get_stampRecord_age (record : Members) (id : Str) (version now age : Json) :
    (stampRecord record id version now age).get "age_at_commit_ms".toList = some age := by
  simp only [stampRecord, Members.get_set]
  rfl

/-! ### The branch without a server -/

namespace CommitRequest

/-- The version a commit compares. -/
def observed (req : CommitRequest) (pathVersions : Dict Str Nat) (preds : Dict Str Entry) : Int :=
  match req.scope with
  | .truth => predicateVersion preds req.keys
  | .readset => readSetVersion pathVersions req.keys

/-- The refusals of `commit_authorization`, in their order; `none` is a commit. -/
def refusal (req : CommitRequest) (committed : List Str) (age : ℚ) (observed : Int) : Option CommitStatus :=
  if req.intentId ∈ committed then some .duplicate
  else if req.maxAheadMs.any fun ahead => decide (age < -ahead) then some .futureSkew
  else if req.ageBoundMs.any fun bound => decide (bound < age) then some .expired
  else if observed < 0 ∨ req.expected < 0 ∨ observed ≠ req.expected then some .changed
  else none

theorem refused_of_refusal {req : CommitRequest} {committed : List Str} {age : ℚ} {observed : Int} {status : CommitStatus}
    (h : req.refusal committed age observed = some status) : status.refused = true := by
  unfold refusal at h
  repeat' split at h
  all_goals cases h
  all_goals rfl

theorem refusal_eq_none {req : CommitRequest} {committed : List Str} {age : ℚ} {observed : Int}
    (h : req.refusal committed age observed = none) : req.intentId ∉ committed ∧ observed = req.expected := by
  unfold refusal at h
  split at h
  · cases h
  rename_i new
  split at h
  · cases h
  split at h
  · cases h
  split at h
  · cases h
  · rename_i same
    exact ⟨new, by omega⟩

end CommitRequest

/-! ### The script's observations -/

/-- The loop over the stored path versions. -/
def luaReadSet (paths : List Str) : List (Str × Nat) → Nat → Nat
  | [], observed => observed
  | (p, v) :: rest, observed =>
    luaReadSet paths rest (if paths.any (related p) then if observed < v then v else observed else observed)

/-- The loop over the expressions; `entry` is what is stored under one. -/
def luaTruth (entry : Str → Option Entry) : List Str → Int → Int
  | [], observed => observed
  | e :: rest, observed =>
    match entry e with
    | none => -1
    | some entry' => luaTruth entry rest (if observed < entry'.version then entry'.version else observed)

/-- `string.match(path, '^[^.]+')`. -/
def luaRoot (path : Str) : Option Str :=
  let root := path.takeWhile fun c => decide (c ≠ '.')
  if root = [] then none else some root

theorem luaReadSet_eq (paths : List Str) (items : List (Str × Nat)) (observed : Nat) :
    luaReadSet paths items observed =
      max observed (maxOf ((items.filter fun item => paths.any (related item.1)).map Prod.snd)) := by
  induction items generalizing observed with
  | nil => simp [luaReadSet, maxOf]
  | cons item rest ih =>
    obtain ⟨p, v⟩ := item
    rw [luaReadSet, ih, List.filter_cons]
    by_cases covered : paths.any (related p) = true
    · simp only [if_pos covered, List.map_cons, maxOf, List.foldr_cons]
      split <;> omega
    · simp only [if_neg covered]

theorem luaTruth_eq (preds : Dict Str Entry) (exprs : List Str) (observed : Int) :
    luaTruth preds.get exprs observed = predicateVersion.loop preds observed exprs := by
  induction exprs generalizing observed with
  | nil => rfl
  | cons e exprs ih =>
    rw [luaTruth, predicateVersion.loop]
    cases preds.get e with
    | none => rfl
    | some entry =>
      simp only
      rw [ih]
      congr 1
      split <;> omega

theorem takeWhile_eq_rootOf (path : Str) : (path.takeWhile fun c => decide (c ≠ '.')) = rootOf path := by
  by_cases dot : '.' ∈ path
  · obtain ⟨front, rest, rfl, noDot⟩ := List.eq_append_cons_of_mem dot
    have all : ∀ c ∈ front, decide (c ≠ '.') = true := by
      intro c member
      rw [decide_eq_true_eq]
      rintro rfl
      exact noDot member
    rw [rootOf, segments_join, segments_of_no_dot noDot, List.takeWhile_append_of_pos all]
    simp
  · have all : ∀ c ∈ path, decide (c ≠ '.') = true := by
      intro c member
      rw [decide_eq_true_eq]
      rintro rfl
      exact dot member
    rw [rootOf, segments_of_no_dot dot, List.takeWhile_eq_self_iff.mpr all]
    rfl

theorem luaRoot_eq (path : Str) : luaRoot path = if rootOf path = [] then none else some (rootOf path) := by
  simp only [luaRoot, takeWhile_eq_rootOf]

end Xair
