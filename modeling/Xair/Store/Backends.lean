import Xair.Store.Actuations

/-!
# One commit on both backends

The script and the branch without a server decide alike, except where the script fails
on a path without a first segment. What the log keeps of a record differs: the script
decodes it and encodes it again.
-/

namespace Xair

open Library

/-! ### The decision -/

/-- One state, in memory and on a server. -/
structure Represents (layout : Layout) (m : MemoryStore) (s : Redis) : Prop where
  shown : s.Shows layout m.snapshot.version m.snapshot.pathVersions m.preds
  committed : ∀ id, id ∈ s.committed ↔ id ∈ m.committed
  length : s.actuations.length = m.actuations.length

/-- The result of `_commit_redis`; an error of the script is an outage. -/
def scriptResult (version : Nat) (reply : Option ScriptReply) : CommitResult :=
  (reply.map ScriptReply.result).getD (.unavailable version)

/-- A commit has the same status and the same position on both backends, and leaves one state. -/
structure CommitsAlike (layout : Layout) (ticket : Nat) (req : CommitRequest) (m : MemoryStore) (s : Redis) : Prop where
  status : (scriptResult m.snapshot.version (s.commitScript layout ticket req).1).status = (m.commit s.clock req).1.status
  seq : (scriptResult m.snapshot.version (s.commitScript layout ticket req).1).seq = (m.commit s.clock req).1.seq
  after : Represents layout (m.commit s.clock req).2 (s.commitScript layout ticket req).2

/-- Every path whose version the script is to compare has a first segment. -/
def Rooted (layout : Layout) (req : CommitRequest) : Prop :=
  layout = .shard → req.scope = .readset → ∀ p ∈ req.keys, rootOf p ≠ []

theorem Members.cjson_set {m encoded : Members} (key text : Str) (h : m.cjson = some encoded) :
    ∃ out, (m.set key (.str text)).cjson = some out := by
  induction m generalizing encoded with
  | nil => exact ⟨.cons key (.str text) .nil, rfl⟩
  | cons k value rest ih =>
    obtain ⟨v, r, first, later, rfl⟩ := Members.cjson_cons h
    rw [Members.set]
    split
    · refine ⟨.cons key (.str text) r, ?_⟩
      rw [Members.cjson, later]
      rfl
    · obtain ⟨out, done⟩ := ih later
      refine ⟨.cons k v out, ?_⟩
      rw [Members.cjson, first, done]
      rfl

namespace Represents

variable {layout : Layout} {m : MemoryStore} {s : Redis}

/-- A refusal of both. -/
theorem refused (rep : Represents layout m s) {ticket : Nat} {req : CommitRequest} {status : CommitStatus}
    {observed version : Int} {storeTime age : ℚ}
    (script : s.commitScript layout ticket req = (some ⟨status, observed, version, storeTime, age, -1⟩, s))
    (memory : req.refusal m.committed (s.clock * 1000 - req.decisionEpochMs)
      (req.observed m.snapshot.pathVersions m.preds) = some status) :
    CommitsAlike layout ticket req m s := by
  have result : m.commit s.clock req = (⟨status, req.observed m.snapshot.pathVersions m.preds, m.snapshot.version,
      some (s.clock * 1000), some (s.clock * 1000 - req.decisionEpochMs), none⟩, m) := by
    simp only [MemoryStore.commit, memory]
  refine ⟨?_, ?_, ?_⟩
  · rw [script, result]
    rfl
  · rw [script, result]
    rfl
  · rw [script, result]
    exact rep

/-- Both commit. -/
theorem granted (rep : Represents layout m s) {ticket : Nat} {req : CommitRequest} {record : Members}
    {grant : Option Grant} {observed version : Int} {storeTime age : ℚ}
    (script : s.commitScript layout ticket req =
      (some ⟨.committed, observed, version, storeTime, age, s.actuations.length + 1⟩, { s with
        actuations := s.actuations ++ [⟨record, ticket, grant⟩], committed := s.committed ++ [req.intentId] }))
    (memory : req.refusal m.committed (s.clock * 1000 - req.decisionEpochMs)
      (req.observed m.snapshot.pathVersions m.preds) = none) :
    CommitsAlike layout ticket req m s := by
  have status : (m.commit s.clock req).1.status = .committed := by simp only [MemoryStore.commit, memory]
  rcases m.commit_cases s.clock req with ⟨refused, _⟩ | result
  · rw [status] at refused
    cases refused
  refine ⟨?_, ?_, ?_⟩
  · rw [script, result]
    rfl
  · rw [script, result]
    simp only [scriptResult, ScriptReply.result, Option.map_some, Option.getD_some]
    rw [if_pos (by omega), rep.length]
    rfl
  · rw [script, result]
    refine ⟨⟨rep.shown.version, rep.shown.whole, rep.shown.sharded, rep.shown.preds⟩, fun id => ?_, ?_⟩
    · simp only [List.mem_append, rep.committed id]
    · simp only [List.length_append, rep.length, List.length_singleton]

end Represents

theorem represents_empty (layout : Layout) (clock : ℚ) : Represents layout .init (Redis.empty clock) := by
  refine ⟨⟨?_, fun _ _ => rfl, fun _ r p => ?_, fun e => ?_⟩, fun _ => Iff.rfl, rfl⟩
  · cases layout <;> rfl
  · simp [Redis.empty, MemoryStore.init, Snapshot.empty]
  · cases layout <;> rfl

/-- A commit that compares the path without a name. -/
def rootlessCommit : CommitRequest := { plainCommit with keys := [[]] }

/-- The log has the submitted values, and those a commit adds. -/
structure Keeps (record logged : Members) : Prop where
  values : ∀ key v, record.get key = some v → ∃ w, logged.get key = some w ∧ v.pyEq w = true
  stamps : ∀ key ∈ stampKeys, ∃ w, logged.get key = some w

/-- The values of these keys are equal, where both have one. -/
def Compatible (record stamps : Members) : Prop :=
  ∀ key v w, record.get key = some v → stamps.get key = some w → v.pyEq w = true

theorem get_stampRecord_stamp {record : Members} {id : Str} {version now age : Json} {key : Str} (stamp : key ∈ stampKeys) :
    (stampRecord record id version now age).get key = (stampRecord .nil id version now age).get key := by
  simp only [stampKeys, List.mem_cons, List.not_mem_nil, or_false] at stamp
  rcases stamp with rfl | rfl | rfl | rfl
  · rw [get_stampRecord_id, get_stampRecord_id]
  · rw [get_stampRecord_version, get_stampRecord_version]
  · rw [get_stampRecord_time, get_stampRecord_time]
  · rw [get_stampRecord_age, get_stampRecord_age]

theorem exists_stamp (record : Members) (id : Str) (version now age : Json) {key : Str} (stamp : key ∈ stampKeys) :
    ∃ w, (stampRecord record id version now age).get key = some w := by
  simp only [stampKeys, List.mem_cons, List.not_mem_nil, or_false] at stamp
  rcases stamp with rfl | rfl | rfl | rfl
  · exact ⟨_, get_stampRecord_id _ _ _ _ _⟩
  · exact ⟨_, get_stampRecord_version _ _ _ _ _⟩
  · exact ⟨_, get_stampRecord_time _ _ _ _ _⟩
  · exact ⟨_, get_stampRecord_age _ _ _ _ _⟩

/-- A stamped record keeps what it is given, if the other values of the record are kept and the four
that are stamped agree. -/
theorem keeps_stampRecord_iff {record decoded : Members} {id : Str} {version now age : Json} :
    Keeps record (stampRecord decoded id version now age) ↔
      (∀ key v, record.get key = some v → key ∉ stampKeys → ∃ w, decoded.get key = some w ∧ v.pyEq w = true) ∧
        Compatible record (stampRecord .nil id version now age) := by
  constructor
  · intro keeps
    refine ⟨fun key v stored plain => ?_, fun key v w stored stamped => ?_⟩
    · obtain ⟨w, logged, same⟩ := keeps.values key v stored
      exact ⟨w, (get_stampRecord plain).symm.trans logged, same⟩
    · obtain ⟨w', logged, same⟩ := keeps.values key v stored
      by_cases stamp : key ∈ stampKeys
      · rw [get_stampRecord_stamp stamp, stamped] at logged
        cases logged
        exact same
      · rw [get_stampRecord stamp] at stamped
        cases stamped
  · rintro ⟨others, stamps⟩
    refine ⟨fun key v stored => ?_, fun key stamp => exists_stamp _ _ _ _ _ stamp⟩
    by_cases stamp : key ∈ stampKeys
    · obtain ⟨w, stamped⟩ := exists_stamp .nil id version now age stamp
      exact ⟨w, (get_stampRecord_stamp stamp).trans stamped, stamps key v w stored stamped⟩
    · obtain ⟨w, kept, same⟩ := others key v stored stamp
      exact ⟨w, (get_stampRecord stamp).trans kept, same⟩

theorem Keeps.congr {record logged logged' : Members} (same : ∀ key, logged'.get key = logged.get key) :
    Keeps record logged' ↔ Keeps record logged := by
  constructor
  · intro keeps
    exact ⟨fun key v stored => by rw [← same]; exact keeps.values key v stored,
      fun key stamp => by rw [← same]; exact keeps.stamps key stamp⟩
  · intro keeps
    exact ⟨fun key v stored => by rw [same]; exact keeps.values key v stored,
      fun key stamp => by rw [same]; exact keeps.stamps key stamp⟩

/-- The script stamps the record it has decoded. -/
theorem get_scriptRecord_stampRecord {req : CommitRequest} {version : Nat} {now age : ℚ} {record decoded : Members}
    (h : scriptRecord req version now age = some record)
    (encoded : (req.record.set "intent_id".toList (.str req.intentId)).cjson = some decoded) (key : Str) :
    record.get key =
      (stampRecord decoded req.intentId (luaNumber version) (luaNumber now) (luaNumber age)).get key := by
  have id := Members.get_set_cjson encoded
  rw [scriptRecord, encoded] at h
  cases h
  simp only [stampRecord, Members.get_set]
  by_cases stamp : key = "intent_id".toList
  · subst stamp
    rw [id]
    rfl
  · simp only [if_neg stamp]

/-- What comes back of a value that the script does not stamp. -/
theorem kept_iff_survives {record decoded : Members} {id key : Str} {v : Json} (wf : record.WF)
    (encoded : (record.set "intent_id".toList (.str id)).cjson = some decoded) (stored : record.get key = some v)
    (plain : key ∉ stampKeys) : (∃ w, decoded.get key = some w ∧ v.pyEq w = true) ↔ v.survives = true := by
  have other : key ≠ "intent_id".toList := by
    rintro rfl
    exact plain List.mem_cons_self
  have same : (record.set "intent_id".toList (.str id)).get key = some v := by
    rw [Members.get_set, if_neg other, stored]
  obtain ⟨w, result, found⟩ := Members.get_cjson encoded same
  have equal := Json.pyEq_cjson (wf.of_get stored) result
  constructor
  · rintro ⟨w', found', kept⟩
    rw [found] at found'
    cases found'
    rw [← equal, kept]
  · intro survives
    exact ⟨w, found, by rw [equal, survives]⟩

/-- `actuation_log`. -/
def MemoryStore.actuationLog (m : MemoryStore) (start : Nat) : List Members :=
  (m.actuations.drop start).map LogEntry.record

def Redis.actuationLog (s : Redis) (start : Nat) : List Members := (Redis.exec (.lrangeActuations start) s).1

theorem actuationLog_last {actuations : List LogEntry} {entry : LogEntry} :
    (((actuations ++ [entry]).drop 0).map LogEntry.record)[actuations.length]? = some entry.record := by
  rw [List.drop_zero, List.getElem?_map, List.getElem?_concat_length]
  rfl

/-- A committed record is in the log at the position that is returned. In memory its values are those
submitted; through the script exactly those without empty arrays and without numbers that change.
On both a commit writes its four keys over what is submitted under them. -/
theorem committed_keeps_iff {req : CommitRequest} {encoded : Members} (wf : req.record.WF)
    (finite : req.record.cjson = some encoded) :
    (∀ (m : MemoryStore) (now : ℚ), (m.commit now req).1.status = .committed →
      ∃ n logged, (m.commit now req).1.seq = some (n + 1) ∧ ((m.commit now req).2.actuationLog 0)[n]? = some logged ∧
        (Keeps req.record logged ↔ Compatible req.record (stampRecord .nil req.intentId (.int m.snapshot.version)
          (.float (.fin (now * 1000))) (.float (.fin (now * 1000 - req.decisionEpochMs)))))) ∧
    ∀ (layout : Layout) (ticket : Nat) (s : Redis) (reply : ScriptReply),
      (s.commitScript layout ticket req).1 = some reply → reply.status = .committed →
      ∃ n logged, reply.result.seq = some (n + 1) ∧
        ((s.commitScript layout ticket req).2.actuationLog 0)[n]? = some logged ∧
        (Keeps req.record logged ↔
          (∀ key v, req.record.get key = some v → key ∉ stampKeys → v.survives = true) ∧
          Compatible req.record (stampRecord .nil req.intentId (luaNumber (s.scriptVersions layout).1)
            (luaNumber (s.clock * 1000)) (luaNumber (s.clock * 1000 - req.decisionEpochMs)))) := by
  constructor
  · intro m now committed
    rcases m.commit_cases now req with ⟨refused, _⟩ | result
    · rw [committed] at refused
      cases refused
    refine ⟨m.actuations.length, m.stamped now req, ?_, ?_, ?_⟩
    · rw [result]
    · rw [result]
      exact actuationLog_last
    · rw [MemoryStore.stamped, keeps_stampRecord_iff]
      apply and_iff_right
      intro key v stored _
      obtain ⟨w, written, _⟩ := Members.get_cjson finite stored
      exact ⟨v, stored, Json.pyEq_self v (Json.noNaN_of_cjson written) (wf.of_get stored)⟩
  · intro layout ticket s reply replied committed
    rcases s.commitScript_cases layout ticket req with ⟨_, refused⟩ | ⟨record, observed, _, _, _, _, written, answer, result⟩
    · have status := (refused reply replied).1
      rw [committed] at status
      cases status
    rw [answer] at replied
    cases replied
    obtain ⟨decoded, encoded'⟩ := Members.cjson_set "intent_id".toList req.intentId finite
    refine ⟨s.actuations.length, record, ?_, ?_, ?_⟩
    · simp only [ScriptReply.result]
      rw [if_pos (by omega)]
      rfl
    · rw [result]
      exact actuationLog_last
    · rw [Keeps.congr (get_scriptRecord_stampRecord written encoded'), keeps_stampRecord_iff]
      apply and_congr_left
      intro _
      constructor
      · intro kept key v stored plain
        exact (kept_iff_survives wf encoded' stored plain).mp (kept key v stored plain)
      · intro survives key v stored plain
        exact (kept_iff_survives wf encoded' stored plain).mpr (survives key v stored plain)

/-- A commit whose parameters name no waypoints. -/
def waypointCommit : CommitRequest :=
  { plainCommit with record := .single "parameters" (.obj (.single "waypoints" (.arr .nil))) }

theorem wf_waypointCommit : waypointCommit.record.WF := by
  simp [waypointCommit, Members.single, Members.WF, Json.WF, Elems.WF, Members.keys]

theorem committed_keeps_iff_waypointCommit :
    ∃ n logged, (MemoryStore.init.commit 1 waypointCommit).1.seq = some (n + 1) ∧
      ((MemoryStore.init.commit 1 waypointCommit).2.actuationLog 0)[n]? = some logged ∧
      (Keeps waypointCommit.record logged ↔ Compatible waypointCommit.record (stampRecord .nil waypointCommit.intentId
        (.int MemoryStore.init.snapshot.version) (.float (.fin (1 * 1000)))
        (.float (.fin (1 * 1000 - waypointCommit.decisionEpochMs))))) :=
  (committed_keeps_iff wf_waypointCommit
    (show waypointCommit.record.cjson = some (.single "parameters" (.obj (.single "waypoints" (.obj .nil)))) from rfl)).1
    .init 1 (by decide +kernel)

/-- The log of the server has an object where an empty array was submitted. -/
theorem waypointCommit_changed :
    ¬∀ (req : CommitRequest) (encoded : Members) (layout : Layout) (ticket : Nat) (s : Redis) (reply : ScriptReply) (n : Nat)
      (logged : Members), req.record.WF → req.record.cjson = some encoded →
      (s.commitScript layout ticket req).1 = some reply → reply.status = .committed → reply.result.seq = some (n + 1) →
      ((s.commitScript layout ticket req).2.actuationLog 0)[n]? = some logged → Keeps req.record logged := by
  intro always
  obtain ⟨script, run⟩ : ∃ script, script = (Redis.empty 1).commitScript .document 0 waypointCommit := ⟨_, rfl⟩
  have answered : script.1.map (fun reply => (reply.status, reply.result.seq)) = some (.committed, some 1) := by
    rw [run]
    decide +kernel
  have compared : (script.2.actuationLog 0).map (fun logged => (logged.get "parameters".toList).map
      fun w => (Json.obj (.single "waypoints" (.arr .nil))).pyEq w) = [some false] := by
    rw [run]
    decide +kernel
  obtain ⟨reply, replied, committed⟩ := Option.map_eq_some_iff.mp answered
  obtain ⟨logged, rest, log, here, _⟩ := List.map_eq_cons_iff.mp compared
  have keeps := always waypointCommit (.single "parameters" (.obj (.single "waypoints" (.obj .nil)))) .document 0
    (Redis.empty 1) reply 0 logged wf_waypointCommit rfl (by rw [← run]; exact replied) (Prod.mk.inj committed).1
    (Prod.mk.inj committed).2 (by rw [← run, log]; rfl)
  obtain ⟨w, found, same⟩ := keeps.values "parameters".toList _ rfl
  rw [found, Option.map_some, same] at here
  cases here

end Xair
