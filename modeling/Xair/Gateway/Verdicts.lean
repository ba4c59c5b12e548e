import Xair.Gateway.Replica

/-!
# What the policies release on

In every run each policy has accepted what it releases: the cache, the snapshots or the
engine's copies said so, and where the versions of a read-set are compared, at every
version in between. The answer of a run tells whether it has released.
-/

namespace Xair

open Library

section

variable [PyText]

/-! ### The engine on an unmoved read-set -/

omit [PyText] in
/-- Two values that predicates cannot tell apart are the same to the engine beside a literal. -/
theorem cmp_congr {op : Op} {a b right : Json} (scalar : right.kind = .boolean ∨ right.kind = .number ∨ right.kind = .string)
    (same : a.view = b.view) : cmp op a right = cmp op b right := by
  cases a <;> cases b <;> simp only [Json.view, View.bool.injEq, View.num.injEq, View.str.injEq, reduceCtorEq] at same <;> try subst same
  all_goals cases right <;> simp_all [cmp, Json.regoEq, Json.number, Json.kind]

/-- The path and the literal of a predicate that is sent. -/
theorem opaPredicate_reads {expr : Str} {p : OpaPredicate} (h : opaPredicate expr = some p) :
    ∃ path, p.path = segments path ∧ rootOf path ≠ [] ∧ (p.value.kind = .boolean ∨ p.value.kind = .number ∨ p.value.kind = .string) := by
  rw [opaPredicate] at h
  cases named : dottedName (strip expr) with
  | none => rw [named] at h; cases h
  | some found =>
    obtain ⟨path, rest⟩ := found
    rw [named] at h
    dsimp only at h
    cases operator : takeOp (lstrip rest) with
    | none => rw [operator] at h; cases h
    | some found =>
      obtain ⟨op, rest'⟩ := found
      rw [operator] at h
      dsimp only at h
      obtain ⟨value, made, rfl⟩ := Option.map_eq_some_iff.mp h
      refine ⟨path, rfl, rootOf_dottedName_ne_nil named, ?_⟩
      unfold opaLiteral at made
      split at made
      · obtain ⟨_, _, rfl⟩ := Option.map_eq_some_iff.mp made
        exact Or.inr (Or.inr rfl)
      · obtain ⟨_, _, rfl⟩ := Option.map_eq_some_iff.mp made
        exact Or.inr (Or.inr rfl)
      · split_ifs at made
        · cases made
          exact Or.inl rfl
        · cases made
          exact Or.inl rfl
        · obtain ⟨_, _, rfl⟩ := Option.map_eq_some_iff.mp made
          exact Or.inr (Or.inl rfl)

/-- Every predicate that is sent reads a path and holds a literal. -/
def OpaPredicate.Sent (p : OpaPredicate) : Prop :=
  ∃ path, p.path = segments path ∧ rootOf path ≠ [] ∧ (p.value.kind = .boolean ∨ p.value.kind = .number ∨ p.value.kind = .string)

theorem sent_of_opaPredicates {i : ActionIntent} {preds : List OpaPredicate} (h : opaPredicates i = some preds) : ∀ p ∈ preds, p.Sent := by
  rw [opaPredicates] at h
  generalize i.safetyConstraints ++ i.preconditions = exprs at h
  induction exprs generalizing preds with
  | nil => cases h; intro p member; cases member
  | cons expr exprs ih =>
    rw [List.mapM_cons] at h
    obtain ⟨p, first, h⟩ := Option.bind_eq_some_iff.mp h
    obtain ⟨rest, later, h⟩ := Option.bind_eq_some_iff.mp h
    cases h
    rw [List.forall_mem_cons]
    exact ⟨opaPredicate_reads first, ih later⟩

omit [PyText] in
/-- The engine's version of a read-set is the gate's. -/
theorem readsetVersion_eq_readSetVersion (state : OpaState) (preds : List OpaPredicate) :
    state.readsetVersion preds = readSetVersion state.pathVersions (OpaState.readPaths preds) := by
  refine eq_of_forall_ge_iff fun n => ?_
  rw [readSetVersion, OpaState.readsetVersion, maxOf_le_iff, maxOf_le_iff]
  simp

omit [PyText] in
/-- While the version of a read-set stands still, its paths lead to values that predicates cannot tell apart. -/
theorem view_of_readSetVersion_eq {patches : List Members} (wf : ∀ patch ∈ patches, patch.WF) {paths : List Str} {v v' : Nat}
    (bound : v' ≤ patches.length) (same : readSetVersion (atVersion patches v').pathVersions paths =
      readSetVersion (atVersion patches v).pathVersions paths) {path : Str} (member : path ∈ paths) (root : rootOf path ≠ []) {u : Nat}
    (after : v ≤ u) (before : u ≤ v') : (resolve (atVersion patches u).context path).view = (resolve (atVersion patches v).context path).view := by
  induction u, after using Nat.le_induction with
  | base => rfl
  | succ u after ih =>
    have lower := readSetVersion_mono patches after paths
    have step := readSetVersion_mono patches (show u ≤ u + 1 by omega) paths
    have upper := readSetVersion_mono patches before paths
    have level : readSetVersion (atVersion patches (u + 1)).pathVersions paths = readSetVersion (atVersion patches u).pathVersions paths := by
      omega
    have here : u < patches.length := by omega
    rw [atVersion_succ here] at level
    rw [← ih (by omega), atVersion_succ here]
    exact view_resolve_deepMerge (wf _ (List.getElem_mem here)) root ((history_bounded _).unrelated_of_readSetVersion_eq level path member)

omit [PyText] in
theorem holds_congr {state state' : OpaState} {p : OpaPredicate} (sent : p.Sent)
    (same : ∀ path, p.path = segments path → rootOf path ≠ [] → (resolve state.context path).view = (resolve state'.context path).view) :
    state.holds p = state'.holds p := by
  obtain ⟨path, its, root, scalar⟩ := sent
  have views := same path its root
  have found : ∀ doc : OpaState, doc.lookup p.path = resolve doc.context path := by
    intro doc
    rw [OpaState.lookup, its]
    exact (Json.resolve_eq_walk _ _).symm
  have present : resolve state.context path ≠ .null ↔ resolve state'.context path ≠ .null := by
    rw [ne_eq, ← Json.view_eq_missing, views, Json.view_eq_missing]
  rw [OpaState.holds, OpaState.holds, found, found, cmp_congr scalar views]
  simp only [present]

/-- An engine that finds the version of the read-set unmoved between two of its copies has allowed the intent at every version in between. -/
theorem allow_between {patches : List Members} (wf : ∀ patch ∈ patches, patch.WF) {i : ActionIntent} {preds : List OpaPredicate}
    (parsed : opaPredicates i = some preds) {v g : Nat} (boundV : v ≤ patches.length) (boundG : g ≤ patches.length)
    (same : (storeDocument patches g).readsetVersion preds = (storeDocument patches v).readsetVersion preds)
    (allowed : (storeDocument patches v).allow preds = true) {n : Nat} (late : min v g ≤ n) (early : n ≤ max v g) :
    (storeDocument patches n).allow preds = true := by
  have level : readSetVersion (atVersion patches (max v g)).pathVersions (OpaState.readPaths preds) =
      readSetVersion (atVersion patches (min v g)).pathVersions (OpaState.readPaths preds) := by
    rw [readsetVersion_eq_readSetVersion, readsetVersion_eq_readSetVersion] at same
    rcases Nat.le_total v g with le | le
    · rw [Nat.max_eq_right le, Nat.min_eq_left le]
      exact same
    · rw [Nat.max_eq_left le, Nat.min_eq_right le]
      exact same.symm
  rw [OpaState.allow_iff rfl] at allowed ⊢
  intro p member
  rw [← allowed p member]
  refine holds_congr (sent_of_opaPredicates parsed p member) fun path its root => ?_
  have read : path ∈ OpaState.readPaths preds := by
    rw [OpaState.readPaths, List.mem_map]
    exact ⟨p, member, by rw [its, join_segments]⟩
  have first := view_of_readSetVersion_eq wf (by omega) level read root late early
  have second := view_of_readSetVersion_eq wf (by omega) level read root (Nat.min_le_left v g) (Nat.le_max_left v g)
  exact first.trans second.symm

/-! ### Runs that have not released -/

/-- The request does not hold the lock and has released nothing. -/
structure Bench.Apart (t : Nat) (s : Bench) : Prop where
  free : s.opaLock ≠ some t
  unreleased : s.releasesOf t = []

variable {cfg : SiteConfig} {s s' s'' : Bench} {t : Nat} {job : BenchJob} {α β : Type}

omit [PyText] in
theorem Bench.Apart.awaits (h : s.Apart t) (rely : s.Awaits t s') : s'.Apart t := ⟨rely.free h.free, rely.own.trans h.unreleased⟩

/-- The judgement for the part of a run before its release. -/
abbrev Deciding (cfg : SiteConfig) (t : Nat) (job : BenchJob) (m : BenchHandler cfg α) (s : Bench) (ok : α → Bench → Prop) : Prop :=
  Serving cfg t job m s (fun a s' => s'.Apart t ∧ ok a s') (Bench.Apart t)

theorem deciding_pure (apart : s.Apart t) {a : α} {ok : α → Bench → Prop} (h : ∀ s', s.Grows s' → ok a s') :
    Deciding cfg t job (pure a) s ok :=
  serving_pure fun s' rely => ⟨apart.awaits rely, h s' rely.grows⟩

theorem deciding_throw (apart : s.Apart t) {e : HttpError} {ok : α → Bench → Prop} : Deciding cfg t job (throw e) s ok :=
  serving_throw fun _ rely => apart.awaits rely

theorem deciding_bind (inv : s.Consistent cfg) {m : BenchHandler cfg β} {f : β → BenchHandler cfg α} {P : β → Bench → Prop}
    {ok : α → Bench → Prop} (h : Deciding cfg t job m s P)
    (later : ∀ b s', s'.Consistent cfg → s'.Apart t → s.Grows s' → P b s' → Serving cfg t job (f b) s' ok (Bench.Apart t)) :
    Serving cfg t job (m >>= f) s ok (Bench.Apart t) :=
  Method.runs_bind_since (R := Bench.Grows) (fun _ _ _ first second => first.trans second) (fun _ _ (step : Bench.Moves t _ _) => step.grows)
    (fun _ _ (rely : Bench.Awaits t _ _) => rely.grows) inv h fun b _ s' inv' grown ends => later b s' inv' ends.1 grown ends.2

/-- A step that touches neither the lock nor the releases. -/
theorem deciding_ask (apart : s.Apart t) {c : BenchCommand} {ok : c.Reply → Bench → Prop}
    (permitted : ∀ s' : Bench, s.Grows s' → c.Permitted cfg t s')
    (still : ∀ s' : Bench, (Bench.exec cfg c s').2.opaLock = s'.opaLock ∧ (Bench.exec cfg c s').2.releases = s'.releases)
    (answered : ∀ s' : Bench, s.Grows s' → s'.Consistent cfg → ∀ s'', (Bench.exec cfg c s').2.Grows s'' → ok (Bench.exec cfg c s').1 s'') :
    Deciding cfg t job (ask c) s ok := by
  have after : ∀ s' : Bench, s.Awaits t s' → (Bench.exec cfg c s').2.Apart t := by
    intro s' rely
    have here := apart.awaits rely
    obtain ⟨lock, releases⟩ := still s'
    exact ⟨by rw [lock]; exact here.free, by rw [Bench.releasesOf, releases]; exact here.unreleased⟩
  refine serving_ask (fun s' rely _ _ => permitted s' rely.grows)
    (fun s' rely inv _ s'' later => ⟨(after s' rely).awaits later, answered s' rely.grows inv s'' later.grows⟩)
    fun s' fate rely _ _ _ s'' later => ?_
  exact ((bench cfg).perform_of (P := Bench.Apart t) (apart.awaits rely) (after s' rely) fate).awaits later

theorem deciding_request (inv : s.Consistent cfg) (apart : s.Apart t) {m : BenchHandler cfg α} {ok : α → Bench → Prop}
    (lasts : ∀ a (s s' : Bench), ok a s → s.Grows s' → ok a s')
    (h : ∀ s', s'.Consistent cfg → s.Grows s' → s'.Apart t → Deciding cfg t job m s' ok) : Deciding cfg t job (request m) s ok := by
  have sent : ∀ {s : Bench}, s.Apart t → Deciding cfg t job (ask .send) s fun _ s' => s.Grows s' := by
    intro s apart
    exact deciding_ask apart (fun _ _ => trivial) (fun _ => ⟨rfl, rfl⟩) fun _ before _ _ after => before.trans after
  refine deciding_bind inv (sent apart) fun _ s₁ inv₁ apart₁ _ grown₁ => ?_
  refine deciding_bind inv₁ (h s₁ inv₁ grown₁ apart₁) fun out s₂ inv₂ apart₂ _ ends => ?_
  refine deciding_bind inv₂ (sent apart₂) fun _ s₃ _ apart₃ _ grown₃ => ?_
  exact deciding_pure apart₃ fun s' later => lasts out s₂ s' ends (grown₃.trans later)

theorem deciding_pullContext (inv : s.Consistent cfg) (apart : s.Apart t) :
    Deciding cfg t job pullContext s fun doc s' => doc.ReadBetween s s' := by
  refine serving_tryCatch (P := fun s' => s'.Apart t) inv ?_ fun _ s' _ apart' => ?_
  · refine deciding_request inv apart (fun _ _ _ read grown => read.grows grown) fun s' inv' grown apart' => ?_
    refine Method.Runs.imp (serving_readSnapshotFull inv' (Bench.Apart t)) (fun doc _ s'' _ read => ?_) fun _ _ _ _ h => h
    refine ⟨apart'.awaits read.2, fun trusted => ?_⟩
    have reach := grown.patches.length_le
    obtain ⟨after, before, same⟩ := read.1 trusted
    exact ⟨by omega, before, same⟩
  · refine deciding_pure apart' fun _ _ trusted => ?_
    cases trusted

theorem deciding_temporalOk (inv : s.Consistent cfg) (apart : s.Apart t) (i : ActionIntent) (release : Bool) :
    Deciding cfg t job (temporalOk i release) s fun out s' => out.1 = true → ∃ now ∈ s'.times,
      (if release then cfg.config.validateRelease i now else cfg.config.validate i now).1 = true := by
  refine deciding_bind (P := fun now s' => now ∈ s'.times) inv ?_ fun now s' _ apart' _ shown => ?_
  · exact deciding_ask apart (fun _ _ => trivial) (fun _ => ⟨rfl, rfl⟩) fun s' _ inv' s'' later => later.times.subset inv'.clock
  · exact deciding_pure apart' fun s'' later timely => ⟨now, later.times.subset shown, timely⟩

theorem deciding_validateLocally (inv : s.Consistent cfg) (apart : s.Apart t) (i : ActionIntent) (context : Members) (timedOut : Nat → Bool)
    (release : Bool) : Deciding cfg t job (validateLocally i context timedOut release) s fun out s' => out.1 = true →
      context.Satisfies i.predicates ∧ ∃ now ∈ s'.times,
        (if release then cfg.config.validateRelease i now else cfg.config.validate i now).1 = true := by
  refine deciding_bind inv (deciding_temporalOk inv apart i release) fun out s' inv' apart' _ timely => ?_
  obtain ⟨ok, late⟩ := out
  cases ok with
  | false => exact deciding_pure apart' fun _ _ no => by cases no
  | true =>
    obtain ⟨now, shown, timely⟩ := timely rfl
    dsimp only [predicatesOk]
    rw [if_pos rfl]
    cases evaluated : evaluatePredicates timedOut i.safetyConstraints i.preconditions context with
    | error e => exact deciding_throw apart'
    | ok answer =>
      obtain ⟨ok, reason⟩ := answer
      refine deciding_pure apart' fun s'' later accepted => ?_
      cases accepted
      exact ⟨truth_of_evaluatePredicates evaluated, now, later.times.subset shown, timely⟩

/-! ### The engine's decisions -/

/-- What a decision of the engine says about the store, if it allows. -/
structure OpaDecision.About (d : OpaDecision) (patches : List Members) (preds : List OpaPredicate) (expected : Option Nat) : Prop where
  bound : d.allow = true → d.version ≤ patches.length
  allow : d.allow = true → (storeDocument patches d.version).allow preds = true
  readset : d.allow = true → d.readsetVersion = (storeDocument patches d.version).readsetVersion preds
  versioned : d.allowVersioned = true → d.allow = true ∧ expected = some d.readsetVersion

omit [PyText] in
theorem OpaState.Copies.about {doc : OpaState} {patches : List Members} (h : doc.Copies patches) (preds : List OpaPredicate)
    (expected : Option Nat) : (doc.decision preds expected).About patches preds expected := by
  have copied : (doc.decision preds expected).allow = true → doc.version ≤ patches.length ∧ doc = storeDocument patches doc.version :=
    fun allowed => h ((Bool.and_eq_true _ _).mp allowed).1
  refine ⟨fun allowed => (copied allowed).1, fun allowed => ?_, fun allowed => ?_, fun versioned => ?_⟩
  · change (storeDocument patches doc.version).allow preds = true
    rw [← (copied allowed).2]
    exact allowed
  · change doc.readsetVersion preds = (storeDocument patches doc.version).readsetVersion preds
    rw [← (copied allowed).2]
  · obtain ⟨allowed, same⟩ := (Bool.and_eq_true _ _).mp versioned
    exact ⟨allowed, of_decide_eq_true same⟩

omit [PyText] in
theorem OpaDecision.About.grows {d : OpaDecision} {patches later : List Members} {preds : List OpaPredicate} {expected : Option Nat}
    (h : d.About patches preds expected) (grown : patches <+: later) : d.About later preds expected := by
  have reach := grown.length_le
  refine ⟨fun allowed => ?_, fun allowed => ?_, fun allowed => ?_, h.versioned⟩
  · have bound := h.bound allowed
    omega
  · rw [storeDocument_grows grown (h.bound allowed)]
    exact h.allow allowed
  · rw [storeDocument_grows grown (h.bound allowed)]
    exact h.readset allowed

theorem deciding_askEngine (inv : s.Consistent cfg) (apart : s.Apart t) (preds : List OpaPredicate) (expected : Option Nat) :
    Deciding cfg t job (askEngine preds expected) s fun out s' => ∀ d, out = some d → d.About s'.store.patches preds expected := by
  have still : ∀ s' : Bench, (Bench.exec cfg (.decide preds expected) s').2 = s' := by
    intro s'
    simp only [Bench.exec]
    split <;> rfl
  have undefined : ∀ {d : OpaDecision} (b : Bool), (if b = true then some none else none : Option (Option OpaDecision)) ≠ some (some d) := by
    intro d b
    cases b <;> simp
  refine deciding_bind (P := fun reply s' => ∀ d, reply = some (some d) → d.About s'.store.patches preds expected) inv ?_
    fun reply s' _ apart' _ about => ?_
  · refine deciding_ask apart (fun _ _ => trivial) (fun s' => by rw [still s']; exact ⟨rfl, rfl⟩) fun s' _ inv' s'' later d its => ?_
    rw [still s'] at later
    refine OpaDecision.About.grows ?_ later.patches
    simp only [Bench.exec] at its
    split at its
    · rename_i state engine
      rw [opaDecide] at its
      split at its
      · cases its
        exact (inv'.engine state engine).about preds expected
      · cases its
    · exact absurd its (undefined _)
  · cases reply with
    | some decision =>
      refine deciding_pure apart' fun s'' later d its => ?_
      rw [its] at about
      exact (about d rfl).grows later.patches
    | none => exact deciding_throw apart'

/-- What the gate has found when it lets the intent through. -/
structure OpaAllowed (cfg : SiteConfig) (versioned : Bool) (i : ActionIntent) (preds : List OpaPredicate) (v g : Nat) (s : Bench) : Prop where
  boundV : v ≤ s.store.patches.length
  boundG : g ≤ s.store.patches.length
  allowedV : (storeDocument s.store.patches v).allow preds = true
  allowedG : (storeDocument s.store.patches g).allow preds = true
  unmoved : versioned = true → (storeDocument s.store.patches g).readsetVersion preds = (storeDocument s.store.patches v).readsetVersion preds
  timely : ∃ now ∈ s.times, (cfg.config.validateRelease i now).1 = true

omit [PyText] in
theorem OpaAllowed.grows {versioned : Bool} {i : ActionIntent} {preds : List OpaPredicate} {v g : Nat}
    (h : OpaAllowed cfg versioned i preds v g s) (grown : s.Grows s') : OpaAllowed cfg versioned i preds v g s' := by
  have reach := grown.patches.length_le
  have boundV := h.boundV
  have boundG := h.boundG
  obtain ⟨now, shown, timely⟩ := h.timely
  refine ⟨by omega, by omega, ?_, ?_, ?_, now, grown.times.subset shown, timely⟩
  · rw [storeDocument_grows grown.patches boundV]
    exact h.allowedV
  · rw [storeDocument_grows grown.patches boundG]
    exact h.allowedG
  · rw [storeDocument_grows grown.patches boundG, storeDocument_grows grown.patches boundV]
    exact h.unmoved

theorem deciding_opaGate (inv : s.Consistent cfg) (apart : s.Apart t) (versioned : Bool) (i : ActionIntent) (preds : List OpaPredicate) :
    Deciding cfg t job (opaGate versioned i preds) s fun verdict s' => ∀ v g, verdict = .allowed v g →
      OpaAllowed cfg versioned i preds v g s' := by
  have refused : ∀ {s : Bench} {verdict : OpaVerdict}, s.Apart t → (∀ v g, verdict ≠ .allowed v g) →
      Deciding cfg t job (pure verdict) s fun verdict s' => ∀ v g, verdict = .allowed v g → OpaAllowed cfg versioned i preds v g s' :=
    fun apart no => deciding_pure apart fun _ _ v g same => absurd same (no v g)
  refine deciding_bind inv (deciding_askEngine inv apart preds none) fun validation s₁ inv₁ apart₁ _ about => ?_
  cases validation with
  | none => exact refused apart₁ fun _ _ same => by cases same
  | some d =>
    have atV := about d rfl
    refine Method.runs_ite (fun allowed => ?_) fun _ => refused apart₁ fun _ _ same => by cases same
    refine deciding_bind inv₁ (deciding_temporalOk inv₁ apart₁ i true) fun out s₂ inv₂ apart₂ grown₂ timely => ?_
    obtain ⟨ok, late⟩ := out
    refine Method.runs_ite (fun onTime => ?_) fun _ => refused apart₂ fun _ _ same => by cases same
    refine deciding_bind inv₂ (deciding_askEngine inv₂ apart₂ preds (some d.readsetVersion)) fun gate s₃ _ apart₃ grown₃ about' => ?_
    cases gate with
    | none => exact refused apart₃ fun _ _ same => by cases same
    | some g =>
      have atG := about' g rfl
      have atV' := (atV.grows grown₂.patches).grows grown₃.patches
      obtain ⟨now, shown, timely⟩ := timely onTime
      refine Method.runs_ite (fun passes => ?_) fun _ => refused apart₃ fun _ _ same => by cases same
      have allowedG : g.allow = true := by
        cases versioned with
        | false => exact passes
        | true => exact (atG.versioned passes).1
      refine deciding_pure apart₃ fun s' later v' g' same => ?_
      cases same
      refine OpaAllowed.grows ⟨atV'.bound allowed, atG.bound allowedG, atV'.allow allowed, atG.allow allowedG, ?_, now, ?_, timely⟩ later
      · rintro rfl
        rw [← atG.readset allowedG, ← atV'.readset allowed]
        exact (Option.some.inj (atG.versioned passes).2).symm
      · exact grown₃.times.subset shown

/-! ### The policies -/

/-- The versions that the answer names are those that the run has decided on. -/
def PolicyResult.Reports (r : PolicyResult) (s : Bench) (entry : Released) : Mode → Prop
  | .opa _ => ∀ v g, entry.versions = some (v, g) → r.contextVersion = some v ∧ r.gateReadVersion = some g
  | .localAuthoritative scope => ∀ i v g, entry.intent = some i → entry.versions = some (v, g) → g ≤ s.store.patches.length ∧
      r.contextVersion = some (snapshotVersion scope ⟨atVersion s.store.patches g, Dict.empty, true⟩ (readSet i.predicates))
  | _ => True

/-- The answer tells what the run has done: one release under its policy, or none. -/
inductive PolicyResult.Tells (r : PolicyResult) (mode : Mode) (intent : Option ActionIntent) (t : Nat) (s : Bench) : Prop
  | released (told : r.gatewayReleased = true) (outcome : r.outcome = .execute) (baseline : r.baseline = mode.baseline)
    (versions : Option (Nat × Nat)) (once : s.releasesOf t = [⟨t, mode, intent, versions⟩]) (reports : r.Reports s ⟨t, mode, intent, versions⟩ mode)
  | withheld (told : r.gatewayReleased = false) (outcome : r.outcome = .revoke) (nothing : s.releasesOf t = [])

/-- The end of a run. -/
structure Bench.Answered (t : Nat) (mode : Mode) (intent : Option ActionIntent) (r : PolicyResult) (s : Bench) : Prop where
  free : s.opaLock ≠ some t
  tells : r.Tells mode intent t s

theorem PolicyResult.Reports.grows {r : PolicyResult} {entry : Released} {mode : Mode} (h : r.Reports s entry mode) (grown : s.Grows s') :
    r.Reports s' entry mode := by
  cases mode with
  | opa versioned => exact h
  | localAuthoritative scope =>
    intro i v g its versions
    obtain ⟨bound, told⟩ := h i v g its versions
    have reach := grown.patches.length_le
    obtain ⟨more, longer⟩ := grown.patches
    rw [← longer, atVersion_append bound]
    rw [← longer] at reach
    exact ⟨by omega, told⟩
  | _ => trivial

theorem answered_revoke (apart : s.Apart t) {mode : Mode} {intent : Option ActionIntent} {r : PolicyResult} (told : r.gatewayReleased = false)
    (outcome : r.outcome = .revoke) :
    Serving cfg t job (pure r) s (fun r s' => s'.Answered t mode intent r) (Bench.Apart t) :=
  serving_pure fun _ rely => ⟨(apart.awaits rely).free, .withheld told outcome (apart.awaits rely).unreleased⟩

theorem answered_execute (inv : s.Consistent cfg) (apart : s.Apart t) {mode : Mode} {intent : Option ActionIntent} (reason : Str)
    {versions : Option (Nat × Nat)} {contextVersion gateReadVersion : Option Nat} (justified : Released.Justified cfg s ⟨t, mode, intent, versions⟩)
    (reports : PolicyResult.Reports ⟨mode.baseline, .execute, reason, true, contextVersion, gateReadVersion⟩ s ⟨t, mode, intent, versions⟩ mode) :
    Serving cfg t job (mode.execute t intent reason versions contextVersion gateReadVersion) s
      (fun r s' => s'.Answered t mode intent r) (Bench.Apart t) := by
  refine serving_bind (P := fun _ s' => s.Grows s' ∧ s'.opaLock ≠ some t ∧ s'.releasesOf t = [⟨t, mode, intent, versions⟩]) inv ?_ ?_
  · refine serving_sure (fun _ _ may => may) (fun s' rely _ _ => ⟨rfl, justified.grows rely.grows⟩) fun s' rely inv' _ s'' later => ?_
    have here := apart.awaits rely
    have moved := (inv'.exec cfg (t := t) (c := .release ⟨t, mode, intent, versions⟩) ⟨rfl, justified.grows rely.grows⟩).2
    refine ⟨(rely.grows.trans moved.grows).trans later.grows, later.free here.free, later.own.trans ?_⟩
    change (s'.releases ++ [_]).filter _ = _
    rw [List.filter_append, show s'.releases.filter _ = [] from here.unreleased]
    simp
  · rintro _ s' _ ⟨grown, free, once⟩
    exact serving_pure fun s'' later => ⟨later.free free,
      .released rfl rfl rfl versions (later.own.trans once) ((reports.grows grown).grows later.grows)⟩

/-- A policy on the gateway's own cache. -/
def Mode.Cached : Mode → Prop
  | .localFresh | .localStale | .localPush _ => True
  | _ => False

theorem answered_validateCache (inv : s.Consistent cfg) (apart : s.Apart t) {mode : Mode} (cached : mode.Cached) (i : ActionIntent)
    (timedOut : Nat → Bool) (refreshed : mode.refreshes = true → ∃ w ∈ s.cacheWrites, w.ticket = t ∧ w.version.isSome = true) :
    Serving cfg t job (validateCache mode t i timedOut) s (fun r s' => s'.Answered t mode (some i) r) (Bench.Apart t) := by
  refine deciding_bind (P := fun context s' => ∃ writes, writes <+: s'.cacheWrites ∧ s.cacheWrites <+: writes ∧ context = cacheAfter writes)
    inv ?_ fun context s₁ inv₁ apart₁ grown₁ read => ?_
  · refine deciding_ask apart (fun _ _ => trivial) (fun _ => ⟨rfl, rfl⟩) fun s' before inv' s'' later => ?_
    exact ⟨s'.cacheWrites, later.cacheWrites, before.cacheWrites, inv'.cache⟩
  obtain ⟨writes, known, since, rfl⟩ := read
  refine deciding_bind inv₁ (deciding_validateLocally inv₁ apart₁ i _ timedOut false) fun out s₂ inv₂ apart₂ grown₂ accepted => ?_
  obtain ⟨ok, reason⟩ := out
  refine Method.runs_ite (fun yes => ?_) fun _ => answered_revoke apart₂ rfl rfl
  obtain ⟨satisfied, now, shown, timely⟩ := accepted yes
  have basis : ∃ writes, writes <+: s₂.cacheWrites ∧ (cacheAfter writes).Satisfies i.predicates ∧
      (mode.refreshes = true → ∃ w ∈ writes, w.ticket = t ∧ w.version.isSome = true) := by
    refine ⟨writes, known.trans grown₂.cacheWrites, satisfied, fun refreshes => ?_⟩
    obtain ⟨w, member, its⟩ := refreshed refreshes
    exact ⟨w, since.subset member, its⟩
  refine answered_execute inv₂ apart₂ _ (Or.inr ⟨i, rfl, ⟨now, shown, timely⟩, ?_⟩) ?_
  · cases mode with
    | localFresh | localStale | localPush => exact basis
    | _ => exact cached.elim
  · cases mode with
    | localFresh | localStale | localPush => trivial
    | _ => exact cached.elim

theorem answered_localPolicy (inv : s.Consistent cfg) (apart : s.Apart t) (mode : Mode) (cached : mode.Cached) (i : ActionIntent)
    (timedOut : Nat → Bool) :
    Serving cfg t job (localPolicy mode t i timedOut) s (fun r s' => s'.Answered t mode (some i) r) (Bench.Apart t) := by
  refine Method.runs_ite (fun refreshes => ?_) fun stale => answered_validateCache inv apart cached i timedOut fun refreshes => absurd refreshes stale
  refine deciding_bind inv (deciding_pullContext inv apart) fun doc s₁ inv₁ apart₁ _ read => ?_
  refine Method.runs_ite (fun trusted => ?_) fun _ => answered_revoke apart₁ rfl rfl
  have of : ∀ {s' : Bench}, s₁.Grows s' → CacheWrite.Of ⟨t, some doc.snapshot.version, doc.snapshot.context⟩ s'.store.patches := by
    intro s' grown v its
    obtain rfl := Option.some.inj its
    obtain ⟨_, bound, same⟩ := (read.grows grown) trusted
    exact ⟨bound, congrArg Snapshot.context same⟩
  refine deciding_bind (P := fun _ s' => ∃ w ∈ s'.cacheWrites, w.ticket = t ∧ w.version.isSome = true) inv₁ ?_
    fun _ s₂ inv₂ apart₂ _ merged => answered_validateCache inv₂ apart₂ cached i timedOut fun _ => merged
  refine deciding_ask apart₁ (fun _ grown => of grown) (fun _ => ⟨rfl, rfl⟩) fun s' _ _ s'' later => ?_
  exact ⟨⟨t, some doc.snapshot.version, doc.snapshot.context⟩, later.cacheWrites.subset (List.mem_append_right _ (List.mem_singleton_self _)), rfl, rfl⟩

theorem answered_localAuthoritativePolicy (inv : s.Consistent cfg) (apart : s.Apart t) (scope : VersionScope) (i : ActionIntent)
    (timedOut : Nat → Nat → Bool) : Serving cfg t job (localAuthoritativePolicy scope t i timedOut) s
      (fun r s' => s'.Answered t (.localAuthoritative scope) (some i) r) (Bench.Apart t) := by
  refine deciding_bind inv (deciding_pullContext inv apart) fun doc s₁ inv₁ apart₁ _ read => ?_
  refine Method.runs_ite (fun trusted => ?_) fun _ => answered_revoke apart₁ rfl rfl
  refine deciding_bind inv₁ (deciding_validateLocally inv₁ apart₁ i _ (timedOut 0) false) fun out s₂ inv₂ apart₂ grown₂ accepted => ?_
  obtain ⟨ok, reason⟩ := out
  refine Method.runs_ite (fun yes => ?_) fun _ => answered_revoke apart₂ rfl rfl
  refine deciding_bind inv₂ (deciding_pullContext inv₂ apart₂) fun gate s₃ inv₃ apart₃ grown₃ readGate => ?_
  refine Method.runs_ite (fun trustedGate => ?_) fun _ => answered_revoke apart₃ rfl rfl
  refine Method.runs_ite (fun unmoved => ?_) fun _ => answered_revoke apart₃ rfl rfl
  refine deciding_bind inv₃ (deciding_validateLocally inv₃ apart₃ i _ (timedOut 1) true) fun out s₄ inv₄ apart₄ grown₄ acceptedGate => ?_
  obtain ⟨okGate, reasonGate⟩ := out
  refine Method.runs_ite (fun yesGate => ?_) fun _ => answered_revoke apart₄ rfl rfl
  obtain ⟨satisfied, now, shown, timely⟩ := accepted yes
  obtain ⟨_, nowGate, shownGate, timelyGate⟩ := acceptedGate yesGate
  obtain ⟨_, _, atV⟩ := (((read.grows grown₂).grows grown₃).grows grown₄) trusted
  obtain ⟨after, bound, atG⟩ := (readGate.grows grown₄) trustedGate
  have order : doc.snapshot.version ≤ gate.snapshot.version := by
    have before := (read.grows grown₂ trusted).2.1
    omega
  refine answered_execute inv₄ apart₄ _ (Or.inr ⟨i, rfl, ⟨now, grown₄.times.subset (grown₃.times.subset shown), timely⟩, ?_⟩) ?_
  · refine ⟨doc.snapshot.version, gate.snapshot.version, rfl, order, bound, fun its => ?_, fun n late early expr member => ?_, nowGate, shownGate, timelyGate⟩
    · subst its
      exact unmoved.symm
    · have heldV : truth expr (atVersion s₄.store.patches doc.snapshot.version).context = .ok true := by
        rw [← atV]
        exact satisfied expr member
      by_cases global : scope = .global
      · obtain rfl : n = doc.snapshot.version := by
          rw [snapshotVersion, snapshotVersion, if_pos global, if_pos global] at unmoved
          omega
        exact heldV
      · rw [snapshotVersion, snapshotVersion, if_neg global, if_neg global, atG, atV] at unmoved
        rw [truth, checkExpression_of_readSetVersion_eq inv₄.store.wf bound unmoved member late early]
        exact heldV
  · intro i' v g its versions
    cases its
    cases versions
    refine ⟨bound, ?_⟩
    rw [← atG]
    rfl

theorem answered_opaPolicy (inv : s.Consistent cfg) (apart : s.Apart t) (versioned : Bool) (i : ActionIntent) :
    Serving cfg t job (opaPolicy versioned t i) s (fun r s' => s'.Answered t (.opa versioned) (some i) r) (Bench.Apart t) := by
  unfold opaPolicy
  cases parsed : opaPredicates i with
  | none => exact answered_revoke apart rfl rfl
  | some preds =>
    refine deciding_bind inv (deciding_temporalOk inv apart i false) fun out s₁ inv₁ apart₁ _ timely => ?_
    obtain ⟨ok, late⟩ := out
    refine Method.runs_ite (fun yes => ?_) fun _ => answered_revoke apart₁ rfl rfl
    obtain ⟨now, shown, timely⟩ := timely yes
    refine deciding_bind (P := fun verdict s' => ∀ v g, verdict = some (.allowed v g) → OpaAllowed cfg versioned i preds v g s') inv₁ ?_
      fun verdict s₂ inv₂ apart₂ grown₂ found => ?_
    · refine serving_tryCatch (P := Bench.Apart t) inv₁ ?_ fun _ s' _ apart' => deciding_pure apart' fun _ _ v g none => by cases none
      refine deciding_bind inv₁ (deciding_opaGate inv₁ apart₁ versioned i preds) fun verdict s' _ apart' _ found => ?_
      exact deciding_pure apart' fun s'' later v g its => (found v g (Option.some.inj its)).grows later
    · cases verdict with
      | none => exact answered_revoke apart₂ rfl rfl
      | some verdict =>
        cases verdict with
        | denied version => exact answered_revoke apart₂ rfl rfl
        | withheld reason version gateVersion => exact answered_revoke apart₂ rfl rfl
        | allowed v g =>
          have allowed := found v g rfl
          refine answered_execute inv₂ apart₂ _ (Or.inr ⟨i, rfl, ⟨now, grown₂.times.subset shown, timely⟩, ?_⟩) fun v' g' its => ?_
          · exact ⟨v, g, preds, rfl, parsed, allowed.boundV, allowed.boundG, allowed.allowedV, allowed.allowedG,
              fun its n late early => allow_between inv₂.store.wf parsed allowed.boundV allowed.boundG (allowed.unmoved its) allowed.allowedV late early,
              allowed.timely⟩
          · cases its
            exact ⟨rfl, rfl⟩

theorem answered_validatingPolicy (inv : s.Consistent cfg) (apart : s.Apart t) {mode : Mode} (other : mode ≠ .direct) (i : ActionIntent)
    (timedOut : Nat → Nat → Bool) :
    Serving cfg t job (validatingPolicy mode t i timedOut) s (fun r s' => s'.Answered t mode (some i) r) (Bench.Apart t) := by
  cases mode with
  | direct => exact absurd rfl other
  | unknown name => exact answered_revoke apart rfl rfl
  | naive =>
    refine deciding_bind inv (deciding_temporalOk inv apart i false) fun out s₁ inv₁ apart₁ _ timely => ?_
    obtain ⟨ok, late⟩ := out
    refine Method.runs_ite (fun yes => ?_) fun _ => answered_revoke apart₁ rfl rfl
    exact answered_execute inv₁ apart₁ _ (Or.inr ⟨i, rfl, timely yes, trivial⟩) trivial
  | localFresh => exact answered_localPolicy inv apart .localFresh trivial i (timedOut 0)
  | localStale => exact answered_localPolicy inv apart .localStale trivial i (timedOut 0)
  | localPush notified => exact answered_localPolicy inv apart (.localPush notified) trivial i (timedOut 0)
  | localAuthoritative scope => exact answered_localAuthoritativePolicy inv apart scope i timedOut
  | opa versioned => exact answered_opaPolicy inv apart versioned i

/-- `process_intent_payload` answers for what it has done, in every mode. -/
theorem answered_processIntentPayload (inv : s.Consistent cfg) (apart : s.Apart t) (mode : Mode) (body : Except Str ActionIntent)
    (timedOut : Nat → Nat → Bool) : Serving cfg t job (processIntentPayload mode t body timedOut) s
      (fun r s' => s'.Answered t mode body.toOption r) (Bench.Apart t) := by
  refine Method.runs_ite (fun direct => ?_) fun other => ?_
  · subst direct
    exact answered_execute inv apart _ (Or.inl rfl) trivial
  · cases body with
    | error reason => exact answered_revoke apart rfl rfl
    | ok i => exact answered_validatingPolicy inv apart other i timedOut

/-! ### Runs -/

/-- How a request leaves the bench: without the lock, and an intent with an answer that tells what was done, or with nothing done. -/
def BenchJob.Ended (t : Nat) (out : Except HttpError BenchAnswer) (s : Bench) : BenchJob → Prop
  | .update _ | .context _ => s.opaLock ≠ some t
  | .intent mode body _ =>
    match out with
    | .ok (.result r) => s.Answered t mode body.toOption r
    | .ok _ => False
    | .error _ => s.Apart t

variable (cfg) in
def benchContract : Contract (bench cfg) (baselines cfg) (serving cfg) where
  Starts _ := True
  May _ _ c s fate := c.May s fate
  LocalOk _ _ := True
  Fresh := Bench.Apart
  Since _ _ _ := True
  Post t job out s := job.Ended t out s
  local_rely _ _ _ _ _ _ _ _ := trivial
  fresh_rely _ _ _ apart rely := apart.awaits rely
  since_fresh _ _ _ _ := trivial
  since_step _ _ _ _ _ _ := trivial
  since_rely _ _ _ _ _ _ := trivial
  env_inv change _ inv := (inv.change (t := 0) change).1
  env_rely change t _ inv := (inv.change (t := t) change).2

/-- A request that only has to leave the lock to others. -/
theorem serving_request (inv : s.Consistent cfg) (free : s.opaLock ≠ some t) {m : BenchHandler cfg α}
    (h : ∀ s', s'.Consistent cfg → Serving cfg t job m s' (fun _ s'' => s''.opaLock ≠ some t) fun s'' => s''.opaLock ≠ some t) :
    Serving cfg t job (request m) s (fun _ s' => s'.opaLock ≠ some t) fun s' => s'.opaLock ≠ some t := by
  have sent : ∀ {s : Bench}, s.opaLock ≠ some t → Serving cfg t job (ask .send) s (fun _ s' => s'.opaLock ≠ some t)
      fun s' => s'.opaLock ≠ some t := by
    intro s₀ free
    refine serving_ask (s := s₀) (fun _ _ _ _ => trivial) (fun s' rely _ _ s'' later => later.free (rely.free free)) fun s' fate rely _ _ _ s'' later => ?_
    have still : (Bench.exec cfg .send s').2.opaLock ≠ some t := rely.free free
    exact later.free ((bench cfg).perform_of (P := fun s' => s'.opaLock ≠ some t) (rely.free free) still fate)
  refine serving_bind inv (sent free) fun _ s₁ inv₁ _ => ?_
  refine serving_bind inv₁ (h s₁ inv₁) fun out s₂ inv₂ free₂ => ?_
  exact serving_bind inv₂ (sent free₂) fun _ s₃ _ free₃ => serving_pure fun s' later => later.free free₃

theorem serving_processContextPayload (inv : s.Consistent cfg) (free : s.opaLock ≠ some t) {data : Members} (wf : data.WF) :
    Serving cfg t job (processContextPayload t data) s (fun _ s' => s'.opaLock ≠ some t) fun s' => s'.opaLock ≠ some t := by
  refine serving_bind (P := fun _ s' => s'.opaLock ≠ some t) inv ?_ fun _ s₁ inv₁ free₁ => ?_
  · refine serving_sure (fun _ _ may => may) (fun _ _ _ _ v its => by cases its) fun s' rely _ _ s'' later => ?_
    exact later.free (rely.free free)
  · refine serving_tryCatch (P := fun s' => s'.opaLock ≠ some t) inv₁ ?_ fun _ s' _ free => serving_pure fun s'' later => later.free free
    refine serving_bind inv₁ (serving_request inv₁ free₁ fun s' inv' => serving_updateAndReplicate inv' wf) fun out s₂ _ free₂ => ?_
    exact serving_pure fun s' later => later.free free₂

theorem Bench.Answered.awaits {mode : Mode} {intent : Option ActionIntent} {r : PolicyResult} (h : s.Answered t mode intent r)
    (rely : s.Awaits t s') : s'.Answered t mode intent r := by
  refine ⟨rely.free h.free, ?_⟩
  cases h.tells with
  | released told outcome baseline versions once reports =>
    exact .released told outcome baseline versions (rely.own.trans once) (reports.grows rely.grows)
  | withheld told outcome nothing => exact .withheld told outcome (rely.own.trans nothing)

theorem safe_benchJob (inv : s.Consistent cfg) (apart : s.Apart t) (job : BenchJob) :
    Safe (serving cfg) t job (fun c s fate => c.May s fate) ((baselines cfg).code job t ()) s (Pool.Ended (benchContract cfg) t job) := by
  have ended : ∀ {m : BenchHandler cfg BenchAnswer} (ok : BenchAnswer → Bench → Prop) {raised : Bench → Prop}, Serving cfg t job m s ok raised →
      (∀ a s', ok a s' → job.Ended t (.ok a) s') → (∀ e s', raised s' → job.Ended t (.error e) s') →
      Safe (serving cfg) t job (fun c s fate => c.May s fate) (m.program ()) s (Pool.Ended (benchContract cfg) t job) := by
    intro m ok raised runs returned thrown
    refine Safe.imp runs fun out s' _ ends => ⟨?_, trivial⟩
    obtain ⟨result, l⟩ := out
    cases result with
    | ok a => exact returned a s' ends
    | error e => exact thrown e s' ends
  cases job with
  | update patch =>
    refine ended (fun _ s' => s'.opaLock ≠ some t) (serving_bind inv (serving_updateAndReplicate inv patch.wf) fun out s' _ free => ?_)
      (fun _ _ free => free) fun _ _ free => free
    exact serving_pure fun s'' later => later.free free
  | context data =>
    refine ended (fun _ s' => s'.opaLock ≠ some t) (serving_bind inv (serving_processContextPayload inv apart.free data.wf)
      fun out s' _ free => ?_) (fun _ _ free => free) fun _ _ free => free
    exact serving_pure fun s'' later => later.free free
  | intent mode body timedOut =>
    refine ended (fun a s' => BenchJob.Ended t (.ok a) s' (.intent mode body timedOut)) (serving_bind inv
      (answered_processIntentPayload inv apart mode body timedOut) fun r s' _ answered => ?_) (fun _ _ ends => ends) fun _ _ apart => apart
    exact serving_pure fun s'' later => answered.awaits later

/-- A bench on an empty store, and any requests. -/
abbrev benchStart (cfg : SiteConfig) (clock : ℚ) : Pool (bench cfg) (baselines cfg) := Pool.init (Bench.init clock) fun _ => ()

theorem sound_bench (clock : ℚ) {events : List (PoolEvent (bench cfg) (baselines cfg))}
    (accepted : Pool.Along (Pool.Allows fun _ _ c s fate => BenchCommand.May s fate c) (benchStart cfg clock) events) :
    Pool.Sound (benchContract cfg) ((benchStart cfg clock).run events) := by
  have start : Pool.Sound (benchContract cfg) (benchStart cfg clock) :=
    Pool.sound_init (Bench.consistent_init cfg clock) (fun _ => trivial) fun t => ⟨by simp [Bench.init], rfl⟩
  refine start.run (fun t job l s _ inv _ apart => safe_benchJob inv apart job) (accepted.imp fun e _ P allowed => ?_)
  cases e with
  | start pid job => trivial
  | step pid fate =>
    intro t job c next busy
    exact Pool.Allows.command allowed busy
  | env change => trivial

end

/-! ### A gate between two copies -/

def runningLine : Members := .single "line" (.obj (.single "state" (.str "RUN".toList)))

def otherLine : Members := .single "other" (.bool true)

theorem runningLine_wf : runningLine.WF := by simp [runningLine, Members.WF, Json.WF, Members.keys]

theorem otherLine_wf : otherLine.WF := by simp [otherLine, Members.WF, Json.WF, Members.keys]

abbrev BenchEvent := @PoolEvent (@bench PyText.ascii regoConfig) (@baselines PyText.ascii regoConfig)

/-- The line runs, the engine allows the intent, another line is replicated, and the gate finds the read-set unmoved. -/
def enginesRun : List BenchEvent :=
  .start 0 (.update ⟨runningLine, runningLine_wf⟩) :: List.replicate 7 (.step 0 .done) ++
    .start 1 (.intent (.opa true) (.ok whenRunning) fun _ _ => false) :: List.replicate 2 (.step 1 .done) ++
    .start 2 (.update ⟨otherLine, otherLine_wf⟩) :: List.replicate 7 (.step 2 .done) ++ List.replicate 4 (.step 1 .done)

theorem enginesRun_accepted : Pool.Along (Pool.Allows fun _ _ c s fate => BenchCommand.May s fate c)
    (@benchStart PyText.ascii regoConfig 0) enginesRun := by decide +kernel

end Xair
