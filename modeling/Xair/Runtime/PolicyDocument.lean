import Xair.Runtime.Mandates

/-!
# The operator's policy document

`set_policy` reads a JSON object into three dictionaries. Keys are stripped and upper-cased first,
so two entries of the document may fill the same place.
-/

namespace Xair

open Library

/-- `str(value)` of a JSON value. A string is itself. -/
class PyStr where
  str : Json → Str
  str_string : ∀ s, str (.str s) = s

/-- `str` of strings, constants and integers; no float, list or object is rendered. -/
@[reducible] def PyStr.plain : PyStr where
  str
    | .str s => s
    | .null => "None".toList
    | .bool b => (if b then "True" else "False").toList
    | .int n => intText n
    | _ => []
  str_string _ := rfl

namespace ActionClass

def name : ActionClass → String
  | stop => "stop"
  | start => "start"
  | motion => "motion"
  | reset => "reset"
  | shutdown => "shutdown"
  | other => "other"

/-- The member of `ACTION_CLASSES` with this name. -/
def ofName (name : Str) : Option ActionClass :=
  [stop, start, motion, reset, shutdown, other].find? fun c => decide (c.name.toList = name)

end ActionClass

def Elems.toList : Elems → List Json
  | .nil => []
  | .cons head tail => head :: tail.toList

def Members.toList : Members → List (Str × Json)
  | .nil => []
  | .cons key value rest => (key, value) :: rest.toList

/-- What `for e in value` goes through; `none` is its `TypeError`. -/
def Json.elements : Json → Option (List Json)
  | .arr xs => some xs.toList
  | .str s => some (s.map fun c => .str [c])
  | .obj m => some (m.keys.map .str)
  | .null | .bool _ | .int _ | .float _ => none

/-- What an entry of the document is about. -/
inductive Slot where
  | action (key : Str) (cls : ActionClass)
  | cls (cls : ActionClass)
  deriving DecidableEq

def Slot.actionClass : Slot → ActionClass
  | action _ c | cls c => c

/-- The dictionary key that an entry fills. -/
def Slot.place : Slot → Str ⊕ ActionClass
  | action key _ => .inl key
  | cls c => .inr c

section

variable [PyText] [PyStr]

/-- `[str(e) for e in value]`. -/
def predicateTexts (value : Json) : Option (List Str) := value.elements.map (·.map PyStr.str)

/-- An action entry's class and the value that lists its predicates. -/
def actionFields : Json → Except PyError (Str × Json)
  | .obj m =>
    if m.keys.all fun k => decide (k = "class".toList ∨ k = "require".toList) then
      .ok (PyText.lower (strip (PyStr.str ((m.get "class".toList).getD (.str "other".toList)))),
        (m.get "require".toList).getD (.arr .nil))
    else .error .valueError
  | value => .ok ("other".toList, value)

/-- A stop carries no predicates. -/
def checkStop (slot : Slot) (require : Json) : Except PyError (Slot × Json) :=
  if slot.actionClass.riskReducing && require.truthy then .error .valueError else .ok (slot, require)

/-- The checks of one entry: what it is about, and the value that lists its predicates. -/
def entrySlot (key : Str) (value : Json) : Except PyError (Slot × Json) :=
  let key := strip key
  if startsWith "class:".toList (PyText.lower key) then
    match ActionClass.ofName (PyText.lower (strip (key.drop 6))) with
    | none => .error .valueError
    | some c => checkStop (.cls c) value
  else
    match actionFields value with
    | .error e => .error e
    | .ok (name, require) =>
      match ActionClass.ofName name with
      | none => .error .valueError
      | some c => checkStop (.action (PyText.upper key) c) require

def readEntry (key : Str) (value : Json) : Except PyError (Slot × List Str) :=
  match entrySlot key value with
  | .error e => .error e
  | .ok (slot, require) =>
    match predicateTexts require with
    | none => .error .typeError
    | some exprs => .ok (slot, exprs)

/-- An entry read into the dictionaries. -/
def Policy.add (policy : Policy) : Slot × List Str → Policy
  | (.action key c, exprs) =>
    { policy with actions := policy.actions.insert key exprs, classes := policy.classes.insert key c }
  | (.cls c, exprs) => { policy with classPredicates := policy.classPredicates.insert c exprs }

/-- The loop of `set_policy`. -/
def readPolicy : Members → Policy → Except PyError Policy
  | .nil, policy => .ok policy
  | .cons key value rest, policy =>
    match readEntry key value with
    | .error e => .error e
    | .ok entry => readPolicy rest (policy.add entry)

/-- `set_policy`. -/
def setPolicy (document : Members) : RuntimeM (Dict Str (List Str)) :=
  match readPolicy document .empty with
  | .error e => throw (.py e)
  | .ok policy => do
    modify fun rt => { rt with policy := policy }
    return policy.actions

/-! ### What a document says -/

/-- What an entry says is so for every intent that it is about; predicates are added once. -/
def Honoured (policy : Policy) : Slot × List Str → Prop
  | (.action key c, exprs) => ∀ i, actionKey i = key → policy.actionClass i = c ∧
      (i.policyAdded = none → ∀ e ∈ exprs, e ∈ (policy.applyTo i).1.predicates)
  | (.cls c, exprs) => ∀ i, policy.actionClass i = c → i.policyAdded = none → ∀ e ∈ exprs, e ∈ (policy.applyTo i).1.predicates

/-- The document is refused with a `ValueError` that changes nothing, or it is installed as it reads. -/
def InstallsAsRead (document : Members) (rt : Runtime) : Prop :=
  Ends (setPolicy document) rt
    (fun _ rt' => (∀ key value, (key, value) ∈ document.toList → ∃ entry, readEntry key value = .ok entry ∧ Honoured rt'.policy entry) ∧
      ∀ i, rt'.policy.actionClass i = .stop → rt'.policy.mandated i = [])
    fun e rt' => e = .py .valueError ∧ rt'.policy = rt.policy

/-- The entry passes the checks, but nothing can be iterated where its predicates should be listed. -/
def Unlisted (key : Str) (value : Json) : Prop :=
  ∃ slot require, entrySlot key value = .ok (slot, require) ∧ require.elements = none

omit [PyText] [PyStr] in
/-- The entry is the last for its place. -/
def Final (entries : List (Slot × List Str)) (entry : Slot × List Str) : Prop :=
  ∃ before after, entries = before ++ entry :: after ∧ ∀ e ∈ after, e.1.place ≠ entry.1.place

/-- The entry that fills the place in the end keeps what the first one says. -/
def Covers (entries : List (Slot × List Str)) : Slot × List Str → Slot × List Str → Prop
  | (.action _ c, exprs), (slot, final) => slot.actionClass = c ∧
      ∀ e ∈ exprs, e ∈ final ∨ ∃ wide, Final entries (.cls c, wide) ∧ e ∈ wide
  | (.cls c, exprs), (_, final) => ∀ e ∈ exprs, e ∈ final ∨
      c ≠ .other ∧ ∀ key own, Final entries (.action key c, own) → e ∈ own

/-- Entries whose keys differ only in spelling lose nothing that the last one does not say. -/
def Lossless (entries : List (Slot × List Str)) : Prop :=
  ∀ entry ∈ entries, ∀ last, Final entries last → last.1.place = entry.1.place → Covers entries entry last

/-- All entries, if none is refused. -/
def readEntries : List (Str × Json) → Except PyError (List (Slot × List Str))
  | [] => .ok []
  | (key, value) :: rest =>
    match readEntry key value with
    | .error e => .error e
    | .ok entry => (readEntries rest).map (entry :: ·)

/-! ### Reading -/

theorem readPolicy_eq (document : Members) (policy : Policy) :
    readPolicy document policy = (readEntries document.toList).map fun entries => entries.foldl Policy.add policy := by
  induction document generalizing policy with
  | nil => rfl
  | cons key value rest ih =>
    rw [readPolicy, Members.toList, readEntries]
    cases readEntry key value with
    | error e => rfl
    | ok entry =>
      simp only [ih]
      cases readEntries rest.toList <;> rfl

omit [PyText] [PyStr] in
theorem checkStop_ok {slot slot' : Slot} {require require' : Json} (h : checkStop slot require = .ok (slot', require')) :
    slot' = slot ∧ require' = require ∧ (slot.actionClass = .stop → require.truthy = false) := by
  unfold checkStop at h
  split at h
  · cases h
  · rename_i allowed
    obtain ⟨rfl, rfl⟩ := Prod.mk.inj (Except.ok.inj h)
    refine ⟨rfl, rfl, fun stop => ?_⟩
    rw [stop] at allowed
    exact Bool.eq_false_iff.mpr allowed

omit [PyText] [PyStr] in
theorem checkStop_error {slot : Slot} {require : Json} {e : PyError} (h : checkStop slot require = .error e) : e = .valueError := by
  unfold checkStop at h
  split at h
  · exact (Except.error.inj h).symm
  · cases h

theorem entrySlot_error {key : Str} {value : Json} {e : PyError} (h : entrySlot key value = .error e) : e = .valueError := by
  unfold entrySlot at h
  dsimp only at h
  split at h
  · split at h
    · exact (Except.error.inj h).symm
    · exact checkStop_error h
  · split at h
    · rename_i refused
      unfold actionFields at refused
      split at refused
      · split at refused
        · cases refused
        · rw [← Except.error.inj h, ← Except.error.inj refused]
      · cases refused
    · split at h
      · exact (Except.error.inj h).symm
      · exact checkStop_error h

theorem entrySlot_ok {key : Str} {value : Json} {slot : Slot} {require : Json} (h : entrySlot key value = .ok (slot, require)) :
    (slot.actionClass = .stop → require.truthy = false) ∧ ∀ k c, slot = .action k c → k = PyText.upper (strip key) := by
  unfold entrySlot at h
  dsimp only at h
  split at h
  · split at h
    · cases h
    · obtain ⟨rfl, rfl, stop⟩ := checkStop_ok h
      exact ⟨stop, fun _ _ same => nomatch same⟩
  · split at h
    · cases h
    · split at h
      · cases h
      · obtain ⟨rfl, rfl, stop⟩ := checkStop_ok h
        exact ⟨stop, fun _ _ same => by cases same; rfl⟩

omit [PyText] in
theorem predicateTexts_none {value : Json} : predicateTexts value = none ↔ value.elements = none := Option.map_eq_none_iff

omit [PyText] in
theorem predicateTexts_untruthy {value : Json} {exprs : List Str} (h : predicateTexts value = some exprs) (untruthy : value.truthy = false) :
    exprs = [] := by
  cases value <;> simp_all [predicateTexts, Json.elements, Json.truthy, Elems.toList, Members.keys]

theorem readEntry_error {key : Str} {value : Json} {e : PyError} (h : readEntry key value = .error e) :
    e = .valueError ↔ ¬Unlisted key value := by
  unfold readEntry at h
  split at h
  · rename_i refused
    refine iff_of_true ((Except.error.inj h).symm.trans (entrySlot_error refused)) ?_
    rintro ⟨slot, require, accepted, _⟩
    rw [refused] at accepted
    cases accepted
  · rename_i slot require accepted
    split at h
    · rename_i unlisted
      obtain rfl := Except.error.inj h
      exact iff_of_false nofun fun listed => listed ⟨slot, require, accepted, predicateTexts_none.mp unlisted⟩
    · cases h

theorem readEntry_ok {key : Str} {value : Json} {slot : Slot} {exprs : List Str} (h : readEntry key value = .ok (slot, exprs)) :
    (slot.actionClass = .stop → exprs = []) ∧ ∀ k c, slot = .action k c → k = PyText.upper (strip key) := by
  unfold readEntry at h
  split at h
  · cases h
  · rename_i found
    obtain ⟨stop, named⟩ := entrySlot_ok found
    split at h
    · cases h
    · rename_i listed
      obtain ⟨rfl, rfl⟩ := Prod.mk.inj (Except.ok.inj h)
      exact ⟨fun isStop => predicateTexts_untruthy listed (stop isStop), named⟩

/-- The loop comes to this entry: it accepts all entries before it. -/
def Reaches (items : List (Str × Json)) (key : Str) (value : Json) : Prop :=
  ∃ before after, items = before ++ (key, value) :: after ∧ ∀ x ∈ before, ∃ entry, readEntry x.1 x.2 = .ok entry

theorem readEntries_error {items : List (Str × Json)} {e : PyError} (h : readEntries items = .error e) :
    ∃ key value, Reaches items key value ∧ readEntry key value = .error e := by
  induction items with
  | nil => cases h
  | cons item rest ih =>
    obtain ⟨key, value⟩ := item
    rw [readEntries] at h
    cases read : readEntry key value with
    | error e' =>
      rw [read] at h
      cases h
      exact ⟨key, value, ⟨[], rest, rfl, fun _ member => absurd member List.not_mem_nil⟩, read⟩
    | ok entry =>
      rw [read] at h
      cases later : readEntries rest with
      | ok entries =>
        simp only [later] at h
        cases h
      | error e' =>
        simp only [later] at h
        cases h
        obtain ⟨key', value', ⟨before, after, split, accepted⟩, refused⟩ := ih later
        refine ⟨key', value', ⟨(key, value) :: before, after, by rw [split]; rfl, fun x member => ?_⟩, refused⟩
        rcases List.mem_cons.mp member with rfl | inside
        · exact ⟨entry, read⟩
        · exact accepted x inside

theorem readEntries_of_reaches {items : List (Str × Json)} {key : Str} {value : Json} {e : PyError} (reaches : Reaches items key value)
    (refused : readEntry key value = .error e) : readEntries items = .error e := by
  obtain ⟨before, after, rfl, accepted⟩ := reaches
  induction before with
  | nil => simp only [List.nil_append, readEntries, refused]
  | cons x before ih =>
    obtain ⟨entry, read⟩ := accepted x List.mem_cons_self
    rw [List.cons_append, readEntries, read, ih fun y member => accepted y (List.mem_cons_of_mem _ member)]
    rfl

theorem readEntry_unlisted {key : Str} {value : Json} (h : Unlisted key value) : readEntry key value = .error .typeError := by
  obtain ⟨slot, require, accepted, unlisted⟩ := h
  rw [readEntry, accepted]
  simp only [predicateTexts_none.mpr unlisted]

/-- The entries of an accepted document are those of its items. -/
theorem readEntries_ok {items : List (Str × Json)} {entries : List (Slot × List Str)} (h : readEntries items = .ok entries) :
    (∀ item ∈ items, ∃ entry ∈ entries, readEntry item.1 item.2 = .ok entry) ∧
      ∀ entry ∈ entries, ∃ item ∈ items, readEntry item.1 item.2 = .ok entry := by
  induction items generalizing entries with
  | nil =>
    cases h
    exact ⟨fun _ member => absurd member List.not_mem_nil, fun _ member => absurd member List.not_mem_nil⟩
  | cons item rest ih =>
    rw [readEntries] at h
    cases read : readEntry item.1 item.2 with
    | error e =>
      rw [read] at h
      cases h
    | ok entry =>
      rw [read] at h
      cases later : readEntries rest with
      | error e =>
        simp only [later] at h
        cases h
      | ok more =>
        simp only [later] at h
        cases h
        obtain ⟨forth, back⟩ := ih later
        simp only [List.forall_mem_cons, List.exists_mem_cons_iff]
        exact ⟨⟨Or.inl read, fun x member => Or.inr (forth x member)⟩, Or.inl read, fun x member => Or.inr (back x member)⟩

/-! ### The dictionaries -/

section

omit [PyText] [PyStr]

theorem final_concat {entries : List (Slot × List Str)} {entry x : Slot × List Str} :
    Final (entries ++ [entry]) x ↔ x = entry ∨ entry.1.place ≠ x.1.place ∧ Final entries x := by
  constructor
  · rintro ⟨before, after, split, others⟩
    rcases List.eq_nil_or_concat after with rfl | ⟨front, last, rfl⟩
    · obtain ⟨-, same⟩ := List.append_inj' split rfl
      exact Or.inl (List.cons.inj same).1.symm
    · rw [List.concat_eq_append, ← List.cons_append, ← List.append_assoc] at split
      obtain ⟨rfl, same⟩ := List.append_inj' split rfl
      obtain rfl := (List.cons.inj same).1
      rw [List.concat_eq_append] at others
      exact Or.inr ⟨others entry (List.mem_append_right _ List.mem_cons_self), before, front, rfl,
        fun e member => others e (List.mem_append_left _ member)⟩
  · rintro (rfl | ⟨other, before, after, rfl, others⟩)
    · exact ⟨entries, [], rfl, fun _ member => absurd member List.not_mem_nil⟩
    · refine ⟨before, after ++ [entry], by simp, fun e member => ?_⟩
      rcases List.mem_append.mp member with inside | last
      · exact others e inside
      · rw [List.mem_singleton.mp last]
        exact other

theorem exists_final {entries : List (Slot × List Str)} {entry : Slot × List Str} (member : entry ∈ entries) :
    ∃ last, Final entries last ∧ last.1.place = entry.1.place := by
  induction entries using List.reverseRecOn with
  | nil => cases member
  | append_singleton entries last ih =>
    by_cases same : last.1.place = entry.1.place
    · exact ⟨last, final_concat.mpr (Or.inl rfl), same⟩
    · rcases List.mem_append.mp member with inside | here
      · obtain ⟨final, isFinal, place⟩ := ih inside
        exact ⟨final, final_concat.mpr (Or.inr ⟨by rw [place]; exact same, isFinal⟩), place⟩
      · exact absurd (by rw [List.mem_singleton.mp here]) same

theorem Final.mem {entries : List (Slot × List Str)} {x : Slot × List Str} (h : Final entries x) : x ∈ entries := by
  obtain ⟨before, after, rfl, _⟩ := h
  exact List.mem_append_right _ List.mem_cons_self

theorem final_unique {entries : List (Slot × List Str)} {x y : Slot × List Str} (hx : Final entries x) (hy : Final entries y)
    (same : x.1.place = y.1.place) : x = y := by
  induction entries using List.reverseRecOn with
  | nil => cases hx.mem
  | append_singleton entries last ih =>
    rcases final_concat.mp hx with rfl | ⟨otherX, inX⟩
    · rcases final_concat.mp hy with rfl | ⟨otherY, _⟩
      · rfl
      · exact absurd same otherY
    · rcases final_concat.mp hy with rfl | ⟨_, inY⟩
      · exact absurd same.symm otherX
      · exact ih inX inY

/-- The last entry for a place is what the dictionaries hold. -/
theorem installed_action {entries : List (Slot × List Str)} {key : Str} {c : ActionClass} {exprs : List Str}
    (h : Final entries (.action key c, exprs)) :
    (entries.foldl Policy.add .empty).actions.get key = some exprs ∧ (entries.foldl Policy.add .empty).classes.get key = some c := by
  induction entries using List.reverseRecOn with
  | nil => cases h.mem
  | append_singleton entries last ih =>
    rw [List.foldl_concat]
    rcases final_concat.mp h with rfl | ⟨other, inside⟩
    · exact ⟨Dict.get_insert_self _ _ _, Dict.get_insert_self _ _ _⟩
    · obtain ⟨slot, exprs'⟩ := last
      cases slot with
      | action key' c' =>
        have ne : key ≠ key' := fun same => other (by rw [same]; rfl)
        simp only [Policy.add, Dict.get_insert_ne _ _ ne]
        exact ih inside
      | cls c' => exact ih inside

theorem installed_cls {entries : List (Slot × List Str)} {c : ActionClass} {exprs : List Str} (h : Final entries (.cls c, exprs)) :
    (entries.foldl Policy.add .empty).classPredicates.get c = some exprs := by
  induction entries using List.reverseRecOn with
  | nil => cases h.mem
  | append_singleton entries last ih =>
    rw [List.foldl_concat]
    rcases final_concat.mp h with rfl | ⟨other, inside⟩
    · exact Dict.get_insert_self _ _ _
    · obtain ⟨slot, exprs'⟩ := last
      cases slot with
      | action key' c' => exact ih inside
      | cls c' =>
        have ne : c ≠ c' := fun same => other (by rw [same])
        simp only [Policy.add, Dict.get_insert_ne _ _ ne]
        exact ih inside

/-- What the dictionaries hold comes from an entry. -/
theorem entry_of_installed (entries : List (Slot × List Str)) :
    (∀ key c, (entries.foldl Policy.add .empty).classes.get key = some c → ∃ exprs, Final entries (.action key c, exprs)) ∧
    (∀ key exprs, (entries.foldl Policy.add .empty).actions.get key = some exprs → ∃ c, Final entries (.action key c, exprs)) ∧
    ∀ c exprs, (entries.foldl Policy.add .empty).classPredicates.get c = some exprs → Final entries (.cls c, exprs) := by
  induction entries using List.reverseRecOn with
  | nil => exact ⟨(fun _ _ h => by cases h), (fun _ _ h => by cases h), (fun _ _ h => by cases h)⟩
  | append_singleton entries last ih =>
    obtain ⟨slot, own⟩ := last
    obtain ⟨classes, actions, wide⟩ := ih
    simp only [List.foldl_concat]
    cases slot with
    | action key c =>
      have keep : ∀ {key' c' exprs}, key' ≠ key → Final entries (.action key' c', exprs) →
          Final (entries ++ [(.action key c, own)]) (.action key' c', exprs) := fun ne inside =>
        final_concat.mpr (Or.inr ⟨fun same => ne (Sum.inl.inj same).symm, inside⟩)
      refine ⟨fun key' c' found => ?_, fun key' exprs found => ?_, fun c' exprs found => ?_⟩
      · simp only [Policy.add, Dict.get_insert] at found
        split at found
        · rename_i same
          subst same
          cases found
          exact ⟨own, final_concat.mpr (Or.inl rfl)⟩
        · rename_i ne
          obtain ⟨exprs, inside⟩ := classes key' c' found
          exact ⟨exprs, keep ne inside⟩
      · simp only [Policy.add, Dict.get_insert] at found
        split at found
        · rename_i same
          subst same
          cases found
          exact ⟨c, final_concat.mpr (Or.inl rfl)⟩
        · rename_i ne
          obtain ⟨c', inside⟩ := actions key' exprs found
          exact ⟨c', keep ne inside⟩
      · exact final_concat.mpr (Or.inr ⟨(fun h => by cases h), wide c' exprs found⟩)
    | cls c =>
      refine ⟨fun key' c' found => ?_, fun key' exprs found => ?_, fun c' exprs found => ?_⟩
      · obtain ⟨exprs, inside⟩ := classes key' c' found
        exact ⟨exprs, final_concat.mpr (Or.inr ⟨(fun h => by cases h), inside⟩)⟩
      · obtain ⟨c', inside⟩ := actions key' exprs found
        exact ⟨c', final_concat.mpr (Or.inr ⟨(fun h => by cases h), inside⟩)⟩
      · simp only [Policy.add, Dict.get_insert] at found
        split at found
        · rename_i same
          subst same
          cases found
          exact final_concat.mpr (Or.inl rfl)
        · rename_i ne
          exact final_concat.mpr (Or.inr ⟨fun same => ne (Sum.inr.inj same).symm, wide c' exprs found⟩)

end

/-! ### Intents of an action type -/

/-- An intent that declares no predicates, with this action type. -/
def bareIntent (actionType : Str) : ActionIntent where
  id := []
  source := []
  timestampDecision := 0
  freshnessWindowMs := 0
  payload := ⟨actionType, [], .nil, .none⟩
  deadlineMs := none
  preconditions := []
  safetyConstraints := []
  priority := 0
  policyAdded := none

omit [PyStr] in
theorem carried_bareIntent {policy : Policy} {actionType e : Str}
    (h : e ∈ (policy.applyTo (bareIntent actionType)).1.predicates) : e ∈ policy.mandated (bareIntent actionType) := by
  have listed : e ∈ uniqueFirst ((policy.mandated (bareIntent actionType)).filter fun e => decide (e ∉ ([] : List Str) ∧ e ∉ ([] : List Str))) := h
  exact (List.mem_filter.mp (mem_uniqueFirst.mp listed)).1

omit [PyStr] in
/-- A run of the letter `A`. -/
theorem actionKey_replicate (n : Nat) : actionKey (bareIntent (List.replicate n 'A')) = List.replicate n 'A' := by
  have solid : PyText.isSpace 'A' = false := (PyText.space_ascii 'A' (by decide)).trans (by decide)
  have stripped : strip (List.replicate n 'A') = List.replicate n 'A' := by
    apply strip_eq_self
    · intro c first
      rw [List.eq_of_mem_replicate (List.mem_of_mem_head? first)]
      exact solid
    · intro c last
      rw [List.eq_of_mem_replicate (List.mem_of_getLast? last)]
      exact solid
  change PyText.upper (strip (List.replicate n 'A')) = _
  rw [stripped, PyText.upper_ascii _ fun c member => by rw [List.eq_of_mem_replicate member]; decide, List.map_replicate]
  rfl

omit [PyStr] in
/-- Some action type is none of these keys. -/
theorem exists_other_key (keys : List Str) : ∃ actionType, actionKey (bareIntent actionType) ∉ keys := by
  refine ⟨List.replicate (maxOf (keys.map List.length) + 1) 'A', fun member => ?_⟩
  rw [actionKey_replicate] at member
  have short := le_maxOf (List.mem_map_of_mem (f := List.length) member)
  rw [List.length_replicate] at short
  omega

/-! ### Entries are honoured exactly if nothing is lost -/

section

variable {entries : List (Slot × List Str)}

omit [PyStr] in
theorem actionClass_of_final {key : Str} {c : ActionClass} {exprs : List Str} (final : Final entries (.action key c, exprs))
    {i : ActionIntent} (own : actionKey i = key) : (entries.foldl Policy.add .empty).actionClass i = c := by
  rw [Policy.actionClass, own, (installed_action final).2, Option.getD_some]

omit [PyStr] in
/-- What the installed policy mandates stands in the last entries for the action and for its class. -/
theorem mem_mandated {i : ActionIntent} {e : Str} : e ∈ (entries.foldl Policy.add .empty).mandated i ↔
    (∃ c own, Final entries (.action (actionKey i) c, own) ∧ e ∈ own) ∨
      ∃ wide, Final entries (.cls ((entries.foldl Policy.add .empty).actionClass i), wide) ∧ e ∈ wide := by
  rw [Policy.mandated, List.mem_append]
  obtain ⟨_, actions, classes⟩ := entry_of_installed entries
  constructor
  · rintro (own | wide)
    · cases found : (entries.foldl Policy.add .empty).actions.get (actionKey i) with
      | none => rw [found] at own; cases own
      | some exprs =>
        rw [found] at own
        obtain ⟨c, final⟩ := actions _ _ found
        exact Or.inl ⟨c, exprs, final, own⟩
    · cases found : (entries.foldl Policy.add .empty).classPredicates.get ((entries.foldl Policy.add .empty).actionClass i) with
      | none => rw [found] at wide; cases wide
      | some exprs =>
        rw [found] at wide
        exact Or.inr ⟨exprs, classes _ _ found, wide⟩
  · rintro (⟨c, own, final, member⟩ | ⟨wide, final, member⟩)
    · exact Or.inl (by rw [(installed_action final).1]; exact member)
    · exact Or.inr (by rw [installed_cls final]; exact member)

omit [PyStr] in
theorem honoured_of_covers {entry last : Slot × List Str} (final : Final entries last)
    (place : last.1.place = entry.1.place) (covers : Covers entries entry last) :
    Honoured (entries.foldl Policy.add .empty) entry := by
  obtain ⟨slot, exprs⟩ := entry
  obtain ⟨slot', exprs'⟩ := last
  have carried : ∀ {i : ActionIntent} {e : Str}, i.policyAdded = none → e ∈ (entries.foldl Policy.add .empty).mandated i →
      e ∈ ((entries.foldl Policy.add .empty).applyTo i).1.predicates := fun fresh mandated =>
    Policy.mem_applyTo_of_mandated (Or.inl fresh) mandated
  cases slot with
  | action key c =>
    cases slot' with
    | cls c' => cases place
    | action key' c' =>
      obtain rfl : key' = key := Sum.inl.inj place
      obtain ⟨rfl, kept⟩ := covers
      intro i own
      have cls : (entries.foldl Policy.add .empty).actionClass i = c' := actionClass_of_final final own
      refine ⟨cls, fun fresh e member => carried fresh (mem_mandated.mpr ?_)⟩
      rw [own, cls]
      rcases kept e member with inside | ⟨wide, wideFinal, inside⟩
      · exact Or.inl ⟨c', exprs', final, inside⟩
      · exact Or.inr ⟨wide, wideFinal, inside⟩
  | cls c =>
    cases slot' with
    | action key' c' => cases place
    | cls c' =>
      obtain rfl : c' = c := Sum.inr.inj place
      intro i cls fresh e member
      refine carried fresh (mem_mandated.mpr ?_)
      rw [cls]
      rcases covers e member with inside | ⟨notOther, everywhere⟩
      · exact Or.inr ⟨exprs', final, inside⟩
      · cases found : (entries.foldl Policy.add .empty).classes.get (actionKey i) with
        | none =>
          rw [Policy.actionClass, found] at cls
          exact absurd cls.symm notOther
        | some c =>
          rw [Policy.actionClass, found, Option.getD_some] at cls
          obtain rfl := cls
          obtain ⟨own, ownFinal⟩ := (entry_of_installed entries).1 _ _ found
          exact Or.inl ⟨c, own, ownFinal, everywhere _ own ownFinal⟩

omit [PyStr] in
theorem covers_of_honoured (named : ∀ key c exprs, (Slot.action key c, exprs) ∈ entries → ∃ text, key = actionKey (bareIntent text))
    {entry last : Slot × List Str} (final : Final entries last)
    (place : last.1.place = entry.1.place) (honoured : Honoured (entries.foldl Policy.add .empty) entry) :
    Covers entries entry last := by
  obtain ⟨slot, exprs⟩ := entry
  obtain ⟨slot', exprs'⟩ := last
  cases slot with
  | action key c =>
    cases slot' with
    | cls c' => cases place
    | action key' c' =>
      obtain rfl : key' = key := Sum.inl.inj place
      obtain ⟨text, own⟩ := named key' c' exprs' final.mem
      obtain ⟨cls, carried⟩ := honoured (bareIntent text) own.symm
      have same : c' = c := (actionClass_of_final final own.symm).symm.trans cls
      refine ⟨same, fun e member => ?_⟩
      rcases mem_mandated.mp (carried_bareIntent (carried rfl e member)) with ⟨c'', found, isFinal, inside⟩ | ⟨wide, isFinal, inside⟩
      · rw [← own] at isFinal
        cases final_unique isFinal final rfl
        exact Or.inl inside
      · rw [cls] at isFinal
        exact Or.inr ⟨wide, isFinal, inside⟩
  | cls c =>
    cases slot' with
    | action key' c' => cases place
    | cls c' =>
      obtain rfl : c' = c := Sum.inr.inj place
      intro e member
      by_cases kept : e ∈ exprs'
      · exact Or.inl kept
      · refine Or.inr ⟨?_, ?_⟩
        · rintro rfl
          obtain ⟨text, unknown⟩ := exists_other_key (entries.foldl Policy.add .empty).classes.keys
          have absent : (entries.foldl Policy.add .empty).classes.get (actionKey (bareIntent text)) = none := by
            rw [Dict.mem_keys, Dict.contains, Option.not_isSome_iff_eq_none] at unknown
            exact unknown
          have cls : (entries.foldl Policy.add .empty).actionClass (bareIntent text) = .other := by
            rw [Policy.actionClass, absent, Option.getD_none]
          rcases mem_mandated.mp (carried_bareIntent (honoured (bareIntent text) cls rfl e member)) with
            ⟨c, own, isFinal, _⟩ | ⟨wide, isFinal, inside⟩
          · rw [(installed_action isFinal).2] at absent
            cases absent
          · rw [cls] at isFinal
            cases final_unique isFinal final rfl
            exact kept inside
        · intro key own isFinal
          obtain ⟨text, named⟩ := named key c' own isFinal.mem
          have cls := actionClass_of_final isFinal named.symm
          rcases mem_mandated.mp (carried_bareIntent (honoured (bareIntent text) cls rfl e member)) with
            ⟨c, own', isFinal', inside⟩ | ⟨wide, isFinal', inside⟩
          · rw [← named] at isFinal'
            cases final_unique isFinal' isFinal rfl
            exact inside
          · rw [cls] at isFinal'
            cases final_unique isFinal' final rfl
            exact absurd inside kept

end

/-! ### The document -/

theorem ends_setPolicy (document : Members) (rt : Runtime) {ok : Dict Str (List Str) → Runtime → Prop}
    {raised : RuntimeError → Runtime → Prop} :
    Ends (setPolicy document) rt ok raised ↔ match readEntries document.toList with
      | .error e => raised (.py e) rt
      | .ok entries => ok (entries.foldl Policy.add .empty).actions { rt with policy := entries.foldl Policy.add .empty } := by
  rw [setPolicy, readPolicy_eq]
  cases readEntries document.toList with
  | error e => exact ends_throw
  | ok entries =>
    simp only [Except.map]
    rw [ends_bind, ends_modify, ends_pure]

/-- An entry of an accepted document comes from an item of it. -/
theorem named_of_readEntries {items : List (Str × Json)} {entries : List (Slot × List Str)} (h : readEntries items = .ok entries)
    {slot : Slot} {exprs : List Str} (member : (slot, exprs) ∈ entries) :
    (slot.actionClass = .stop → exprs = []) ∧ ∀ key c, slot = .action key c → ∃ text, key = actionKey (bareIntent text) := by
  obtain ⟨item, _, read⟩ := (readEntries_ok h).2 _ member
  obtain ⟨stop, named⟩ := readEntry_ok read
  exact ⟨stop, fun key c same => ⟨item.1, named key c same⟩⟩

theorem stop_carries_nothing {items : List (Str × Json)} {entries : List (Slot × List Str)} (h : readEntries items = .ok entries)
    {i : ActionIntent} (stop : (entries.foldl Policy.add .empty).actionClass i = .stop) :
    (entries.foldl Policy.add .empty).mandated i = [] := by
  refine List.eq_nil_iff_forall_not_mem.mpr fun e member => ?_
  rcases mem_mandated.mp member with ⟨c, own, final, inside⟩ | ⟨wide, final, inside⟩
  · have cls := actionClass_of_final final rfl
    rw [(named_of_readEntries h final.mem).1 (cls.symm.trans stop)] at inside
    cases inside
  · rw [stop] at final
    rw [(named_of_readEntries h final.mem).1 rfl] at inside
    cases inside

theorem lossless_of_installs {document : Members} {rt : Runtime} {entries : List (Slot × List Str)}
    (read : readEntries document.toList = .ok entries) (installs : InstallsAsRead document rt) : Lossless entries := by
  rw [InstallsAsRead, ends_setPolicy, read] at installs
  intro entry member last final place
  obtain ⟨⟨key, value⟩, inside, here⟩ := (readEntries_ok read).2 entry member
  obtain ⟨entry', here', holds⟩ := installs.1 key value inside
  obtain rfl := Except.ok.inj (here.symm.trans here')
  exact covers_of_honoured (fun key c exprs found => (named_of_readEntries read found).2 key c rfl) final place holds

/-- A document is refused with a `ValueError` or installed as it reads, exactly if no accepted entry lists its
predicates in a value without elements, and no entry is overwritten by one that says less. -/
theorem setPolicy_iff (document : Members) (rt : Runtime) : InstallsAsRead document rt ↔
    (∀ key value, Reaches document.toList key value → ¬Unlisted key value) ∧
      ∀ entries, readEntries document.toList = .ok entries → Lossless entries := by
  constructor
  · intro installs
    refine ⟨fun key value reaches unlisted => ?_, fun entries read => lossless_of_installs read installs⟩
    rw [InstallsAsRead, ends_setPolicy, readEntries_of_reaches reaches (readEntry_unlisted unlisted)] at installs
    cases installs.1
  · rintro ⟨listed, lossless⟩
    rw [InstallsAsRead, ends_setPolicy]
    cases read : readEntries document.toList with
    | error e =>
      obtain ⟨key, value, reaches, refused⟩ := readEntries_error read
      exact ⟨by rw [(readEntry_error refused).mpr (listed key value reaches)], rfl⟩
    | ok entries =>
      refine ⟨fun key value inside => ?_, fun i stop => stop_carries_nothing read stop⟩
      obtain ⟨entry, member, here⟩ := (readEntries_ok read).1 (key, value) inside
      obtain ⟨last, final, place⟩ := exists_final member
      exact ⟨entry, here, honoured_of_covers final place (lossless entries read entry member last final place)⟩

end

/-- A stop class and a later spelling of the same key. -/
def respelled : Members :=
  .cons "STOP".toList (.obj (.single "class" (.str "stop".toList))) (.cons "stop".toList (.arr .nil) .nil)

theorem respelled_not_stop :
    ¬∀ (document : Members) (rt : Runtime), @InstallsAsRead PyText.ascii PyStr.plain document rt := by
  intro installs
  have read : @readEntries PyText.ascii PyStr.plain respelled.toList =
      .ok [(.action "STOP".toList .stop, []), (.action "STOP".toList .other, [])] := by decide +kernel
  have lossless := @lossless_of_installs PyText.ascii PyStr.plain _ _ _ read (installs respelled (plainRuntime threeIntents))
  have covers := lossless _ List.mem_cons_self (.action "STOP".toList .other, [])
    ⟨[_], [], rfl, fun _ member => absurd member List.not_mem_nil⟩ rfl
  cases covers.1

end Xair
