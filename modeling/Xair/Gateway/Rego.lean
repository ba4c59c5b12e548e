import Xair.Context.Grammar
import Xair.Gateway.Policy

/-!
# The policy engine baseline

`xair.rego` and the request that `actuator_gateway.py` sends to it: the predicates of an
intent decided on a copy of the snapshot, and how far the decision agrees with XAIR's.
-/

namespace Xair

open Library

/-! ### The policy -/

mutual

/-- `==` of the policy language: equal values of one type, numbers by value. -/
def Json.regoEq : Json → Json → Bool
  | .null, .null => true
  | .bool a, .bool b => a == b
  | .str s, .str t => decide (s = t)
  | .arr xs, .arr ys => xs.regoEq ys
  | .obj m, .obj n => decide (m.length = n.length) && m.regoSub n
  | a, b =>
    match a.number, b.number with
    | some x, some y => x.eq y
    | _, _ => false

def Elems.regoEq : Elems → Elems → Bool
  | .nil, .nil => true
  | .cons a as, .cons b bs => a.regoEq b && as.regoEq bs
  | _, _ => false

def Members.regoSub : Members → Members → Bool
  | .nil, _ => true
  | .cons key v rest, n =>
    (match n.get key with
      | some w => v.regoEq w
      | none => false) && rest.regoSub n

end

/-- One entry of `input.predicates`. -/
structure OpaPredicate where
  path : List Str
  op : Op
  value : Json
  deriving DecidableEq

/-- The document under `data.xairstate`. -/
structure OpaState where
  context : Members
  version : Nat
  pathVersions : Dict Str Nat
  trusted : Bool

/-- `_replicate_to_opa`. -/
def replicateToOpa (doc : SnapshotDoc) : OpaState :=
  ⟨doc.snapshot.context, doc.snapshot.version, doc.snapshot.pathVersions, doc.trusted⟩

/-- `cmp`: the four orderings ask for two numbers. -/
def cmp (op : Op) (a b : Json) : Bool :=
  match op with
  | .eq => a.regoEq b
  | .ne => !a.regoEq b
  | op =>
    match a.number, b.number with
    | some x, some y => op.onNumbers x y
    | _, _ => false

namespace OpaState

/-- `object.get(state.context, path, null)`. -/
def lookup (state : OpaState) (path : List Str) : Json := ((Json.obj state.context).walk path).getD .null

def holds (state : OpaState) (p : OpaPredicate) : Bool :=
  decide (state.lookup p.path ≠ .null) && cmp p.op (state.lookup p.path) p.value

def violations (state : OpaState) (preds : List OpaPredicate) : List OpaPredicate :=
  preds.filter fun p => !state.holds p

def allow (state : OpaState) (preds : List OpaPredicate) : Bool :=
  state.trusted && decide ((state.violations preds).length = 0)

/-- `read_paths`. -/
def readPaths (preds : List OpaPredicate) : List Str := preds.map fun p => ['.'].intercalate p.path

/-- `readset_version`: a version stands in the array once for each path that it is related to. -/
def readsetVersion (state : OpaState) (preds : List OpaPredicate) : Nat :=
  maxOf (0 :: state.pathVersions.items.flatMap fun item =>
    ((readPaths preds).filter fun r => related item.1 r).map fun _ => item.2)

def allowVersioned (state : OpaState) (preds : List OpaPredicate) (expectedVersion : Option Nat) : Bool :=
  state.allow preds && decide (expectedVersion = some (state.readsetVersion preds))

end OpaState

structure OpaDecision where
  allow : Bool
  allowVersioned : Bool
  version : Nat
  readsetVersion : Nat

def OpaState.decision (state : OpaState) (preds : List OpaPredicate) (expectedVersion : Option Nat) : OpaDecision :=
  ⟨state.allow preds, state.allowVersioned preds expectedVersion, state.version, state.readsetVersion preds⟩

/-- An infinity is written as `Infinity`, which is no JSON. -/
def Json.sendable : Json → Bool
  | .float (.fin _) => true
  | .float _ => false
  | _ => true

/-- `_opa_decide`: `none` is a request that the engine refuses. -/
def opaDecide (state : OpaState) (preds : List OpaPredicate) (expectedVersion : Option Nat) : Option OpaDecision :=
  if preds.all fun p => p.value.sendable then some (state.decision preds expectedVersion) else none

section

variable [PyText]

/-! ### The request -/

/-- `float(nval)`, where the digits of the numeral reach the end of the string. -/
def opaUnsigned (neg : Bool) (s : Str) : Option PyFloat :=
  match takeDigits s with
  | ([], _) => none
  | (whole, []) => some (decimalValue neg whole [] 0)
  | (whole, '.' :: rest) =>
    match takeDigits rest with
    | ([], _) => none
    | (frac, []) => some (decimalValue neg whole frac 0)
    | _ => none
  | _ => none

def opaNumeral : Str → Option PyFloat
  | '-' :: s => opaUnsigned true s
  | s => opaUnsigned false s

def opaLiteral : Str → Option Json
  | '\'' :: s => (closeQuote '\'' s).map .str
  | '"' :: s => (closeQuote '"' s).map .str
  | s =>
    if s = "true".toList ∨ s = "True".toList then some (.bool true)
    else if s = "false".toList ∨ s = "False".toList then some (.bool false)
    else (opaNumeral s).map .float

/-- One turn of the loop of `_opa_predicates`. -/
def opaPredicate (expr : Str) : Option OpaPredicate :=
  match dottedName (strip expr) with
  | none => none
  | some (path, rest) =>
    match takeOp (lstrip rest) with
    | none => none
    | some (op, rest) => (opaLiteral (lstrip rest)).map fun value => ⟨segments path, op, value⟩

/-- `_opa_predicates`; `none` if one is unsupported. -/
def opaPredicates (i : ActionIntent) : Option (List OpaPredicate) :=
  (i.safetyConstraints ++ i.preconditions).mapM opaPredicate

/-! ### The request carries the parsed predicates -/

/-- The literal after `float`. -/
def Json.asFloat : Json → Json
  | .int n => .float (roundDouble n)
  | v => v

omit [PyText] in
theorem decimalValue_whole (neg : Bool) (whole : List Nat) :
    decimalValue neg whole [] 0 = roundDouble (signed neg whole) := by
  have magnitude : scaleTen (natOfDigits (whole ++ [])) (0 - ([] : List Nat).length) = natOfDigits whole := by
    simp [scaleTen]
  rw [decimalValue, magnitude, signed]
  cases neg <;> simp

/-- The two forms of a numeral that is a literal. -/
theorem unsignedLiteral_cases {neg : Bool} {s : Str} {v : Json} (h : unsignedLiteral neg s = .ok (some v)) :
    (∃ d ds, takeDigits s = (d :: ds, []) ∧ v = .int (signed neg (d :: ds))) ∨
      ∃ d ds rest d' ds', takeDigits s = (d :: ds, '.' :: rest) ∧ takeDigits rest = (d' :: ds', []) ∧
        v = .float (decimalValue neg (d :: ds) (d' :: ds') 0) := by
  unfold unsignedLiteral at h
  split at h
  · cases h
  · rename_i whole nonempty taken
    split_ifs at h
    cases h
    obtain ⟨d, ds, rfl⟩ := List.exists_cons_of_ne_nil nonempty
    exact Or.inl ⟨d, ds, taken, rfl⟩
  · rename_i whole rest nonempty taken
    split at h
    · cases h
    · rename_i frac nonempty' taken'
      cases h
      obtain ⟨d, ds, rfl⟩ := List.exists_cons_of_ne_nil nonempty
      obtain ⟨d', ds', rfl⟩ := List.exists_cons_of_ne_nil nonempty'
      exact Or.inr ⟨d, ds, rest, d', ds', taken, taken', rfl⟩
    · cases h
  · cases h

theorem opaUnsigned_of_literal {neg : Bool} {s : Str} {v : Json} (h : unsignedLiteral neg s = .ok (some v)) :
    (opaUnsigned neg s).map .float = some v.asFloat := by
  rw [opaUnsigned]
  rcases unsignedLiteral_cases h with ⟨d, ds, taken, rfl⟩ | ⟨d, ds, rest, d', ds', taken, taken', rfl⟩
  · rw [taken]
    exact congrArg (fun x => some (Json.float x)) (decimalValue_whole neg (d :: ds))
  · simp only [taken, taken']
    rfl

theorem opaNumeral_of_literal {s : Str} {v : Json} (h : numericLiteral s = .ok (some v)) :
    (opaNumeral s).map .float = some v.asFloat := by
  unfold opaNumeral
  split
  · rw [numericLiteral_neg] at h
    exact opaUnsigned_of_literal h
  · rename_i other
    refine opaUnsigned_of_literal ((numericLiteral_unsigned fun first => ?_).symm.trans h)
    obtain ⟨rest, same⟩ := List.head?_eq_some_iff.mp first
    exact other rest same

theorem literal_unquoted {s : Str} (single : ∀ rest, s ≠ '\'' :: rest) (double : ∀ rest, s ≠ '"' :: rest) : literal s =
    if s = "true".toList ∨ s = "True".toList then .ok (some (.bool true))
    else if s = "false".toList ∨ s = "False".toList then .ok (some (.bool false))
    else numericLiteral s := by
  unfold literal
  split
  · exact (single _ rfl).elim
  · exact (double _ rfl).elim
  · rfl

theorem opaLiteral_unquoted {s : Str} (single : ∀ rest, s ≠ '\'' :: rest) (double : ∀ rest, s ≠ '"' :: rest) : opaLiteral s =
    if s = "true".toList ∨ s = "True".toList then some (.bool true)
    else if s = "false".toList ∨ s = "False".toList then some (.bool false)
    else (opaNumeral s).map .float := by
  unfold opaLiteral
  split
  · exact (single _ rfl).elim
  · exact (double _ rfl).elim
  · rfl

theorem opaLiteral_of_literal {s : Str} {v : Json} (h : literal s = .ok (some v)) : opaLiteral s = some v.asFloat := by
  have quoted : ∀ {q : Char} {rest : Str}, (closeQuote q rest).map Json.str = some v →
      (closeQuote q rest).map Json.str = some v.asFloat := by
    intro q rest same
    obtain ⟨body, closed, rfl⟩ := Option.map_eq_some_iff.mp same
    rw [closed]
    rfl
  by_cases single : ∃ rest, s = '\'' :: rest
  · obtain ⟨rest, rfl⟩ := single
    exact quoted (Except.ok.inj h)
  by_cases double : ∃ rest, s = '"' :: rest
  · obtain ⟨rest, rfl⟩ := double
    exact quoted (Except.ok.inj h)
  rw [literal_unquoted (not_exists.mp single) (not_exists.mp double)] at h
  rw [opaLiteral_unquoted (not_exists.mp single) (not_exists.mp double)]
  split_ifs at h ⊢
  · cases h
    rfl
  · cases h
    rfl
  · exact opaNumeral_of_literal h

/-- A parsed predicate as the gateway sends it. -/
def Parsed.sent (p : Parsed) : OpaPredicate := ⟨segments p.path, p.op, p.right.asFloat⟩

theorem opaPredicate_of_parse {expr : Str} {p : Parsed} (h : parse (strip expr) = .ok (some p)) :
    opaPredicate expr = some p.sent := by
  rw [parse] at h
  rw [opaPredicate]
  cases named : dottedName (strip expr) with
  | none => rw [named] at h; cases h
  | some found =>
    obtain ⟨path, rest⟩ := found
    rw [named] at h
    dsimp only at h ⊢
    cases operator : takeOp (lstrip rest) with
    | none => rw [operator] at h; cases h
    | some found =>
      obtain ⟨op, rest'⟩ := found
      rw [operator] at h
      dsimp only at h ⊢
      cases made : literal (lstrip rest') with
      | error e => rw [made] at h; cases h
      | ok right =>
        rw [made] at h
        cases right with
        | none => cases h
        | some v =>
          cases h
          rw [opaLiteral_of_literal made]
          rfl

/-- The predicates of the intent, all of which parse. -/
def Parses (i : ActionIntent) (preds : List Parsed) : Prop :=
  List.Forall₂ (fun expr p => parse (strip expr) = .ok (some p)) (i.safetyConstraints ++ i.preconditions) preds

theorem opaPredicates_of_parses {i : ActionIntent} {preds : List Parsed} (parses : Parses i preds) :
    opaPredicates i = some (preds.map Parsed.sent) := by
  rw [opaPredicates]
  rw [Parses] at parses
  generalize i.safetyConstraints ++ i.preconditions = exprs at parses ⊢
  induction parses with
  | nil => rfl
  | cons parsed _ ih => simp [List.mapM_cons, opaPredicate_of_parse parsed, ih]

/-! ### The engine's answer to one predicate -/

/-- The types that the engine tells apart. -/
inductive Kind where
  | null | boolean | number | string | array | object
  deriving DecidableEq

def Json.kind : Json → Kind
  | .null => .null
  | .bool _ => .boolean
  | .int _ | .float _ => .number
  | .str _ => .string
  | .arr _ => .array
  | .obj _ => .object

omit [PyText] in
theorem Json.kind_asFloat (v : Json) : v.asFloat.kind = v.kind := by
  cases v <;> rfl

omit [PyText] in
theorem Compares.kind {op : Op} {left right : Json} (compares : Compares op left right) : left.kind = right.kind := by
  cases compares with
  | bools => rfl
  | strings => rfl
  | numbers first second => cases left <;> cases first <;> cases right <;> cases second <;> rfl

/-- Operands of one type are compared as they are. -/
theorem Aligned.of_kind {left right l r : Json} (aligned : Aligned left right l r) (same : left.kind = right.kind) :
    l = left ∧ r = right := by
  cases aligned with
  | word => cases same
  | numeral number => cases right <;> cases number <;> cases same
  | literal number => cases left <;> cases number <;> cases same
  | alike => exact ⟨rfl, rfl⟩

/-- A literal is a Boolean, a number or a string. -/
theorem IsLiteral.kind {text : Str} {v : Json} (isLiteral : IsLiteral text v) :
    v.kind = .boolean ∨ v.kind = .number ∨ v.kind = .string := by
  cases isLiteral <;> simp [Json.kind]

omit [PyText] in
theorem cmp_iff {op : Op} {left right : Json} (scalar : right.kind = .boolean ∨ right.kind = .number ∨ right.kind = .string) :
    cmp op left right = true ↔ Compares op left right ∨ op = .ne ∧ left.kind ≠ right.kind := by
  rw [← compareValues_iff]
  cases op <;> cases left <;> cases right <;>
    simp_all [cmp, Json.regoEq, Json.number, compareValues, Op.onNumbers, Op.ordering, Json.kind]

/-! ### How the two answers to one predicate relate -/

/-- Both accept: the comparison is met as it stands and as it is sent, or a value of another type is
not equal also after XAIR's conversion. -/
inductive Plain (op : Op) (left right : Json) : Prop
  | alike (sendable : right.asFloat.sendable = true) (met : Compares op left right) (sent : Compares op left right.asFloat)
  | unequal (sendable : right.asFloat.sendable = true) (ne : op = .ne) (apart : left.kind ≠ right.kind) {l r : Json}
    (aligned : Aligned left right l r) (met : Compares .ne l r)

/-- XAIR alone accepts: by a conversion, or since the literal changes or is infinite as a double. -/
inductive Coerced (op : Op) (left right : Json) : Prop
  | converts (other : op ≠ .ne) (apart : left.kind ≠ right.kind) {l r : Json} (aligned : Aligned left right l r) (met : Compares op l r)
  | rounds (met : Compares op left right) (lost : ¬Compares op left right.asFloat)
  | infinite (unsendable : right.asFloat.sendable = false) {l r : Json} (aligned : Aligned left right l r) (met : Compares op l r)

/-- The engine alone accepts: `!=` on values of two types that XAIR does not compare or finds equal,
or a literal that changes as a double. -/
inductive Mixed (op : Op) (left right : Json) : Prop
  | types (sendable : right.asFloat.sendable = true) (ne : op = .ne) (present : left ≠ .null) (apart : left.kind ≠ right.kind)
    (unmet : ∀ l r, Aligned left right l r → ¬Compares .ne l r)
  | rounds (sendable : right.asFloat.sendable = true) (unmet : ¬Compares op left right) (gained : Compares op left right.asFloat)

/-- What XAIR asks of a predicate. -/
def Meets (op : Op) (left right : Json) : Prop := ∃ l r, Aligned left right l r ∧ Compares op l r

/-- What the engine asks of it. -/
def Clears (op : Op) (left right : Json) : Prop :=
  right.asFloat.sendable = true ∧ left ≠ .null ∧ cmp op left right.asFloat = true

theorem Compares.meets {op : Op} {left right : Json} (compares : Compares op left right) : Meets op left right :=
  ⟨left, right, .alike left right, compares⟩

theorem meets_of_kind {op : Op} {left right : Json} (same : left.kind = right.kind) :
    Meets op left right ↔ Compares op left right := by
  constructor
  · rintro ⟨l, r, aligned, compares⟩
    obtain ⟨rfl, rfl⟩ := aligned.of_kind same
    exact compares
  · exact Compares.meets

omit [PyText] in
theorem Compares.present {op : Op} {left right : Json} (compares : Compares op left right) : left ≠ .null := by
  cases compares with
  | bools => nofun
  | strings => nofun
  | numbers first => cases left <;> cases first <;> nofun

theorem Meets.present {op : Op} {left right : Json} (meets : Meets op left right) : left ≠ .null := by
  obtain ⟨l, r, aligned, compares⟩ := meets
  cases aligned with
  | word => nofun
  | numeral => nofun
  | literal number => cases left <;> cases number <;> nofun
  | alike => exact compares.present

section

variable {op : Op} {left right : Json}

theorem meets_iff : Meets op left right ↔ Plain op left right ∨ Coerced op left right := by
  constructor
  · rintro ⟨l, r, aligned, met⟩
    by_cases sendable : right.asFloat.sendable = true
    · by_cases same : left.kind = right.kind
      · have stands := (meets_of_kind same).mp ⟨l, r, aligned, met⟩
        by_cases sent : Compares op left right.asFloat
        · exact Or.inl (.alike sendable stands sent)
        · exact Or.inr (.rounds stands sent)
      · by_cases ne : op = .ne
        · subst ne
          exact Or.inl (.unequal sendable rfl same aligned met)
        · exact Or.inr (.converts ne same aligned met)
    · exact Or.inr (.infinite (Bool.not_eq_true _ ▸ sendable) aligned met)
  · rintro (plain | coerced)
    · cases plain with
      | alike _ met => exact met.meets
      | unequal _ ne _ aligned met =>
        subst ne
        exact ⟨_, _, aligned, met⟩
    · cases coerced with
      | converts _ _ aligned met => exact ⟨_, _, aligned, met⟩
      | rounds met => exact met.meets
      | infinite _ aligned met => exact ⟨_, _, aligned, met⟩

variable (scalar : right.kind = .boolean ∨ right.kind = .number ∨ right.kind = .string)

include scalar

omit [PyText] in
theorem clears_sent : Clears op left right ↔ right.asFloat.sendable = true ∧ left ≠ .null ∧
    (Compares op left right.asFloat ∨ op = .ne ∧ left.kind ≠ right.kind) := by
  rw [Clears, cmp_iff (right.kind_asFloat ▸ scalar), right.kind_asFloat]

theorem clears_iff : Clears op left right ↔ Plain op left right ∨ Mixed op left right := by
  rw [clears_sent scalar]
  constructor
  · rintro ⟨sendable, present, sent | ⟨rfl, apart⟩⟩
    · by_cases met : Compares op left right
      · exact Or.inl (.alike sendable met sent)
      · exact Or.inr (.rounds sendable met sent)
    · by_cases met : Meets .ne left right
      · obtain ⟨l, r, aligned, met⟩ := met
        exact Or.inl (.unequal sendable rfl apart aligned met)
      · exact Or.inr (.types sendable rfl present apart fun l r aligned compares => met ⟨l, r, aligned, compares⟩)
  · rintro (plain | mixed)
    · cases plain with
      | alike sendable met sent => exact ⟨sendable, met.present, Or.inl sent⟩
      | unequal sendable ne apart aligned met => exact ⟨sendable, Meets.present ⟨_, _, aligned, met⟩, Or.inr ⟨ne, apart⟩⟩
    · cases mixed with
      | types sendable ne present apart => exact ⟨sendable, present, Or.inr ⟨ne, apart⟩⟩
      | rounds sendable _ gained => exact ⟨sendable, gained.present, Or.inl gained⟩

theorem Coerced.not_clears (coerced : Coerced op left right) : ¬Clears op left right := by
  rw [clears_sent scalar]
  rintro ⟨sendable, -, sent⟩
  cases coerced with
  | converts other apart =>
    rcases sent with sent | ⟨ne, -⟩
    · exact apart (sent.kind.trans right.kind_asFloat)
    · exact other ne
  | rounds met lost =>
    rcases sent with sent | ⟨-, apart⟩
    · exact lost sent
    · exact apart met.kind
  | infinite unsendable =>
    rw [unsendable] at sendable
    cases sendable

omit scalar in
theorem Mixed.not_meets (mixed : Mixed op left right) : ¬Meets op left right := by
  cases mixed with
  | types _ ne _ _ unmet =>
    subst ne
    rintro ⟨l, r, aligned, met⟩
    exact unmet l r aligned met
  | rounds _ unmet gained =>
    rw [meets_of_kind (gained.kind.trans right.kind_asFloat)]
    exact unmet

end

/-! ### The answer to an intent -/

/-- The predicate of the value at its path. -/
def Parsed.At (p : Parsed) (context : Members) (P : Op → Json → Json → Prop) : Prop :=
  P p.op (resolve context p.path) p.right

/-- XAIR accepts every predicate, one of them alone. -/
def OnlyXair (context : Members) (preds : List Parsed) : Prop :=
  (∀ p ∈ preds, p.At context Plain ∨ p.At context Coerced) ∧ ∃ p ∈ preds, p.At context Coerced

/-- The engine accepts every predicate, one of them alone. -/
def OnlyEngine (context : Members) (preds : List Parsed) : Prop :=
  (∀ p ∈ preds, p.At context Plain ∨ p.At context Mixed) ∧ ∃ p ∈ preds, p.At context Mixed

theorem Parsed.holds_meets (p : Parsed) (context : Members) : p.Holds context ↔ p.At context Meets := by
  rw [Parsed.Holds, compareAligned_iff]
  exact ⟨And.right, fun meets => ⟨Meets.present meets, meets⟩⟩

theorem scalar_of_parses {i : ActionIntent} {preds : List Parsed} (parses : Parses i preds) :
    ∀ p ∈ preds, p.right.kind = .boolean ∨ p.right.kind = .number ∨ p.right.kind = .string := by
  rw [Parses] at parses
  generalize i.safetyConstraints ++ i.preconditions = exprs at parses
  induction parses with
  | nil => exact fun _ member => nomatch member
  | @cons expr _ _ _ parsed _ ih =>
    rw [List.forall_mem_cons]
    have answer := parse_reads (strip expr)
    rw [parsed] at answer
    obtain ⟨text, -, isLiteral⟩ := answer
    exact ⟨isLiteral.kind, ih⟩

theorem evaluateFrom_accepts {context : Members} {items : List (Str × Str)} {preds : List Parsed}
    (parses : List.Forall₂ (fun item p => parse (strip item.2) = .ok (some p)) items preds) (k : Nat) :
    (∃ msg, evaluateFrom (fun _ => false) context k items = .ok (true, msg)) ↔ ∀ p ∈ preds, p.At context Meets := by
  induction parses generalizing k with
  | nil => simp [evaluateFrom]
  | @cons item p _ _ parsed _ ih =>
    obtain ⟨label, expr⟩ := item
    obtain ⟨ok, msg, checked, holds⟩ := checkExpression_of_parse context parsed
    have meets : ok = true ↔ p.At context Meets := by
      rw [holds, ← p.holds_meets]
      simp
    rw [List.forall_mem_cons, ← ih (k + 1), ← meets, evaluateFrom, if_neg Bool.false_ne_true, checked]
    cases ok with
    | false => simp
    | true => simp

/-- XAIR accepts the intent when it meets every predicate. -/
theorem evaluatePredicates_accepts {i : ActionIntent} {preds : List Parsed} (parses : Parses i preds) (context : Members) :
    (∃ msg, evaluatePredicates (fun _ => false) i.safetyConstraints i.preconditions context = .ok (true, msg)) ↔
      ∀ p ∈ preds, p.At context Meets := by
  apply evaluateFrom_accepts
  rw [Parses] at parses
  have texts : i.safetyConstraints ++ i.preconditions = (labelled i.safetyConstraints i.preconditions).map Prod.snd := by
    simp [labelled, Function.comp_def]
  rw [texts] at parses
  exact List.forall₂_map_left_iff.mp parses

omit [PyText] in
theorem OpaState.holds_iff {doc : SnapshotDoc} (p : Parsed) :
    (replicateToOpa doc).holds p.sent = true ↔ resolve doc.snapshot.context p.path ≠ .null ∧
      cmp p.op (resolve doc.snapshot.context p.path) p.right.asFloat = true := by
  have found : (replicateToOpa doc).lookup p.sent.path = resolve doc.snapshot.context p.path :=
    (Json.resolve_eq_walk _ _).symm
  rw [holds, found, Bool.and_eq_true, decide_eq_true_eq]
  rfl

omit [PyText] in
theorem OpaState.allow_iff {state : OpaState} (trusted : state.trusted = true) (preds : List OpaPredicate) :
    state.allow preds = true ↔ ∀ p ∈ preds, state.holds p = true := by
  rw [allow, trusted, Bool.true_and, decide_eq_true_eq, List.length_eq_zero_iff, violations, List.filter_eq_nil_iff]
  simp

omit [PyText] in
/-- The engine answers, and allows, when every predicate clears it. -/
theorem opaDecide_allows {doc : SnapshotDoc} (trusted : doc.trusted = true) (preds : List Parsed) (expected : Option Nat) :
    (∃ d, opaDecide (replicateToOpa doc) (preds.map Parsed.sent) expected = some d ∧ d.allow = true) ↔
      ∀ p ∈ preds, p.At doc.snapshot.context Clears := by
  have all : (∀ p ∈ preds, p.At doc.snapshot.context Clears) ↔
      (∀ p ∈ preds, p.sent.value.sendable = true) ∧ ∀ p ∈ preds, (replicateToOpa doc).holds p.sent = true := by
    rw [← forall₂_and]
    refine forall₂_congr fun p _ => ?_
    rw [OpaState.holds_iff]
    rfl
  rw [all, opaDecide]
  split
  · rename_i sendable
    rw [List.all_map, List.all_eq_true] at sendable
    rw [and_iff_right (show ∀ p ∈ preds, p.sent.value.sendable = true from sendable)]
    have allowed := OpaState.allow_iff (show (replicateToOpa doc).trusted = true from trusted) (preds.map Parsed.sent)
    rw [List.forall_mem_map] at allowed
    rw [← allowed]
    simp [OpaState.decision]
  · rename_i unsendable
    rw [List.all_map, List.all_eq_true] at unsendable
    simp only [reduceCtorEq, false_and, exists_false, false_iff]
    exact fun both => unsendable both.1

/-- Both versions of the read-set are one. -/
theorem readsetVersion_eq {i : ActionIntent} {preds : List Parsed} (parses : Parses i preds) (doc : SnapshotDoc) :
    (replicateToOpa doc).readsetVersion (preds.map Parsed.sent) =
      readSetVersion doc.snapshot.pathVersions (readSet (i.safetyConstraints ++ i.preconditions)) := by
  refine eq_of_forall_ge_iff fun n => ?_
  have paths : ∀ r, r ∈ OpaState.readPaths (preds.map Parsed.sent) ↔ r ∈ readSet (i.safetyConstraints ++ i.preconditions) := by
    intro r
    rw [mem_readSet, OpaState.readPaths, List.map_map, List.mem_map]
    rw [Parses] at parses
    generalize i.safetyConstraints ++ i.preconditions = exprs at parses
    induction parses with
    | nil => simp
    | @cons expr p _ _ parsed _ ih =>
      rw [List.exists_mem_cons_iff, List.exists_mem_cons_iff, ih, matchPath_of_parse parsed, Option.some.injEq]
      exact or_congr_left (by rw [← join_segments p.path]; rfl)
  rw [readSetVersion, OpaState.readsetVersion, maxOf_le_iff, maxOf_le_iff]
  simp [paths, replicateToOpa]

/-! ### The gate -/

variable {cfg : SiteConfig}

/-- Nothing but the trust, the versions and the predicates is left for the gate to refuse. -/
structure Ready (cfg : SiteConfig) (result : SubmitAnswer) (i : ActionIntent) (now : ℚ) : Prop where
  timely : (cfg.config.validateRelease i now).1 = true
  noPolicy : result.policyPredicates = []
  reads : result.readSet = readSet (i.safetyConstraints ++ i.preconditions)

/-- The read-set gate accepts. -/
def GateAccepts (cfg : SiteConfig) (result : SubmitAnswer) (i : ActionIntent) (doc : SnapshotDoc) (now : ℚ) : Prop :=
  ∃ reason, gateCheck cfg result i .readset doc (some .authorized) now (fun _ _ => false) = .ok (true, reason)

theorem gateAccepts_iff {result : SubmitAnswer} {i : ActionIntent} {doc : SnapshotDoc} {now : ℚ} (trusted : doc.trusted = true)
    (ready : Ready cfg result i now) : GateAccepts cfg result i doc now ↔
      readSetVersion doc.snapshot.pathVersions (readSet (i.safetyConstraints ++ i.preconditions)) = result.readSetVersion ∧
        ∃ msg, evaluatePredicates (fun _ => false) i.safetyConstraints i.preconditions doc.snapshot.context = .ok (true, msg) := by
  obtain ⟨timely, noPolicy, reads⟩ := ready
  have release : cfg.config.validateRelease i now = (true, (cfg.config.validateRelease i now).2) := Prod.ext timely rfl
  have versions : VersionScope.readset ≠ .predicate ∧ (gateVersion result .readset doc < 0 ∨ result.version .readset < 0 ∨
      gateVersion result .readset doc ≠ result.version .readset) ↔
      readSetVersion doc.snapshot.pathVersions (readSet (i.safetyConstraints ++ i.preconditions)) ≠ result.readSetVersion := by
    simp only [gateVersion, SubmitAnswer.version, reads, ne_eq, reduceCtorEq, not_false_eq_true, true_and]
    omega
  rw [GateAccepts, gateCheck, if_neg (by rw [trusted]; exact Bool.false_ne_true), if_neg (fun h => h rfl)]
  by_cases same : readSetVersion doc.snapshot.pathVersions (readSet (i.safetyConstraints ++ i.preconditions)) = result.readSetVersion
  · rw [if_neg (fun changed => versions.mp changed same), release, and_iff_right same, noPolicy]
    cases evaluated : evaluatePredicates (fun _ => false) i.safetyConstraints i.preconditions doc.snapshot.context with
    | error e => exact ⟨fun ⟨_, h⟩ => (nomatch h), fun ⟨_, h⟩ => (nomatch h)⟩
    | ok answer =>
      obtain ⟨ok, reason⟩ := answer
      cases ok with
      | false => exact ⟨fun ⟨_, h⟩ => (nomatch h), fun ⟨_, h⟩ => (nomatch h)⟩
      | true => exact ⟨fun _ => ⟨reason, rfl⟩, fun _ => ⟨_, rfl⟩⟩
  · rw [if_pos (versions.mpr same)]
    exact ⟨fun ⟨_, h⟩ => (nomatch h), fun both => absurd both.1 same⟩

/-! ### The agreement -/

/-- The two decide alike on one snapshot: on the predicates, on the version of the read-set, and on both together. -/
structure Agree (cfg : SiteConfig) (doc : SnapshotDoc) (i : ActionIntent) (preds : List OpaPredicate) : Prop where
  allow (expected : Option Nat) : (∃ d, opaDecide (replicateToOpa doc) preds expected = some d ∧ d.allow = true) ↔
    ∃ msg, evaluatePredicates (fun _ => false) i.safetyConstraints i.preconditions doc.snapshot.context = .ok (true, msg)
  version : (replicateToOpa doc).readsetVersion preds =
    readSetVersion doc.snapshot.pathVersions (readSet (i.safetyConstraints ++ i.preconditions))
  allowVersioned (result : SubmitAnswer) (now : ℚ) (ready : Ready cfg result i now) :
    (∃ d, opaDecide (replicateToOpa doc) preds (some result.readSetVersion) = some d ∧ d.allowVersioned = true) ↔
      GateAccepts cfg result i doc now

omit [PyText] in
theorem opaDecide_versioned {state : OpaState} {preds : List OpaPredicate} {expected : Nat} :
    (∃ d, opaDecide state preds (some expected) = some d ∧ d.allowVersioned = true) ↔
      state.readsetVersion preds = expected ∧ ∃ d, opaDecide state preds (some expected) = some d ∧ d.allow = true := by
  rw [opaDecide]
  split
  · constructor
    · rintro ⟨d, same, versioned⟩
      cases same
      obtain ⟨allowed, version⟩ := (Bool.and_eq_true _ _).mp versioned
      exact ⟨(Option.some.inj (of_decide_eq_true version)).symm, _, rfl, allowed⟩
    · rintro ⟨version, d, same, allowed⟩
      cases same
      exact ⟨_, rfl, (Bool.and_eq_true _ _).mpr ⟨allowed, decide_eq_true (congrArg some version.symm)⟩⟩
  · exact ⟨fun ⟨_, h, _⟩ => (nomatch h), fun ⟨_, _, h, _⟩ => (nomatch h)⟩

omit [PyText] in
/-- All of a list meet one of two tests when they meet the other, unless a difference stands alone. -/
theorem forall_agree_iff {α : Type} {l : List α} {X R P C M : α → Prop} (x : ∀ a ∈ l, (X a ↔ P a ∨ C a))
    (r : ∀ a ∈ l, (R a ↔ P a ∨ M a)) (onlyX : ∀ a ∈ l, C a → ¬R a) (onlyR : ∀ a ∈ l, M a → ¬X a) :
    ((∀ a ∈ l, R a) ↔ ∀ a ∈ l, X a) ↔
      ¬((∀ a ∈ l, P a ∨ C a) ∧ ∃ a ∈ l, C a) ∧ ¬((∀ a ∈ l, P a ∨ M a) ∧ ∃ a ∈ l, M a) := by
  rw [← forall₂_congr x, ← forall₂_congr r]
  constructor
  · rintro same
    refine ⟨?_, ?_⟩
    · rintro ⟨all, a, member, alone⟩
      exact onlyX a member alone (same.mpr all a member)
    · rintro ⟨all, a, member, alone⟩
      exact onlyR a member alone (same.mp all a member)
  · rintro ⟨noX, noR⟩
    constructor
    · intro all a member
      rcases (r a member).mp (all a member) with plain | alone
      · exact (x a member).mpr (Or.inl plain)
      · exact absurd ⟨all, a, member, alone⟩ noR
    · intro all a member
      rcases (x a member).mp (all a member) with plain | alone
      · exact (r a member).mpr (Or.inl plain)
      · exact absurd ⟨all, a, member, alone⟩ noX

theorem agree_of_alike {doc : SnapshotDoc} (trusted : doc.trusted = true) {i : ActionIntent} {preds : List Parsed}
    (parses : Parses i preds) : Agree cfg doc i (preds.map Parsed.sent) ↔
      ((∀ p ∈ preds, p.At doc.snapshot.context Clears) ↔ ∀ p ∈ preds, p.At doc.snapshot.context Meets) := by
  rw [← evaluatePredicates_accepts parses]
  constructor
  · intro agree
    rw [← opaDecide_allows trusted preds none]
    exact agree.allow none
  · intro alike
    refine ⟨fun expected => (opaDecide_allows trusted preds expected).trans alike, readsetVersion_eq parses doc, fun result now ready => ?_⟩
    rw [opaDecide_versioned, gateAccepts_iff trusted ready, readsetVersion_eq parses, opaDecide_allows trusted, alike]

end

/-! ### A number reported as text -/

def speedIntent : ActionIntent where
  id := "i".toList
  source := "xr".toList
  timestampDecision := 0
  freshnessWindowMs := 500
  payload := ⟨"resume".toList, "robot".toList, .nil, .none⟩
  deadlineMs := none
  preconditions := []
  safetyConstraints := ["robot.speed <= 0.5".toList]
  priority := 0
  policyAdded := none

def speedPredicate : Parsed := ⟨"robot.speed".toList, .le, .float (.fin (1 / 2))⟩

/-- A snapshot with one reading. -/
def speedDoc (reading : Json) : SnapshotDoc :=
  ⟨⟨.single "robot" (.obj (.single "speed" reading)), 1, Dict.empty.insert "robot.speed".toList 1⟩, Dict.empty, true⟩

def regoConfig : SiteConfig := ⟨plainConfig, .document, 3600, false, 1, fun _ => 0, true⟩

theorem speedIntent_parses : @Parses PyText.ascii speedIntent [speedPredicate] :=
  .cons (by decide +kernel) .nil

end Xair
