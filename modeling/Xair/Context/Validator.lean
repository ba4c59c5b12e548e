import Xair.Context.Versioning

/-!
# Predicates

The predicate language of `context_validator.py`: `Path Op Literal`, evaluated
against one context snapshot.
-/

namespace Xair

/-- The exceptions the modelled functions let through to their caller. -/
inductive PyError where
  | valueError
  | typeError
  | overflowError
  | keyError
  | invalidTransition
  deriving DecidableEq

inductive Op where
  | eq | ne | lt | le | gt | ge
  deriving DecidableEq

def Op.ordering : Op → Bool
  | .eq | .ne => false
  | .lt | .le | .gt | .ge => true

/-- One predicate after `_parse`, with `=` already read as `==`. -/
structure Parsed where
  path : Str
  op : Op
  right : Json
  deriving DecidableEq

/-- The operators in the order in which the alternation tries them. -/
def takeOp : Str → Option (Op × Str)
  | '=' :: '=' :: s => some (.eq, s)
  | '!' :: '=' :: s => some (.ne, s)
  | '<' :: '=' :: s => some (.le, s)
  | '>' :: '=' :: s => some (.ge, s)
  | '<' :: s => some (.lt, s)
  | '>' :: s => some (.gt, s)
  | '=' :: s => some (.eq, s)
  | _ => none

/-- What stands before a closing quote that ends the string and is its only one. -/
def closeQuote (quote : Char) (s : Str) : Option Str :=
  if s.getLast? = some quote ∧ quote ∉ s.dropLast then some s.dropLast else none

/-- `int(nval)` refuses numerals with more digits than this. -/
def maxStrDigits : Nat := 4300

/-! ### Values and what a predicate can tell apart -/

/-- The loop of `_resolve`: a missing key reads as `None`. -/
def Json.resolve : List Str → Json → Json
  | [], node => node
  | part :: rest, .obj m => resolve rest ((m.get part).getD .null)
  | _ :: _, _ => .null

def resolve (context : Members) (path : Str) : Json := (Json.obj context).resolve (segments path)

theorem Json.resolve_null (path : List Str) : Json.null.resolve path = .null := by
  cases path <;> rfl

theorem Json.resolve_eq_walk (path : List Str) (v : Json) : v.resolve path = (v.walk path).getD .null := by
  induction path generalizing v with
  | nil => rfl
  | cons part rest ih =>
    cases v with
    | obj m =>
      rw [resolve, walk]
      cases found : m.get part with
      | none => exact resolve_null rest
      | some w => exact ih w
    | _ => rfl

theorem resolve_eq_getPath (context : Members) (path : Str) :
    resolve context path = (getPath context path).getD .null :=
  Json.resolve_eq_walk _ _

/-- A context value as the evaluator sees it. -/
inductive View where
  | missing
  | bool (b : Bool)
  | num (x : PyFloat)
  | str (s : Str)
  | other
  deriving DecidableEq

def Json.view : Json → View
  | .null => .missing
  | .bool b => .bool b
  | .int n => .num (.fin n)
  | .float x => .num x
  | .str s => .str s
  | .arr _ | .obj _ => .other

theorem Json.view_eq_missing {v : Json} : v.view = .missing ↔ v = .null := by
  cases v <;> simp [view]

/-- Values that are the same to `same_value` are the same to every predicate. -/
theorem view_eq_of_sameValue {old : Option Json} {v : Json} (h : sameValue old v = true) :
    ∃ w, old = some w ∧ w.view = v.view := by
  cases old with
  | none => cases h
  | some w =>
    refine ⟨w, rfl, ?_⟩
    cases w <;> cases v <;> simp_all [sameValue, Json.view]
    all_goals exact PyFloat.eq_of_eq h

section

variable [PyText]

/-- `-?\d+(?:\.\d+)?` up to the end of the string, converted. -/
def numericLiteral (s : Str) : Except PyError (Option Json) :=
  let (neg, digits) := match s with
    | '-' :: rest => (true, rest)
    | rest => (false, rest)
  match takeDigits digits with
  | ([], _) => .ok none
  | (whole, []) =>
    if maxStrDigits < whole.length then .error .valueError
    else .ok (some (.int (if neg then -(natOfDigits whole : Int) else natOfDigits whole)))
  | (whole, '.' :: rest) =>
    match takeDigits rest with
    | ([], _) => .ok none
    | (frac, []) => .ok (some (.float (decimalValue neg whole frac 0)))
    | _ => .ok none
  | _ => .ok none

/-- The literal alternatives of `_PATTERN`; each has to reach the end of the string. -/
def literal : Str → Except PyError (Option Json)
  | '\'' :: s => .ok ((closeQuote '\'' s).map .str)
  | '"' :: s => .ok ((closeQuote '"' s).map .str)
  | s =>
    if s = "true".toList ∨ s = "True".toList then .ok (some (.bool true))
    else if s = "false".toList ∨ s = "False".toList then .ok (some (.bool false))
    else numericLiteral s

/-- `_parse` of a stripped expression; `.ok none` is an expression the grammar does not match. -/
def parse (expr : Str) : Except PyError (Option Parsed) :=
  match dottedName expr with
  | none => .ok none
  | some (path, rest) =>
    match takeOp (lstrip rest) with
    | none => .ok none
    | some (op, rest) => (literal (lstrip rest)).map fun right => right.map fun v => ⟨path, op, v⟩

/-! ### Evaluation -/

/-- Align the context value with the literal's type; `none` is an `ill_typed` failure. -/
def align (left right : Json) : Option (Json × Json) :=
  match left, right with
  | .str l, .bool r =>
    let word := PyText.lower l
    if word = "true".toList ∨ word = "false".toList then
      some (.bool (decide (word = "true".toList)), .bool r)
    else some (left, right)
  | .str l, .int _ | .str l, .float _ => (parseFloat l).map fun x => (.float x, right)
  | .int _, .str r | .float _, .str r => (parseFloat r).map fun y => (left, .float y)
  | _, _ => some (left, right)

/-- The comparison of two numbers. -/
def Op.onNumbers (op : Op) (a b : PyFloat) : Bool :=
  match op with
  | .eq => a.eq b
  | .ne => !a.eq b
  | .lt => a.lt b
  | .le => a.le b
  | .gt => b.lt a
  | .ge => b.le a

/-- Compare two aligned operands; `none` is an `ill_typed` failure. -/
def compareValues (op : Op) (left right : Json) : Option Bool :=
  match left, right with
  | .bool a, .bool b => if op.ordering then none else some (if op = .eq then a == b else a != b)
  | .str a, .str b => if op.ordering then none else some (if op = .eq then a == b else a != b)
  | .int a, .int b => some (op.onNumbers (.fin a) (.fin b))
  | .int a, .float y => some (op.onNumbers (.fin a) y)
  | .float x, .int b => some (op.onNumbers x (.fin b))
  | .float x, .float y => some (op.onNumbers x y)
  | _, _ => none

def compareAligned (op : Op) (left right : Json) : Option Bool :=
  (align left right).bind fun (l, r) => compareValues op l r

/-- `check_expression`. -/
def checkExpression (expr : Str) (context : Members) : Except PyError (Bool × Str) :=
  let expr := strip expr
  if expr = [] then .ok (false, "empty_expression".toList)
  else
    match parse expr with
    | .error e => .error e
    | .ok none => .ok (false, "unsupported: ".toList ++ expr)
    | .ok (some p) =>
      let left := resolve context p.path
      if left = .null then .ok (false, "missing_path: ".toList ++ expr)
      else
        match compareAligned p.op left p.right with
        | none => .ok (false, "ill_typed: ".toList ++ expr)
        | some b => .ok (b, expr)

/-- `_truth`. -/
def truth (expr : Str) (context : Members) : Except PyError Bool :=
  (checkExpression expr context).map Prod.fst

/-- The loop of `evaluate_predicates` over labelled expressions; `timedOut k` is the answer of
the wall clock before the `k`-th one. -/
def evaluateFrom (timedOut : Nat → Bool) (context : Members) :
    Nat → List (Str × Str) → Except PyError (Bool × Str)
  | _, [] => .ok (true, "context_ok".toList)
  | k, (label, expr) :: rest =>
    if timedOut k then .ok (false, "eval_timeout".toList)
    else
      match checkExpression expr context with
      | .error e => .error e
      | .ok (false, msg) => .ok (false, label ++ ": ".toList ++ msg)
      | .ok (true, _) => evaluateFrom timedOut context (k + 1) rest

def labelled (safetyConstraints preconditions : List Str) : List (Str × Str) :=
  safetyConstraints.map ("safety_constraint_failed".toList, ·) ++
    preconditions.map ("precondition_failed".toList, ·)

def evaluatePredicates (timedOut : Nat → Bool) (safetyConstraints preconditions : List Str)
    (context : Members) : Except PyError (Bool × Str) :=
  evaluateFrom timedOut context 0 (labelled safetyConstraints preconditions)

/-! ### The path an expression reads -/

/-- A predicate that parses reads the path its read-set names. -/
theorem matchPath_of_parse {expr : Str} {p : Parsed} (h : parse (strip expr) = .ok (some p)) :
    matchPath expr = some p.path := by
  obtain ⟨tail, split, spaces⟩ := lstrip_eq_strip_append expr
  rw [matchPath, split, dottedName_append_spaces _ spaces]
  rw [parse] at h
  cases name : dottedName (strip expr) with
  | none => rw [name] at h; cases h
  | some found =>
    obtain ⟨path, rest⟩ := found
    rw [name] at h
    simp only at h
    cases operator : takeOp (lstrip rest) with
    | none => rw [operator] at h; cases h
    | some found =>
      obtain ⟨op, rest'⟩ := found
      rw [operator] at h
      simp only at h
      cases value : literal (lstrip rest') with
      | error e => rw [value] at h; cases h
      | ok right =>
        rw [value] at h
        cases right with
        | none => cases h
        | some v =>
          cases h
          rfl

theorem rootOf_matchPath_ne_nil {expr path : Str} (h : matchPath expr = some path) : rootOf path ≠ [] := by
  rw [matchPath, Option.map_eq_some_iff] at h
  obtain ⟨⟨path', rest⟩, name, rfl⟩ := h
  exact rootOf_dottedName_ne_nil name

/-! ### Views suffice -/

/-- An integer compares as the float of the same value. -/
theorem compareAligned_int (op : Op) (n : Int) (right : Json) :
    compareAligned op (.int n) right = compareAligned op (.float (.fin n)) right := by
  cases right with
  | str r =>
    simp only [compareAligned, align]
    cases parseFloat r <;> rfl
  | _ => rfl

theorem compareAligned_congr {a b : Json} (h : a.view = b.view) (op : Op) (right : Json) :
    compareAligned op a right = compareAligned op b right := by
  cases a <;> cases b <;> simp only [Json.view, View.bool.injEq, View.num.injEq, View.str.injEq,
    reduceCtorEq] at h <;> try subst h
  case int.int => rw [compareAligned_int, compareAligned_int, h]
  case int.float => exact compareAligned_int op _ right
  case float.int => exact (compareAligned_int op _ right).symm
  all_goals rfl

theorem checkExpression_congr {expr : Str} {c c' : Members}
    (h : ∀ path, matchPath expr = some path → (resolve c path).view = (resolve c' path).view) :
    checkExpression expr c = checkExpression expr c' := by
  simp only [checkExpression]
  by_cases empty : strip expr = []
  · rw [if_pos empty, if_pos empty]
  · rw [if_neg empty, if_neg empty]
    cases parsed : parse (strip expr) with
    | error e => rfl
    | ok result =>
      cases result with
      | none => rfl
      | some p =>
        have same := h p.path (matchPath_of_parse parsed)
        have null : resolve c p.path = .null ↔ resolve c' p.path = .null := by
          rw [← Json.view_eq_missing, ← Json.view_eq_missing, same]
        simp only [null, compareAligned_congr same]

theorem truth_congr {expr : Str} {c c' : Members}
    (h : ∀ path, matchPath expr = some path → (resolve c path).view = (resolve c' path).view) :
    truth expr c = truth expr c' := by
  rw [truth, truth, checkExpression_congr h]

/-- Whether an expression raises does not depend on the context. -/
theorem truth_isOk (expr : Str) {c : Members} {b : Bool} (h : truth expr c = .ok b) (c' : Members) :
    ∃ b', truth expr c' = .ok b' := by
  simp only [truth, checkExpression] at h ⊢
  split at h
  · rename_i empty
    exact ⟨false, by rw [if_pos empty]; rfl⟩
  · rename_i nonempty
    rw [if_neg nonempty]
    cases parsed : parse (strip expr) with
    | error e => rw [parsed] at h; cases h
    | ok result =>
      cases result with
      | none => exact ⟨false, rfl⟩
      | some p =>
        simp only
        split
        · exact ⟨false, rfl⟩
        · split
          · exact ⟨false, rfl⟩
          · rename_i b' _
            exact ⟨b', rfl⟩

/-! ### Conjunctions -/

theorem truth_of_evaluateFrom {timedOut : Nat → Bool} {context : Members} {k : Nat}
    {exprs : List (Str × Str)} {msg : Str}
    (h : evaluateFrom timedOut context k exprs = .ok (true, msg)) :
    ∀ item ∈ exprs, truth item.2 context = .ok true := by
  induction exprs generalizing k with
  | nil => exact fun _ member => absurd member List.not_mem_nil
  | cons item rest ih =>
    obtain ⟨label, expr⟩ := item
    rw [evaluateFrom] at h
    split at h
    · cases h
    · split at h
      · cases h
      · cases h
      · rename_i msg' checked
        intro item member
        rcases List.mem_cons.mp member with rfl | later
        · simp only [truth, checked]; rfl
        · exact ih h item later

/-- An accepted conjunction holds predicate by predicate. -/
theorem truth_of_evaluatePredicates {timedOut : Nat → Bool} {safetyConstraints preconditions : List Str}
    {context : Members} {msg : Str}
    (h : evaluatePredicates timedOut safetyConstraints preconditions context = .ok (true, msg)) :
    ∀ expr ∈ safetyConstraints ++ preconditions, truth expr context = .ok true := by
  intro expr member
  have all := truth_of_evaluateFrom h
  rcases List.mem_append.mp member with safety | pre
  · exact all _ (List.mem_append_left _ (List.mem_map.mpr ⟨expr, safety, rfl⟩))
  · exact all _ (List.mem_append_right _ (List.mem_map.mpr ⟨expr, pre, rfl⟩))

end

example : @checkExpression PyText.ascii "robot.speed <= 0.5 ".toList
    (.single "robot" (.obj (.single "speed" (.str "0.25".toList)))) =
      .ok (true, "robot.speed <= 0.5".toList) := by decide +kernel

end Xair
