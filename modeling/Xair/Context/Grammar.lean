import Xair.Context.Validator

/-!
# What a predicate answer

The sentences of the predicate language and their truth in a context, stated without the
matcher, and the agreement of `check_expression` with them.
-/

namespace Xair

/-! ### Sentences -/

/-- The operators as they are written. -/
def operators : List (String × Op) :=
  [("==", .eq), ("=", .eq), ("!=", .ne), ("<", .lt), ("<=", .le), (">", .gt), (">=", .ge)]

def signText (neg : Bool) : Str := if neg then ['-'] else []

def signed (neg : Bool) (digits : List Nat) : Int := if neg then -(natOfDigits digits : Int) else natOfDigits digits

section

variable [PyText]

/-- Identifiers joined by dots. -/
def IsPath (path : Str) : Prop := ∀ name ∈ segments path, name ≠ [] ∧ ∀ c ∈ name, isWord c = true

def Spaces (s : Str) : Prop := ∀ c ∈ s, PyText.isSpace c = true

/-- One or more decimal digits. -/
def Digits (text : Str) (digits : List Nat) : Prop :=
  List.Forall₂ (fun c d => PyText.decimal c = some d) text digits ∧ digits ≠ []

/-- The literals and their values. -/
inductive IsLiteral : Str → Json → Prop
  | single {body : Str} (unquoted : '\'' ∉ body) : IsLiteral ('\'' :: (body ++ ['\''])) (.str body)
  | double {body : Str} (unquoted : '"' ∉ body) : IsLiteral ('"' :: (body ++ ['"'])) (.str body)
  | yes {word : String} (known : word ∈ ["true", "True"]) : IsLiteral word.toList (.bool true)
  | no {word : String} (known : word ∈ ["false", "False"]) : IsLiteral word.toList (.bool false)
  | integer {text : Str} {digits : List Nat} (neg : Bool) (numeral : Digits text digits) :
    IsLiteral (signText neg ++ text) (.int (signed neg digits))
  | decimal {text fraction : Str} {whole frac : List Nat} (neg : Bool) (numeral : Digits text whole) (after : Digits fraction frac) :
    IsLiteral (signText neg ++ (text ++ '.' :: fraction)) (.float (decimalValue neg whole frac 0))

/-- An integer numeral with more digits than `int()` converts. -/
def LongNumeral (text : Str) : Prop :=
  ∃ neg digits, ∃ body : Str, text = signText neg ++ body ∧ Digits body digits ∧ maxStrDigits < digits.length

/-- A path, an operator and a text for the literal, with white space around the operator. -/
def Sentence (expr path : Str) (op : Op) (text : Str) : Prop :=
  ∃ before after : Str, ∃ word : String, expr = path ++ (before ++ (word.toList ++ (after ++ text))) ∧ IsPath path ∧
    Spaces before ∧ (word, op) ∈ operators ∧ Spaces after

/-! ### Truth -/

/-- The number that a value is. -/
def Json.number : Json → Option PyFloat
  | .int n => some (.fin n)
  | .float x => some x
  | _ => none

/-- The operands after the alignment of a text with a Boolean or a number, or as they are. -/
inductive Aligned : Json → Json → Json → Json → Prop
  | word {s : Str} {b : Bool} (value : Bool) (named : PyText.lower s = (if value then "true" else "false").toList) :
    Aligned (.str s) (.bool b) (.bool value) (.bool b)
  | numeral {s : Str} {right : Json} {x y : PyFloat} (number : right.number = some y) (converts : parseFloat s = some x) :
    Aligned (.str s) right (.float x) right
  | literal {left : Json} {s : Str} {x y : PyFloat} (number : left.number = some x) (converts : parseFloat s = some y) :
    Aligned left (.str s) left (.float y)
  | alike (left right : Json) : Aligned left right left right

/-- Operands of one kind compare; only numbers are ordered. -/
inductive Compares (op : Op) : Json → Json → Prop
  | bools {a b : Bool} (h : op = .eq ∧ a = b ∨ op = .ne ∧ a ≠ b) : Compares op (.bool a) (.bool b)
  | strings {a b : Str} (h : op = .eq ∧ a = b ∨ op = .ne ∧ a ≠ b) : Compares op (.str a) (.str b)
  | numbers {left right : Json} {x y : PyFloat} (first : left.number = some x) (second : right.number = some y)
    (h : op.onNumbers x y = true) : Compares op left right

/-- The predicate holds in the context. -/
def Satisfied (expr : Str) (context : Members) : Prop :=
  ∃ path op text value left, Sentence expr path op text ∧ IsLiteral text value ∧
    (Json.obj context).walk (segments path) = some left ∧ left ≠ .null ∧
      ∃ l r, Aligned left value l r ∧ Compares op l r

/-! ### Paths -/

/-- A continuation of a path, character by character. -/
def PathTail : Str → Prop
  | [] => True
  | c :: cs => (isWord c = true ∨ c = '.' ∧ startsWord cs = true) ∧ PathTail cs

theorem startsWord_iff {s : Str} : startsWord s = true ↔ ∃ c cs, s = c :: cs ∧ isWord c = true := by
  cases s with
  | nil => simp [startsWord]
  | cons c cs => simp [startsWord]

omit [PyText] in
theorem segments_cons_char (c : Char) (cs : Str) : segments (c :: cs) =
    if c = '.' then [] :: segments cs else (segments cs).modifyHead (c :: ·) := by
  rw [segments, List.splitOn_cons_eq_if_modifyHead]
  simp [segments]

omit [PyText] in
theorem rootOf_cons (c : Char) (cs : Str) : rootOf (c :: cs) = if c = '.' then [] else c :: rootOf cs := by
  obtain ⟨rest, split⟩ := segments_cons cs
  rw [rootOf, segments_cons_char, split]
  split <;> rfl

omit [PyText] in
theorem segments_tail_cons (c : Char) (cs : Str) :
    (segments (c :: cs)).tail = if c = '.' then segments cs else (segments cs).tail := by
  obtain ⟨rest, split⟩ := segments_cons cs
  rw [segments_cons_char, split]
  split <;> rfl

/-- The first segment is not empty if the string starts with a word character. -/
theorem startsWord_root {s : Str} (words : ∀ c ∈ rootOf s, isWord c = true) : startsWord s = true ↔ rootOf s ≠ [] := by
  cases s with
  | nil => simp [startsWord, rootOf, segments]
  | cons c cs =>
    rw [rootOf_cons] at words ⊢
    by_cases dot : c = '.'
    · simp [dot, startsWord, isWord_dot]
    · have first : isWord c = true := words c (by simp [dot])
      simp [dot, startsWord, first]

theorem pathTail_iff (s : Str) : PathTail s ↔
    (∀ c ∈ rootOf s, isWord c = true) ∧ ∀ name ∈ (segments s).tail, name ≠ [] ∧ ∀ c ∈ name, isWord c = true := by
  induction s with
  | nil => simp [PathTail, rootOf, segments]
  | cons c cs ih =>
    rw [PathTail, ih, rootOf_cons, segments_tail_cons]
    by_cases dot : c = '.'
    · obtain ⟨rest, split⟩ := segments_cons cs
      rw [if_pos dot, if_pos dot, split, List.tail_cons, List.forall_mem_cons]
      constructor
      · rintro ⟨first, words, later⟩
        have starts := first.resolve_left fun word => by rw [dot, isWord_dot] at word; cases word
        exact ⟨(fun _ member => by cases member), ⟨(startsWord_root words).mp starts.2, words⟩, later⟩
      · rintro ⟨_, ⟨nonempty, words⟩, later⟩
        exact ⟨Or.inr ⟨dot, (startsWord_root words).mpr nonempty⟩, words, later⟩
    · rw [if_neg dot, if_neg dot, List.forall_mem_cons, and_assoc, or_iff_left (fun dotted => dot dotted.1)]

theorem isPath_iff (s : Str) : IsPath s ↔ startsWord s = true ∧ PathTail s := by
  obtain ⟨rest, split⟩ := segments_cons s
  rw [pathTail_iff, IsPath, split]
  simp only [List.mem_cons, forall_eq_or_imp, List.tail_cons]
  constructor
  · rintro ⟨⟨nonempty, words⟩, later⟩
    exact ⟨(startsWord_root words).mpr nonempty, words, later⟩
  · rintro ⟨starts, words, later⟩
    exact ⟨⟨(startsWord_root words).mp starts, words⟩, later⟩

/-! ### The matcher finds the path -/

/-- Nothing that a path could go on with. -/
def Stops (s : Str) : Prop := startsWord s = false ∧ s.head? ≠ some '.'

theorem startsWord_append {s : Str} (rest : Str) (starts : startsWord s = true) : startsWord (s ++ rest) = true := by
  obtain ⟨c, cs, rfl, word⟩ := startsWord_iff.mp starts
  exact word

theorem wordTail_append {s rest : Str} (tail : PathTail s) (stops : Stops rest) : wordTail (s ++ rest) = (s, rest) := by
  induction s with
  | nil =>
    cases rest with
    | nil => rfl
    | cons c cs =>
      have word : isWord c = false := stops.1
      have dot : c ≠ '.' := fun same => stops.2 (by rw [same]; rfl)
      simp [wordTail, word, dot]
  | cons c cs ih =>
    obtain ⟨first, later⟩ := tail
    rw [List.cons_append, wordTail, ih later, if_pos]
    rcases first with word | ⟨rfl, starts⟩
    · rw [word, Bool.true_or]
    · rw [startsWord_append rest starts]
      simp

theorem wordTail_spec (s : Str) : s = (wordTail s).1 ++ (wordTail s).2 ∧ PathTail (wordTail s).1 ∧
    (startsWord s = true → startsWord (wordTail s).1 = true) := by
  induction s with
  | nil => exact ⟨rfl, trivial, id⟩
  | cons c cs ih =>
    obtain ⟨split, tail, starts⟩ := ih
    rw [wordTail]
    split
    · rename_i goes
      refine ⟨by rw [List.cons_append, ← split], ⟨?_, tail⟩, id⟩
      rw [Bool.or_eq_true, Bool.and_eq_true, beq_iff_eq] at goes
      exact goes.imp id fun dotted => ⟨dotted.1, starts dotted.2⟩
    · rename_i stays
      refine ⟨rfl, trivial, fun word => absurd ?_ stays⟩
      rw [show isWord c = true from word, Bool.true_or]

theorem dottedName_append {path rest : Str} (isPath : IsPath path) (stops : Stops rest) :
    dottedName (path ++ rest) = some (path, rest) := by
  obtain ⟨starts, tail⟩ := (isPath_iff path).mp isPath
  rw [dottedName, if_pos (startsWord_append rest starts), wordTail_append tail stops]

theorem dottedName_spec {s path rest : Str} (h : dottedName s = some (path, rest)) : s = path ++ rest ∧ IsPath path := by
  rw [dottedName] at h
  split at h
  · rename_i starts
    obtain ⟨split, tail, begins⟩ := wordTail_spec s
    have found := Option.some.inj h
    rw [show (wordTail s).1 = path from congrArg Prod.fst found] at split tail begins
    rw [show (wordTail s).2 = rest from congrArg Prod.snd found] at split
    exact ⟨split, (isPath_iff path).mpr ⟨begins starts, tail⟩⟩
  · cases h

/-! ### The matcher finds the operator -/

omit [PyText] in
theorem takeOp_spec {s rest : Str} {op : Op} (h : takeOp s = some (op, rest)) :
    ∃ word : String, (word, op) ∈ operators ∧ s = word.toList ++ rest := by
  unfold takeOp at h
  split at h <;> cases h
  exacts [⟨"==", by decide, rfl⟩, ⟨"!=", by decide, rfl⟩, ⟨"<=", by decide, rfl⟩, ⟨">=", by decide, rfl⟩, ⟨"<", by decide, rfl⟩,
    ⟨">", by decide, rfl⟩, ⟨"=", by decide, rfl⟩]

omit [PyText] in
/-- What follows an operator does not start with an equals sign. -/
theorem takeOp_append {word : String} {op : Op} (known : (word, op) ∈ operators) {rest : Str} (apart : rest.head? ≠ some '=') :
    takeOp (word.toList ++ rest) = some (op, rest) := by
  simp only [operators, List.mem_cons, Prod.mk.injEq, List.not_mem_nil, or_false] at known
  rcases known with ⟨rfl, rfl⟩ | ⟨rfl, rfl⟩ | ⟨rfl, rfl⟩ | ⟨rfl, rfl⟩ | ⟨rfl, rfl⟩ | ⟨rfl, rfl⟩ | ⟨rfl, rfl⟩ <;>
    cases rest with
    | nil => rfl
    | cons c cs =>
      have other : c ≠ '=' := fun same => apart (by rw [same]; rfl)
      simp [takeOp, other]

/-! ### The matcher finds the literal -/

omit [PyText] in
theorem closeQuote_iff {quote : Char} {s body : Str} : closeQuote quote s = some body ↔ s = body ++ [quote] ∧ quote ∉ body := by
  rw [closeQuote]
  constructor
  · intro h
    split at h
    · rename_i closes
      obtain rfl := Option.some.inj h
      exact ⟨(List.dropLast_append_getLast? _ closes.1).symm, closes.2⟩
    · cases h
  · rintro ⟨rfl, unquoted⟩
    rw [List.getLast?_concat, List.dropLast_concat, if_pos ⟨rfl, unquoted⟩]

theorem decimal_ascii_none {c : Char} (ascii : c.toNat < 128) (other : c.isDigit = false) : PyText.decimal c = none := by
  rw [PyText.decimal_ascii c ascii, other]
  rfl

theorem takeDigits_spec (s : Str) : ∃ text, s = text ++ (takeDigits s).2 ∧
    List.Forall₂ (fun c d => PyText.decimal c = some d) text (takeDigits s).1 := by
  induction s with
  | nil => exact ⟨[], rfl, .nil⟩
  | cons c cs ih =>
    obtain ⟨text, split, digits⟩ := ih
    rw [takeDigits]
    cases found : PyText.decimal c with
    | none => exact ⟨[], rfl, .nil⟩
    | some d => exact ⟨c :: text, congrArg (c :: ·) split, .cons found digits⟩

theorem takeDigits_append {text rest : Str} {digits : List Nat}
    (numeral : List.Forall₂ (fun c d => PyText.decimal c = some d) text digits)
    (ends : ∀ c cs, rest = c :: cs → PyText.decimal c = none) : takeDigits (text ++ rest) = (digits, rest) := by
  induction numeral with
  | nil =>
    cases rest with
    | nil => rfl
    | cons c cs => rw [List.nil_append, takeDigits, ends c cs rfl]
  | cons digit _ ih => rw [List.cons_append, takeDigits, digit, ih]

theorem Digits.head {text : Str} {digits : List Nat} (h : Digits text digits) :
    ∃ c cs d, text = c :: cs ∧ PyText.decimal c = some d := by
  obtain ⟨numeral, nonempty⟩ := h
  cases numeral with
  | nil => exact absurd rfl nonempty
  | cons digit _ => exact ⟨_, _, _, rfl, digit⟩

/-- What `numericLiteral` makes of the text after the sign. -/
def unsignedLiteral (neg : Bool) (text : Str) : Except PyError (Option Json) :=
  match takeDigits text with
  | ([], _) => .ok none
  | (whole, []) => if maxStrDigits < whole.length then .error .valueError else .ok (some (.int (signed neg whole)))
  | (whole, '.' :: rest) =>
    match takeDigits rest with
    | ([], _) => .ok none
    | (frac, []) => .ok (some (.float (decimalValue neg whole frac 0)))
    | _ => .ok none
  | _ => .ok none

theorem numericLiteral_neg (text : Str) : numericLiteral ('-' :: text) = unsignedLiteral true text := rfl

theorem numericLiteral_unsigned {text : Str} (first : text.head? ≠ some '-') : numericLiteral text = unsignedLiteral false text := by
  unfold numericLiteral
  split
  rename_i neg digits sign
  split at sign
  · exact (first rfl).elim
  · cases sign
    rfl

theorem numericLiteral_eq (text : Str) : ∃ neg body, text = signText neg ++ body ∧ numericLiteral text = unsignedLiteral neg body := by
  by_cases first : text.head? = some '-'
  · obtain ⟨body, rfl⟩ := List.head?_eq_some_iff.mp first
    exact ⟨true, body, rfl, numericLiteral_neg body⟩
  · exact ⟨false, text, rfl, numericLiteral_unsigned first⟩

theorem Digits.not_head {text : Str} {digits : List Nat} (numeral : Digits text digits) (rest : Str) {c : Char}
    (ascii : c.toNat < 128) (other : c.isDigit = false) : (text ++ rest).head? ≠ some c := by
  obtain ⟨d, cs, n, rfl, digit⟩ := numeral.head
  intro same
  cases same
  rw [decimal_ascii_none ascii other] at digit
  cases digit

theorem numericLiteral_sign (neg : Bool) {text : Str} {digits : List Nat} (numeral : Digits text digits) (rest : Str) :
    numericLiteral (signText neg ++ (text ++ rest)) = unsignedLiteral neg (text ++ rest) := by
  cases neg with
  | true => exact numericLiteral_neg _
  | false => exact numericLiteral_unsigned (numeral.not_head rest (by decide) (by decide))

theorem Digits.take {text : Str} {digits : List Nat} (numeral : Digits text digits) : takeDigits text = (digits, []) := by
  have taken : takeDigits (text ++ []) = (digits, []) := takeDigits_append numeral.1 fun _ _ h => nomatch h
  rwa [List.append_nil] at taken

theorem Digits.take_point {text : Str} {digits : List Nat} (numeral : Digits text digits) (rest : Str) :
    takeDigits (text ++ '.' :: rest) = (digits, '.' :: rest) := by
  apply takeDigits_append numeral.1
  intro c cs same
  cases same
  exact decimal_ascii_none (by decide) (by decide)

theorem digits_of_take {text : Str} {digits : List Nat} {rest : Str} (h : takeDigits text = (digits, rest)) (some : digits ≠ []) :
    ∃ front, text = front ++ rest ∧ Digits front digits := by
  obtain ⟨front, split, numeral⟩ := takeDigits_spec text
  rw [h] at split numeral
  exact ⟨front, split, numeral, some⟩

theorem numericLiteral_long {text : Str} (long : LongNumeral text) : numericLiteral text = .error .valueError := by
  obtain ⟨neg, digits, body, rfl, numeral, long⟩ := long
  have start := numericLiteral_sign neg numeral []
  rw [List.append_nil] at start
  rw [start, unsignedLiteral, numeral.take]
  obtain ⟨d, ds, rfl⟩ := List.exists_cons_of_ne_nil numeral.2
  exact if_pos long

theorem numericLiteral_integer (neg : Bool) {text : Str} {digits : List Nat} (numeral : Digits text digits)
    (short : digits.length ≤ maxStrDigits) : numericLiteral (signText neg ++ text) = .ok (some (.int (signed neg digits))) := by
  have start := numericLiteral_sign neg numeral []
  rw [List.append_nil] at start
  rw [start, unsignedLiteral, numeral.take]
  obtain ⟨d, ds, rfl⟩ := List.exists_cons_of_ne_nil numeral.2
  exact if_neg (Nat.not_lt.mpr short)

theorem numericLiteral_decimal (neg : Bool) {text fraction : Str} {whole frac : List Nat} (numeral : Digits text whole)
    (after : Digits fraction frac) :
    numericLiteral (signText neg ++ (text ++ '.' :: fraction)) = .ok (some (.float (decimalValue neg whole frac 0))) := by
  rw [numericLiteral_sign neg numeral, unsignedLiteral, numeral.take_point]
  obtain ⟨d, ds, rfl⟩ := List.exists_cons_of_ne_nil numeral.2
  obtain ⟨e, es, rfl⟩ := List.exists_cons_of_ne_nil after.2
  simp only [after.take]

/-- What the answer of the matcher says about the text. -/
def Reads (text : Str) : Except PyError (Option Json) → Prop
  | .error _ => LongNumeral text
  | .ok none => True
  | .ok (some v) => IsLiteral text v

theorem unsignedLiteral_reads (neg : Bool) (text : Str) : Reads (signText neg ++ text) (unsignedLiteral neg text) := by
  unfold unsignedLiteral
  split
  · trivial
  · rename_i whole some taken
    obtain ⟨front, split, numeral⟩ := digits_of_take taken some
    rw [List.append_nil] at split
    subst split
    split_ifs with long
    · exact ⟨neg, whole, text, rfl, numeral, long⟩
    · exact .integer neg numeral
  · rename_i whole rest some taken
    obtain ⟨front, split, numeral⟩ := digits_of_take taken some
    subst split
    split
    · trivial
    · rename_i frac nonempty taken'
      obtain ⟨fraction, split', after⟩ := digits_of_take taken' nonempty
      rw [List.append_nil] at split'
      subst split'
      exact .decimal neg numeral after
    · trivial
  · trivial

theorem numericLiteral_reads (text : Str) : Reads text (numericLiteral text) := by
  obtain ⟨neg, body, rfl, made⟩ := numericLiteral_eq text
  rw [made]
  exact unsignedLiteral_reads neg body

theorem literal_reads (text : Str) : Reads text (literal text) := by
  unfold literal
  split
  · rename_i s
    cases closed : closeQuote '\'' s with
    | none => trivial
    | some body =>
      obtain ⟨rfl, unquoted⟩ := closeQuote_iff.mp closed
      exact .single unquoted
  · rename_i s
    cases closed : closeQuote '"' s with
    | none => trivial
    | some body =>
      obtain ⟨rfl, unquoted⟩ := closeQuote_iff.mp closed
      exact .double unquoted
  · split_ifs with yes no
    · rcases yes with rfl | rfl
      exacts [.yes (by decide), .yes (by decide)]
    · rcases no with rfl | rfl
      exacts [.no (by decide), .no (by decide)]
    · exact numericLiteral_reads text

theorem literal_numeric {text : Str} (other : ∀ c ∈ ['\'', '"', 't', 'T', 'f', 'F'], text.head? ≠ some c) :
    literal text = numericLiteral text := by
  simp only [List.mem_cons, List.not_mem_nil, or_false, forall_eq_or_imp, forall_eq] at other
  obtain ⟨single, double, yes, yes', no, no'⟩ := other
  unfold literal
  split
  · exact (single rfl).elim
  · exact (double rfl).elim
  · rw [if_neg, if_neg]
    · rintro (rfl | rfl)
      exacts [no rfl, no' rfl]
    · rintro (rfl | rfl)
      exacts [yes rfl, yes' rfl]

theorem signed_head (neg : Bool) {text : Str} {digits : List Nat} (numeral : Digits text digits) (rest : Str) {c : Char}
    (ascii : c.toNat < 128) (other : c.isDigit = false) (minus : c ≠ '-') : (signText neg ++ (text ++ rest)).head? ≠ some c := by
  cases neg with
  | true => exact fun same => minus (Option.some.inj same).symm
  | false => exact numeral.not_head rest ascii other

theorem literal_signed (neg : Bool) {text : Str} {digits : List Nat} (numeral : Digits text digits) (rest : Str) :
    literal (signText neg ++ (text ++ rest)) = numericLiteral (signText neg ++ (text ++ rest)) := by
  apply literal_numeric
  intro c member
  have plain : (['\'', '"', 't', 'T', 'f', 'F'].all fun c => decide (c.toNat < 128 ∧ c.isDigit = false ∧ c ≠ '-')) = true := by
    decide
  obtain ⟨ascii, other, minus⟩ := of_decide_eq_true (List.all_eq_true.mp plain c member)
  exact signed_head neg numeral rest ascii other minus

theorem literal_long {text : Str} (long : LongNumeral text) : literal text = .error .valueError := by
  have raises := numericLiteral_long long
  obtain ⟨neg, digits, body, rfl, numeral, -⟩ := long
  have same := literal_signed neg numeral []
  rw [List.append_nil] at same
  rw [same, raises]

theorem literal_value {text : Str} {v : Json} (isLiteral : IsLiteral text v) (short : ¬LongNumeral text) :
    literal text = .ok (some v) := by
  cases isLiteral with
  | single unquoted => simp only [literal, closeQuote_iff.mpr ⟨rfl, unquoted⟩, Option.map_some]
  | double unquoted => simp only [literal, closeQuote_iff.mpr ⟨rfl, unquoted⟩, Option.map_some]
  | yes known =>
    simp only [List.mem_cons, List.not_mem_nil, or_false] at known
    rcases known with rfl | rfl <;> rfl
  | no known =>
    simp only [List.mem_cons, List.not_mem_nil, or_false] at known
    rcases known with rfl | rfl <;> rfl
  | integer neg numeral =>
    have same := literal_signed neg numeral []
    rw [List.append_nil] at same
    rw [same]
    exact numericLiteral_integer neg numeral (Nat.not_lt.mp fun long => short ⟨neg, _, _, rfl, numeral, long⟩)
  | decimal neg numeral after =>
    rw [literal_signed neg numeral]
    exact numericLiteral_decimal neg numeral after

/-! ### The matcher finds the sentence -/

/-- A text that the white space and the operator before it cannot swallow. -/
def Begins (text : Str) : Prop := ∃ c cs, text = c :: cs ∧ PyText.isSpace c = false ∧ c ≠ '='

theorem begins_ascii {c : Char} {cs : Str} (ascii : c.toNat < 128) (solid : PyText.ascii.isSpace c = false) (other : c ≠ '=') :
    Begins (c :: cs) := ⟨c, cs, rfl, (PyText.space_ascii c ascii).trans solid, other⟩

theorem begins_signed (neg : Bool) {text : Str} {digits : List Nat} (numeral : Digits text digits) (rest : Str) :
    Begins (signText neg ++ (text ++ rest)) := by
  cases neg with
  | true => exact begins_ascii (by decide) (by decide) (by decide)
  | false =>
    obtain ⟨c, cs, d, rfl, digit⟩ := numeral.head
    refine ⟨c, cs ++ rest, rfl, ?_, ?_⟩
    · have alnum := PyText.alnum_of_decimal c d digit
      cases space : PyText.isSpace c with
      | false => rfl
      | true =>
        rw [PyText.space_not_alnum c space] at alnum
        cases alnum
    · rintro rfl
      rw [decimal_ascii_none (by decide) (by decide)] at digit
      cases digit

theorem LongNumeral.begins {text : Str} (long : LongNumeral text) : Begins text := by
  obtain ⟨neg, digits, body, rfl, numeral, -⟩ := long
  have begins := begins_signed neg numeral []
  rwa [List.append_nil] at begins

theorem IsLiteral.begins {text : Str} {v : Json} (isLiteral : IsLiteral text v) : Begins text := by
  cases isLiteral with
  | single unquoted => exact begins_ascii (by decide) (by decide) (by decide)
  | double unquoted => exact begins_ascii (by decide) (by decide) (by decide)
  | yes known =>
    simp only [List.mem_cons, List.not_mem_nil, or_false] at known
    rcases known with rfl | rfl <;> exact begins_ascii (by decide) (by decide) (by decide)
  | no known =>
    simp only [List.mem_cons, List.not_mem_nil, or_false] at known
    rcases known with rfl | rfl <;> exact begins_ascii (by decide) (by decide) (by decide)
  | integer neg numeral =>
    have begins := begins_signed neg numeral []
    rwa [List.append_nil] at begins
  | decimal neg numeral after => exact begins_signed neg numeral _

omit [PyText] in
theorem takeOp_begins {c : Char} {cs rest : Str} {word : String} {op : Op} (known : (word, op) ∈ operators)
    (h : word.toList ++ rest = c :: cs) : c ∈ ['=', '!', '<', '>'] := by
  simp only [operators, List.mem_cons, Prod.mk.injEq, List.not_mem_nil, or_false] at known
  rcases known with ⟨rfl, rfl⟩ | ⟨rfl, rfl⟩ | ⟨rfl, rfl⟩ | ⟨rfl, rfl⟩ | ⟨rfl, rfl⟩ | ⟨rfl, rfl⟩ | ⟨rfl, rfl⟩ <;> cases h <;> decide

theorem operator_char {c : Char} (member : c ∈ ['=', '!', '<', '>']) :
    PyText.isSpace c = false ∧ isWord c = false ∧ c ≠ '.' := by
  have plain : (['=', '!', '<', '>'].all fun c =>
      decide (c.toNat < 128 ∧ PyText.ascii.isSpace c = false ∧ (c.isAlphanum || c == '_') = false ∧ c ≠ '.')) = true := by
    decide
  obtain ⟨ascii, solid, nonword, other⟩ := of_decide_eq_true (List.all_eq_true.mp plain c member)
  exact ⟨(PyText.space_ascii c ascii).trans solid, by rw [isWord, PyText.alnum_ascii c ascii, nonword], other⟩

theorem lstrip_append {spaces rest : Str} (white : Spaces spaces) (solid : ∀ c cs, rest = c :: cs → PyText.isSpace c = false) :
    lstrip (spaces ++ rest) = rest := by
  rw [lstrip, List.dropWhile_append_of_pos white]
  cases rest with
  | nil => rfl
  | cons c cs => rw [List.dropWhile_cons_of_neg (by rw [solid c cs rfl]; exact Bool.false_ne_true)]

theorem stops_before {before rest : Str} {word : String} {op : Op} (white : Spaces before) (known : (word, op) ∈ operators) :
    Stops (before ++ (word.toList ++ rest)) := by
  cases before with
  | cons c cs =>
    have space := white c List.mem_cons_self
    exact ⟨not_word_of_space space, fun same => space_ne_dot space (Option.some.inj same)⟩
  | nil =>
    cases start : word.toList ++ rest with
    | nil => exact ⟨rfl, nofun⟩
    | cons c cs =>
      obtain ⟨-, nonword, other⟩ := operator_char (takeOp_begins known start)
      exact ⟨nonword, fun same => other (Option.some.inj same)⟩

/-- The parse of a sentence is the literal's. -/
theorem parse_sentence {expr path text : Str} {op : Op} (sentence : Sentence expr path op text) (begins : Begins text) :
    parse expr = (literal text).map fun right => right.map fun v => ⟨path, op, v⟩ := by
  obtain ⟨before, after, word, rfl, isPath, white, known, white'⟩ := sentence
  obtain ⟨c, cs, rfl, solid, other⟩ := begins
  have apart : (after ++ c :: cs).head? ≠ some '=' := by
    cases after with
    | nil => exact fun same => other (Option.some.inj same)
    | cons d ds =>
      intro same
      obtain rfl : d = '=' := Option.some.inj same
      have space := white' '=' List.mem_cons_self
      rw [(operator_char (by decide)).1] at space
      cases space
  have operator : lstrip (before ++ (word.toList ++ (after ++ c :: cs))) = word.toList ++ (after ++ c :: cs) :=
    lstrip_append white fun d ds start => (operator_char (takeOp_begins known start)).1
  have right : lstrip (after ++ c :: cs) = c :: cs := by
    apply lstrip_append white'
    intro d ds same
    cases same
    exact solid
  simp only [parse, dottedName_append isPath (stops_before white known), operator, takeOp_append known apart, right]

theorem lstrip_spec (s : Str) : ∃ spaces, s = spaces ++ lstrip s ∧ Spaces spaces :=
  ⟨s.takeWhile PyText.isSpace, List.takeWhile_append_dropWhile.symm, fun _ member => List.mem_takeWhile_imp member⟩

/-- What the answer of `_parse` says about the expression. -/
theorem parse_reads (expr : Str) :
    match parse expr with
    | .error _ => ∃ path op text, Sentence expr path op text ∧ LongNumeral text
    | .ok none => True
    | .ok (some p) => ∃ text, Sentence expr p.path p.op text ∧ IsLiteral text p.right := by
  cases named : dottedName expr with
  | none => simp only [parse, named]
  | some found =>
    obtain ⟨path, rest⟩ := found
    obtain ⟨split, isPath⟩ := dottedName_spec named
    cases operator : takeOp (lstrip rest) with
    | none => simp only [parse, named, operator]
    | some found =>
      obtain ⟨op, rest'⟩ := found
      obtain ⟨word, known, split'⟩ := takeOp_spec operator
      obtain ⟨before, cut, white⟩ := lstrip_spec rest
      obtain ⟨after, cut', white'⟩ := lstrip_spec rest'
      have sentence : Sentence expr path op (lstrip rest') :=
        ⟨before, after, word, by rw [← cut', ← split', ← cut, ← split], isPath, white, known, white'⟩
      have answer := literal_reads (lstrip rest')
      simp only [parse, named, operator]
      cases made : literal (lstrip rest') with
      | error e =>
        rw [made] at answer
        exact ⟨path, op, _, sentence, answer⟩
      | ok right =>
        rw [made] at answer
        cases right with
        | none => trivial
        | some v => exact ⟨_, sentence, answer⟩

/-! ### The comparison -/

omit [PyText] in
theorem compareValues_iff {op : Op} {left right : Json} : compareValues op left right = some true ↔ Compares op left right := by
  constructor
  · intro h
    unfold compareValues at h
    split at h
    · refine .bools ?_
      cases op <;> simp_all [Op.ordering]
    · refine .strings ?_
      cases op <;> simp_all [Op.ordering]
    · exact .numbers rfl rfl (Option.some.inj h)
    · exact .numbers rfl rfl (Option.some.inj h)
    · exact .numbers rfl rfl (Option.some.inj h)
    · exact .numbers rfl rfl (Option.some.inj h)
    · cases h
  · intro h
    cases h with
    | bools h => rcases h with ⟨rfl, h⟩ | ⟨rfl, h⟩ <;> simp [compareValues, Op.ordering, h]
    | strings h => rcases h with ⟨rfl, h⟩ | ⟨rfl, h⟩ <;> simp [compareValues, Op.ordering, h]
    | numbers first second h =>
      cases left <;> cases first <;> cases right <;> cases second <;> exact congrArg some h

theorem aligned_of_align {left right l r : Json} (h : align left right = some (l, r)) : Aligned left right l r := by
  unfold align at h
  split at h
  · rename_i s b
    dsimp only at h
    split_ifs at h with named
    · cases h
      by_cases yes : PyText.lower s = "true".toList
      · rw [decide_eq_true yes]
        exact .word true yes
      · rw [decide_eq_false yes]
        exact .word false (named.resolve_left yes)
    · cases h
      exact .alike _ _
  · rename_i s n
    obtain ⟨x, converts, same⟩ := Option.map_eq_some_iff.mp h
    cases same
    exact .numeral rfl converts
  · rename_i s y
    obtain ⟨x, converts, same⟩ := Option.map_eq_some_iff.mp h
    cases same
    exact .numeral rfl converts
  · rename_i n s
    obtain ⟨y, converts, same⟩ := Option.map_eq_some_iff.mp h
    cases same
    exact .literal rfl converts
  · rename_i x s
    obtain ⟨y, converts, same⟩ := Option.map_eq_some_iff.mp h
    cases same
    exact .literal rfl converts
  · cases h
    exact .alike _ _

/-- Operands that compare as they are need no alignment. -/
theorem align_of_compares {op : Op} {left right : Json} (compares : Compares op left right) :
    align left right = some (left, right) := by
  cases compares with
  | bools h => rfl
  | strings h => rfl
  | numbers first second h => cases left <;> cases first <;> cases right <;> cases second <;> rfl

theorem align_of_aligned {op : Op} {left right l r : Json} (aligned : Aligned left right l r) (compares : Compares op l r) :
    align left right = some (l, r) := by
  cases aligned with
  | word value named =>
    cases value
    · simp only [align, show PyText.lower _ = "false".toList from named]
      rfl
    · simp only [align, show PyText.lower _ = "true".toList from named]
      rfl
  | numeral number converts => cases right <;> cases number <;> simp [align, converts]
  | literal number converts => cases left <;> cases number <;> simp [align, converts]
  | alike => exact align_of_compares compares

theorem compareAligned_iff {op : Op} {left right : Json} :
    compareAligned op left right = some true ↔ ∃ l r, Aligned left right l r ∧ Compares op l r := by
  rw [compareAligned, Option.bind_eq_some_iff]
  constructor
  · rintro ⟨⟨l, r⟩, aligned, compared⟩
    exact ⟨l, r, aligned_of_align aligned, compareValues_iff.mp compared⟩
  · rintro ⟨l, r, aligned, compares⟩
    exact ⟨(l, r), align_of_aligned aligned compares, compareValues_iff.mpr compares⟩

/-! ### The answer of `check_expression` -/

/-- A predicate that parsed holds. -/
def Parsed.Holds (p : Parsed) (context : Members) : Prop :=
  resolve context p.path ≠ .null ∧ compareAligned p.op (resolve context p.path) p.right = some true

theorem Parsed.holds_iff (p : Parsed) (context : Members) : p.Holds context ↔
    ∃ left, (Json.obj context).walk (segments p.path) = some left ∧ left ≠ .null ∧
      ∃ l r, Aligned left p.right l r ∧ Compares p.op l r := by
  rw [Parsed.Holds, compareAligned_iff, resolve, Json.resolve_eq_walk]
  cases found : (Json.obj context).walk (segments p.path) with
  | none => simp
  | some left => simp

theorem satisfied_iff {expr : Str} {context : Members} {result : Option Parsed} (parsed : parse expr = .ok result) :
    Satisfied expr context ↔ ∃ p ∈ result, p.Holds context := by
  constructor
  · rintro ⟨path, op, text, value, left, sentence, isLiteral, found, present, compared⟩
    have short : ¬LongNumeral text := by
      intro long
      rw [parse_sentence sentence long.begins, literal_long long] at parsed
      cases parsed
    rw [parse_sentence sentence isLiteral.begins, literal_value isLiteral short] at parsed
    cases parsed
    exact ⟨_, rfl, (Parsed.holds_iff _ context).mpr ⟨left, found, present, compared⟩⟩
  · rintro ⟨p, rfl, holds⟩
    have answer := parse_reads expr
    rw [parsed] at answer
    obtain ⟨text, sentence, isLiteral⟩ := answer
    obtain ⟨left, found, present, compared⟩ := (Parsed.holds_iff p context).mp holds
    exact ⟨p.path, p.op, text, p.right, left, sentence, isLiteral, found, present, compared⟩

theorem checkExpression_of_parse {expr : Str} (context : Members) {result : Option Parsed}
    (parsed : parse (strip expr) = .ok result) :
    ∃ ok msg, checkExpression expr context = .ok (ok, msg) ∧ (ok = true ↔ ∃ p ∈ result, p.Holds context) := by
  rw [checkExpression]
  split_ifs with empty
  · rw [empty] at parsed
    cases parsed
    exact ⟨_, _, rfl, by simp⟩
  · rw [parsed]
    cases result with
    | none => exact ⟨_, _, rfl, by simp⟩
    | some p =>
      simp only [Option.mem_some_iff, exists_eq_left', Parsed.Holds]
      split_ifs with missing
      · exact ⟨_, _, rfl, by simp [missing]⟩
      · cases compared : compareAligned p.op (resolve context p.path) p.right with
        | none => exact ⟨_, _, rfl, by simp⟩
        | some b => exact ⟨b, _, rfl, by simp [missing]⟩

/-- The `ValueError` of `int` reaches the caller. -/
theorem checkExpression_raises {expr path text : Str} {op : Op} (sentence : Sentence (strip expr) path op text)
    (long : LongNumeral text) (context : Members) : checkExpression expr context = .error .valueError := by
  have raised : parse (strip expr) = .error .valueError := by
    rw [parse_sentence sentence long.begins, literal_long long]
    rfl
  rw [checkExpression, if_neg, raised]
  intro empty
  rw [empty] at raised
  cases raised

/-- `a == ` and one more digit than `int` converts. -/
def longPredicate : Str := "a == ".toList ++ List.replicate (maxStrDigits + 1) '1'

theorem isPath_word {c : Char} (ascii : c.toNat < 128) (word : c.isAlphanum = true) (other : c ≠ '.') : IsPath [c] := by
  rw [IsPath, segments_of_no_dot fun member => other (List.mem_singleton.mp member).symm]
  simp [isWord, PyText.alnum_ascii c ascii, word]

theorem digits_replicate (n : Nat) : Digits (List.replicate (n + 1) '1') (List.replicate (n + 1) 1) := by
  refine ⟨?_, nofun⟩
  induction n with
  | zero => exact .cons (PyText.decimal_ascii '1' (by decide)) .nil
  | succ n ih => exact .cons (PyText.decimal_ascii '1' (by decide)) ih

theorem longNumeral_ones : LongNumeral (List.replicate (maxStrDigits + 1) '1') :=
  ⟨false, _, _, rfl, digits_replicate _, by rw [List.length_replicate]; exact Nat.lt_succ_self _⟩

theorem spaces_one : Spaces [' '] := fun _ member => by
  rw [List.mem_singleton.mp member, PyText.space_ascii ' ' (by decide)]
  decide

theorem sentence_longPredicate : Sentence longPredicate ['a'] .eq (List.replicate (maxStrDigits + 1) '1') :=
  ⟨[' '], [' '], "==", rfl, isPath_word (by decide) (by decide) (by decide), spaces_one, by decide, spaces_one⟩

theorem strip_longPredicate : strip longPredicate = longPredicate := by
  apply strip_eq_self
  · intro c first
    obtain rfl := Option.some.inj first
    exact (PyText.space_ascii 'a' (by decide)).trans (by decide)
  · intro c last
    rw [longPredicate, List.replicate_succ', ← List.append_assoc, List.getLast?_concat] at last
    obtain rfl := Option.some.inj last
    exact (PyText.space_ascii '1' (by decide)).trans (by decide)

end

end Xair
