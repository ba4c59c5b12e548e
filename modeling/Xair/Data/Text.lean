import Mathlib

/-!
# Text

Strings are lists of code points. What the interpreter takes from the Unicode
tables is the class `PyText`; only its values on ASCII are fixed.
-/

namespace Xair

abbrev Str := List Char

instance : LawfulBEq Str := inferInstanceAs (LawfulBEq (List Char))

def startsWith (pre s : Str) : Bool := pre.isPrefixOf s

theorem startsWith_iff {pre s : Str} : startsWith pre s = true ↔ ∃ rest, s = pre ++ rest := by
  rw [startsWith, List.isPrefixOf_iff_prefix]
  exact ⟨fun ⟨rest, h⟩ => ⟨rest, h.symm⟩, fun ⟨rest, h⟩ => ⟨rest, h.symm⟩⟩

/-- `sorted(set(xs))`. -/
def sortedSet (xs : List Str) : List Str := xs.dedup.mergeSort fun a b => decide (a ≤ b)

theorem mem_sortedSet {xs : List Str} {s : Str} : s ∈ sortedSet xs ↔ s ∈ xs := by
  rw [sortedSet, List.mem_mergeSort, List.mem_dedup]

theorem sortedSet_nodup (xs : List Str) : (sortedSet xs).Nodup :=
  (List.mergeSort_perm _ _).nodup_iff.mpr (List.nodup_dedup xs)

/-! ### Dotted paths -/

/-- `path.split(".")`. -/
def segments (path : Str) : List Str := path.splitOn '.'

/-- `path.split(".", 1)[0]`. -/
def rootOf (path : Str) : Str := (segments path).headD []

theorem segments_ne_nil (path : Str) : segments path ≠ [] := List.splitOn_ne_nil '.' path

theorem segments_join (a b : Str) : segments (a ++ '.' :: b) = segments a ++ segments b :=
  List.splitOn_append_cons_self a b

theorem segments_of_no_dot {s : Str} (h : '.' ∉ s) : segments s = [s] :=
  List.splitOn_eq_singleton h

theorem join_segments (path : Str) : ['.'].intercalate (segments path) = path :=
  List.intercalate_splitOn '.'

theorem segments_injective {a b : Str} (h : segments a = segments b) : a = b := by
  rw [← join_segments a, ← join_segments b, h]

theorem segments_cons (path : Str) : ∃ rest, segments path = rootOf path :: rest := by
  cases h : segments path with
  | nil => exact absurd h (segments_ne_nil path)
  | cons first rest => exact ⟨rest, by rw [rootOf, h]; rfl⟩

/-- Every string whose segments extend those of `a` is `a` followed by a dot and more. -/
theorem prefix_segments_iff {a b : Str} :
    segments b <+: segments a ↔ a = b ∨ ∃ rest, a = b ++ '.' :: rest := by
  constructor
  · rintro ⟨more, h⟩
    cases more with
    | nil => exact Or.inl (segments_injective (by simpa using h.symm))
    | cons first rest =>
      refine Or.inr ⟨['.'].intercalate (first :: rest), ?_⟩
      rw [← join_segments a, ← h]
      have joined : ∀ front : List Str, front ≠ [] →
          ['.'].intercalate (front ++ first :: rest) =
            ['.'].intercalate front ++ '.' :: ['.'].intercalate (first :: rest) := by
        intro front
        induction front with
        | nil => intro h; exact absurd rfl h
        | cons s front ih =>
          intro _
          cases front with
          | nil => simp [List.intercalate_cons_cons, List.intercalate_singleton]
          | cons s' front =>
            have step := ih (List.cons_ne_nil _ _)
            simp only [List.cons_append, List.intercalate_cons_cons] at step ⊢
            rw [step]
            simp
      rw [joined _ (segments_ne_nil b)]
      exact congrArg (· ++ _) (join_segments b)
  · rintro (rfl | ⟨rest, rfl⟩)
    · exact List.prefix_refl _
    · rw [segments_join]
      exact List.prefix_append _ _

theorem no_dot_of_mem_segments {path s : Str} (h : s ∈ segments path) : '.' ∉ s := by
  induction path generalizing s with
  | nil => simp [segments] at h; simp [h]
  | cons c path ih =>
    rw [segments, List.splitOn_cons_eq_if_modifyHead] at h
    split at h
    · rcases List.mem_cons.mp h with rfl | later
      · exact List.not_mem_nil
      · exact ih later
    · rename_i other
      obtain ⟨rest, first⟩ := segments_cons path
      rw [segments] at first
      rw [first, List.modifyHead_cons] at h
      rcases List.mem_cons.mp h with rfl | later
      · intro member
        rcases List.mem_cons.mp member with same | inside
        · exact other (by simp [← same])
        · exact ih (s := rootOf path) (by rw [segments, first]; exact List.mem_cons_self) inside
      · exact ih (by rw [segments, first]; exact List.mem_cons_of_mem _ later)

/-- The Unicode properties behind `str.strip`, `\w`, `\d`, `str.upper` and `str.lower`. -/
class PyText where
  isSpace : Char → Bool
  isAlnum : Char → Bool
  decimal : Char → Option Nat
  upper : Str → Str
  lower : Str → Str
  space_ascii : ∀ c, c.toNat < 128 →
    isSpace c = (decide (9 ≤ c.toNat ∧ c.toNat ≤ 13) || decide (28 ≤ c.toNat ∧ c.toNat ≤ 32))
  alnum_ascii : ∀ c, c.toNat < 128 → isAlnum c = c.isAlphanum
  decimal_ascii : ∀ c, c.toNat < 128 → decimal c = if c.isDigit then some (c.toNat - 48) else none
  upper_ascii : ∀ s : Str, (∀ c ∈ s, c.toNat < 128) → upper s = s.map Char.toUpper
  lower_ascii : ∀ s : Str, (∀ c ∈ s, c.toNat < 128) → lower s = s.map Char.toLower
  space_not_alnum : ∀ c, isSpace c = true → isAlnum c = false
  alnum_of_decimal : ∀ c d, decimal c = some d → isAlnum c = true

namespace PyText

/-- The tables cut down to ASCII. -/
@[reducible] def ascii : PyText where
  isSpace c := decide (9 ≤ c.toNat ∧ c.toNat ≤ 13) || decide (28 ≤ c.toNat ∧ c.toNat ≤ 32)
  isAlnum c := c.isAlphanum
  decimal c := if c.isDigit then some (c.toNat - 48) else none
  upper s := s.map Char.toUpper
  lower s := s.map Char.toLower
  space_ascii _ _ := rfl
  alnum_ascii _ _ := rfl
  decimal_ascii _ _ := rfl
  upper_ascii _ _ := rfl
  lower_ascii _ _ := rfl
  space_not_alnum c space := by
    simp only [Bool.or_eq_true, decide_eq_true_eq] at space
    simp only [Char.isAlphanum, Char.isAlpha, Char.isUpper, Char.isLower, Char.isDigit,
      Bool.or_eq_false_iff, Bool.and_eq_false_iff, decide_eq_false_iff_not, ge_iff_le,
      UInt32.le_iff_toNat_le]
    change _ ∨ _ at space
    have value : c.val.toNat = c.toNat := rfl
    simp only [value]
    refine ⟨⟨?_, ?_⟩, ?_⟩ <;> simp <;> omega
  alnum_of_decimal c d digit := by
    split at digit
    · rename_i isDigit
      rw [Char.isAlphanum, isDigit, Bool.or_true]
    · cases digit

end PyText

variable [PyText]

open PyText

/-! ### Characters -/

/-- `\w`. -/
def isWord (c : Char) : Bool := isAlnum c || c == '_'

theorem isWord_dot : isWord '.' = false := by
  rw [isWord, alnum_ascii _ (by decide)]; decide

theorem not_word_of_space {c : Char} (space : isSpace c = true) : isWord c = false := by
  rw [isWord, space_not_alnum c space, Bool.false_or, beq_eq_false_iff_ne]
  rintro rfl
  rw [space_ascii _ (by decide)] at space
  revert space; decide

theorem space_ne_dot {c : Char} (space : isSpace c = true) : c ≠ '.' := by
  rintro rfl
  rw [space_ascii _ (by decide)] at space
  revert space; decide

/-! ### Strings -/

def lstrip (s : Str) : Str := s.dropWhile isSpace

def strip (s : Str) : Str := (lstrip s).rdropWhile isSpace

theorem lstrip_eq_strip_append (s : Str) :
    ∃ tail, lstrip s = strip s ++ tail ∧ ∀ c ∈ tail, isSpace c = true :=
  ⟨(lstrip s).rtakeWhile isSpace, (List.rdropWhile_append_rtakeWhile ..).symm,
    fun _ member => List.mem_rtakeWhile_imp member⟩

/-- A string without white space at its ends. -/
theorem strip_eq_self {s : Str} (first : ∀ c, s.head? = some c → isSpace c = false)
    (last : ∀ c, s.getLast? = some c → isSpace c = false) : strip s = s := by
  have front : lstrip s = s := by
    cases s with
    | nil => rfl
    | cons c cs => exact List.dropWhile_cons_of_neg (by rw [first c rfl]; exact Bool.false_ne_true)
  rw [strip, front]
  rcases List.eq_nil_or_concat s with rfl | ⟨init, c, rfl⟩
  · rfl
  · rw [List.concat_eq_append] at last ⊢
    exact List.rdropWhile_concat_neg _ _ _ (by rw [last c (List.getLast?_concat ..)]; exact Bool.false_ne_true)

/-! ### `\w+(?:\.\w+)*` -/

def startsWord : Str → Bool
  | [] => false
  | c :: _ => isWord c

/-- The longest continuation of a dotted name, and what follows it. -/
def wordTail : Str → Str × Str
  | [] => ([], [])
  | c :: cs =>
    if isWord c || (c == '.' && startsWord cs) then (c :: (wordTail cs).1, (wordTail cs).2)
    else ([], c :: cs)

/-- A greedy match of `\w+(?:\.\w+)*` at the start of the string, and what follows it. -/
def dottedName (s : Str) : Option (Str × Str) := if startsWord s then some (wordTail s) else none

theorem startsWord_append_spaces (s : Str) {tail : Str} (spaces : ∀ c ∈ tail, isSpace c = true) :
    startsWord (s ++ tail) = startsWord s := by
  cases s with
  | cons c s => rfl
  | nil =>
    cases tail with
    | nil => rfl
    | cons c tail => exact not_word_of_space (spaces c List.mem_cons_self)

theorem wordTail_append_spaces (s : Str) {tail : Str} (spaces : ∀ c ∈ tail, isSpace c = true) :
    wordTail (s ++ tail) = ((wordTail s).1, (wordTail s).2 ++ tail) := by
  induction s with
  | nil =>
    cases tail with
    | nil => rfl
    | cons c tail =>
      have space := spaces c List.mem_cons_self
      simp [wordTail, not_word_of_space space, space_ne_dot space]
  | cons c s ih =>
    simp only [List.cons_append, wordTail, startsWord_append_spaces s spaces, ih]
    split <;> simp

/-- Trailing white space does not change which name a string starts with. -/
theorem dottedName_append_spaces (s : Str) {tail : Str} (spaces : ∀ c ∈ tail, isSpace c = true) :
    (dottedName (s ++ tail)).map Prod.fst = (dottedName s).map Prod.fst := by
  rw [dottedName, dottedName, startsWord_append_spaces s spaces, wordTail_append_spaces s spaces]
  split <;> rfl

theorem rootOf_dottedName_ne_nil {s path rest : Str} (h : dottedName s = some (path, rest)) :
    rootOf path ≠ [] := by
  rw [dottedName] at h
  split at h
  · rename_i starts
    obtain ⟨rfl, rfl⟩ := Prod.mk.inj (Option.some.inj h)
    cases s with
    | nil => cases starts
    | cons c s =>
      have word : isWord c = true := starts
      have other : c ≠ '.' := by
        rintro rfl
        rw [isWord_dot] at word
        cases word
      rw [wordTail, word, Bool.true_or, if_pos rfl, rootOf, segments, List.splitOn_cons_eq_if_modifyHead,
        if_neg (by simpa using other)]
      obtain ⟨more, first⟩ := segments_cons (wordTail s).1
      rw [segments] at first
      simp [first]
  · cases h

end Xair
