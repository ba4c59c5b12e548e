import Xair.Data.Cjson
import Xair.Experiments.Timeline
import Xair.Gateway.Policy
import Xair.Library.Groups
import Mathlib.Data.List.Forall2

/-!
# Paired decisions

The two summaries of a paired run: `summarize_paired` of `run_e20_mes.py`, over the rows as
they were made, and `e20_paired` of `aggregate_experiment_results.py`, over the same rows
read from a file.
-/

namespace Xair

open Library

/-! ### Rows -/

/-- A mode of the gateway and a version scope. -/
abbrev Gate := Str × Option Str

/-- `GATES`. -/
def gates : List Gate :=
  [("direct".toList, none), ("xair".toList, some "global".toList), ("xair".toList, some "readset".toList),
    ("xair".toList, some "truth".toList), ("xair_atomic".toList, some "truth".toList)]

/-- `gate_label`. -/
def gateLabel (mode : Str) (scope : Option Str) : Str :=
  match scope with
  | some scope => if scope = [] then mode else mode ++ '/' :: scope
  | none => mode

/-- What the summaries read of a row. -/
structure PairedRow where
  latencyMin : PyFloat
  decisionId : Str
  mode : Str
  scope : Str
  obsolete : Int
  ambiguous : Int
  staleRelease : Int
  falseRevocation : Int
  updateRateHz : PyFloat

/-- `int(b)`. -/
def bit (b : Bool) : Int := if b then 1 else 0

/-- `submit_one`: the row of one gate's answer; `done` and `started` are the states by the writes completed and started. -/
def submitOne (latencyMin : PyFloat) (decisionId : Str) (gate : Gate) (rel : Bool) (done started : MachineState)
    (updateRateHz : PyFloat) : PairedRow :=
  let obsolete := decide (done ≠ .idle)
  let ambiguous := decide (decide (done = .idle) ≠ decide (started = .idle))
  { latencyMin := latencyMin
    decisionId := decisionId
    mode := gate.1
    scope := gate.2.getD []
    obsolete := bit obsolete
    ambiguous := bit ambiguous
    staleRelease := bit (rel && obsolete)
    falseRevocation := bit (!rel && !obsolete && !ambiguous)
    updateRateHz := updateRateHz }

def PairedRow.label (r : PairedRow) : Str := gateLabel r.mode (if r.scope = [] then none else some r.scope)

/-- The same row, read from a file by `csv.DictReader`. -/
structure CsvRow where
  latencyMin : Str
  decisionId : Str
  mode : Str
  scope : Str
  obsolete : Str
  ambiguous : Str
  staleRelease : Str
  falseRevocation : Str
  updateRateHz : Str

/-- `f"{r['mode']}|{r['scope']}"`. -/
def CsvRow.gate (c : CsvRow) : Str := c.mode ++ '|' :: c.scope

/-! ### `summarize_paired` -/

/-- `sorted` of a set of latencies. -/
def sortedLatencies (latencies : List PyFloat) : List PyFloat :=
  latencies.dedup.insertionSort fun a b => a.le b = true

/-- `sorted`. -/
def sortedTexts (texts : List Str) : List Str := texts.insertionSort (· ≤ ·)

structure GateCounts where
  staleReleased : Int
  falseRevocations : Int
  deriving DecidableEq

structure SummaryCell where
  decisions : Nat
  labelDiscordant : Nat
  obsolete : Nat
  valid : Nat
  gates : Dict Str GateCounts

/-- A decision with its rows. -/
abbrev Decision (α : Type) := Str × List α

/-- The sum of a field of a gate's rows. -/
def pickedSum (field : PairedRow → Int) (g : Str) (decisions : List (Decision PairedRow)) : Int :=
  (decisions.map fun decision =>
    match decision.2.find? fun r => decide (r.label = g) with
    | some r => field r
    | none => 0).sum

theorem pickedSum_cons (field : PairedRow → Int) (g : Str) (d : Decision PairedRow) (ds : List (Decision PairedRow)) :
    pickedSum field g (d :: ds) = (match d.2.find? fun r => decide (r.label = g) with
      | some r => field r
      | none => 0) + pickedSum field g ds := rfl

def PairedRow.isObsolete (r : PairedRow) : Bool := decide (r.obsolete ≠ 0)

def PairedRow.isValid (r : PairedRow) : Bool := decide (r.obsolete = 0 ∧ r.ambiguous = 0)

/-- The labels of a decision's rows are one. -/
def PairedRow.concordant (decision : Decision PairedRow) : Bool :=
  decide ((decision.2.map fun r => (r.obsolete, r.ambiguous)).dedup.length = 1)

/-- The set of the labels of the gates. -/
def labelSet (gates : List Gate) : List Str := (gates.map fun gate => gateLabel gate.1 gate.2).dedup

/-- The decisions with as many rows as there are gates, and with the rows of just these gates. -/
def completeDecisions (gates : List Gate) (rows : List PairedRow) : List (Decision PairedRow) :=
  (groupBy PairedRow.decisionId rows).items.filter fun decision =>
    decide (decision.2.length = (labelSet gates).length ∧ (∀ r ∈ decision.2, r.label ∈ labelSet gates) ∧
      ∀ g ∈ labelSet gates, g ∈ decision.2.map PairedRow.label)

/-- The decisions whose first row passes a test. -/
def withFirst {α : Type} (test : α → Bool) (decisions : List (Decision α)) : List (Decision α) :=
  decisions.filter fun decision => decision.2.head?.any test

/-- `summarize_paired`, for one latency. -/
def summaryCell (gates : List Gate) (rows : List PairedRow) : SummaryCell :=
  let complete := completeDecisions gates rows
  let concordant := complete.filter PairedRow.concordant
  { decisions := complete.length
    labelDiscordant := (complete.filter fun decision => !PairedRow.concordant decision).length
    obsolete := (withFirst PairedRow.isObsolete concordant).length
    valid := (withFirst PairedRow.isValid concordant).length
    gates := Dict.empty.insertAll ((sortedTexts (labelSet gates)).map fun g =>
      (g, ⟨pickedSum PairedRow.staleRelease g concordant, pickedSum PairedRow.falseRevocation g concordant⟩)) }

/-- `summarize_paired`; a cell is stored under its latency, `str(L)` in the source. -/
def summarizePaired (gates : List Gate) (rows : List PairedRow) : Dict PyFloat SummaryCell :=
  Dict.empty.insertAll ((sortedLatencies (rows.map PairedRow.latencyMin)).map fun L =>
    (L, summaryCell gates (rows.filter fun r => r.latencyMin.eq L)))

/-! ### `f"{L:g}"` -/

/-- The exponent of the first decimal digit of a number. -/
def decimalExponent (q : ℚ) : Int :=
  let n := q.num.natAbs
  let d := q.den
  let guess : Int := (decimalLength n : Int) - decimalLength d
  let small : Bool := if 0 ≤ guess then n < d * 10 ^ guess.toNat else n * 10 ^ (-guess).toNat < d
  if small then guess - 1 else guess

def trimZeros (s : Str) : Str :=
  if '.' ∈ s then (s.rdropWhile fun c => c == '0').rdropWhile fun c => c == '.' else s

def exponentText (e : Int) : Str :=
  'e' :: (if e < 0 then '-' else '+') :: (if e.natAbs < 10 then ['0'] else []) ++ natText e.natAbs

/-- `f"{x:g}"`: six significant digits, without the zeros at the end. -/
def generalText : PyFloat → Str
  | .nan => "nan".toList
  | .inf neg => if neg then "-inf".toList else "inf".toList
  | .fin q =>
    if q = 0 then "0".toList
    else
      let x := significant 6 q
      let e := decimalExponent x
      if -4 ≤ e ∧ e < 6 then trimZeros (fixedText (5 - e).toNat x)
      else trimZeros (fixedText 5 (if 0 ≤ e then x / 10 ^ e.toNat else x * 10 ^ (-e).toNat)) ++ exponentText e

/-! ### `e20_paired` -/

/-- `rate(k, n)`. -/
structure Rate where
  k : Int
  n : Nat
  deriving DecidableEq

structure GateRates where
  staleReleased : Rate
  falseRevocations : Rate
  deriving DecidableEq

structure PairedCell where
  decisions : Nat
  labelDiscordant : Nat
  obsolete : Nat
  valid : Nat
  updateRateHz : PyFloat
  gates : Dict Str GateRates

def CsvRow.isObsolete (c : CsvRow) : Bool := decide (c.obsolete = "1".toList)

def CsvRow.isValid (c : CsvRow) : Bool := decide (c.obsolete = "0".toList ∧ c.ambiguous = "0".toList)

def CsvRow.concordant (decision : Decision CsvRow) : Bool :=
  decide ((decision.2.map fun c => (c.obsolete, c.ambiguous)).dedup.length = 1)

/-- The decisions whose rows are of each gate once. -/
def completeCsv (gates : List Str) (rows : List CsvRow) : List (Decision CsvRow) :=
  (groupBy CsvRow.decisionId rows).items.filter fun decision => decide (sortedTexts (decision.2.map CsvRow.gate) = gates)

section

variable [PyText]

/-- The sum of a field of a gate's rows, read by `int`. -/
def csvSum (field : CsvRow → Str) (g : Str) : List (Decision CsvRow) → Except PyError Int
  | [] => .ok 0
  | decision :: rest => do
    let n ← match decision.2.find? fun c => decide (c.gate = g) with
      | some c => toInt (.str (field c))
      -- `next` of nothing: not for a complete decision
      | none => .error .keyError
    let sum ← csvSum field g rest
    return n + sum

/-- The rates of one gate over the obsolete and the valid decisions. -/
def gateRates (ob va : List (Decision CsvRow)) (g : Str) : Except PyError (Str × GateRates) := do
  let stale ← csvSum CsvRow.staleRelease g ob
  let falser ← csvSum CsvRow.falseRevocation g va
  return (g, ⟨⟨stale, ob.length⟩, ⟨falser, va.length⟩⟩)

/-- `e20_paired`, for one latency. -/
def pairedCell (gates : List Str) (updateRateHz : PyFloat) (rows : List CsvRow) : Except PyError PairedCell := do
  let complete := completeCsv gates rows
  let concordant := complete.filter CsvRow.concordant
  let ob := withFirst CsvRow.isObsolete concordant
  let va := withFirst CsvRow.isValid concordant
  let rates ← gates.mapM (gateRates ob va)
  return {
    decisions := complete.length
    labelDiscordant := complete.length - concordant.length
    obsolete := ob.length
    valid := va.length
    updateRateHz := updateRateHz
    gates := Dict.empty.insertAll rates }

/-- `float(rows[0].get("update_rate_hz") or 0)`. -/
def firstRate (rows : List CsvRow) : Except PyError PyFloat :=
  match rows with
  | [] => .ok (.fin 0)
  | c :: _ => if c.updateRateHz = [] then .ok (.fin 0) else toFloat (.str c.updateRateHz)

/-- One turn of the loop over the latencies; `latencies` are those of the rows. -/
def latencyCell (rows : List CsvRow) (gates : List Str) (latencies : List PyFloat) (L : PyFloat) : Except PyError (Str × PairedCell) := do
  let rate ← firstRate rows
  let cell ← pairedCell gates rate (((latencies.zip rows).filter fun item => item.1.eq L).map Prod.snd)
  return (generalText L, cell)

/-- `e20_paired`. -/
def e20Paired (rows : List CsvRow) : Except PyError (Dict Str PairedCell) := do
  let latencies ← rows.mapM fun c => toFloat (.str c.latencyMin)
  let cells ← (sortedLatencies latencies).mapM (latencyCell rows (sortedTexts (rows.map CsvRow.gate).dedup) latencies)
  return Dict.empty.insertAll cells

/-! ### Agreement -/

/-- What a file holds of a row. -/
structure PairedRow.ReadBack (r : PairedRow) (c : CsvRow) : Prop where
  latencyMin : parseFloat c.latencyMin = some r.latencyMin
  decisionId : c.decisionId = r.decisionId
  mode : c.mode = r.mode
  scope : c.scope = r.scope
  obsolete : c.obsolete = intText r.obsolete
  ambiguous : c.ambiguous = intText r.ambiguous
  staleRelease : c.staleRelease = intText r.staleRelease
  falseRevocation : c.falseRevocation = intText r.falseRevocation
  updateRateHz : parseFloat c.updateRateHz = some r.updateRateHz

end

/-- A row as `submit_one` makes it, for one of the gates. -/
def PairedRow.Written (r : PairedRow) : Prop :=
  ∃ latencyMin decisionId, ∃ gate ∈ gates, ∃ rel done started updateRateHz,
    r = submitOne latencyMin decisionId gate rel done started updateRateHz

/-- The counts of the two summaries for one latency. -/
structure CellsAgree (cell : SummaryCell) (cell' : PairedCell) : Prop where
  decisions : cell.decisions = cell'.decisions
  labelDiscordant : cell.labelDiscordant = cell'.labelDiscordant
  obsolete : cell.obsolete = cell'.obsolete
  valid : cell.valid = cell'.valid
  gates : ∀ gate ∈ gates, ∃ counts rates, cell.gates.get (gateLabel gate.1 gate.2) = some counts ∧
    cell'.gates.get (gate.1 ++ '|' :: gate.2.getD []) = some rates ∧
    counts.staleReleased = rates.staleReleased.k ∧ counts.falseRevocations = rates.falseRevocations.k

/-- The two tables have one cell for each latency, in the same order, with the same counts. -/
def TablesAgree (summary : Dict PyFloat SummaryCell) (table : Dict Str PairedCell) : Prop :=
  List.Forall₂ (fun item item' => item'.1 = generalText item.1 ∧ CellsAgree item.2 item'.2) summary.items table.items

/-! ### One row -/

/-- `mode|scope` of a gate's rows. -/
def barLabel (gate : Gate) : Str := gate.1 ++ '|' :: gate.2.getD []

theorem labels_apart : ∀ gate ∈ gates, ∀ gate' ∈ gates,
    (gateLabel gate.1 gate.2 = gateLabel gate'.1 gate'.2 → gate = gate') ∧ (barLabel gate = barLabel gate' → gate = gate') := by
  decide

theorem gateLabel_scope : ∀ gate ∈ gates,
    gateLabel gate.1 (if gate.2.getD [] = [] then none else some (gate.2.getD [])) = gateLabel gate.1 gate.2 := by decide

/-- The rows of every gate, each once. -/
def Full (own : List Gate) : Prop := own.Perm gates

theorem gates_nodup : gates.Nodup := by decide

theorem full_of_subset {own : List Gate} (length : own.length = gates.length) (all : ∀ gate ∈ gates, gate ∈ own) : Full own :=
  ((List.subperm_of_subset gates_nodup fun gate => all gate).perm_of_length_le (Nat.le_of_eq length)).symm

theorem mem_of_mem_map {f : Gate → Str} (apart : ∀ gate ∈ gates, ∀ gate' ∈ gates, f gate = f gate' → gate = gate') {own : List Gate}
    (listed : ∀ gate ∈ own, gate ∈ gates) {gate : Gate} (member : gate ∈ gates) (mapped : f gate ∈ own.map f) : gate ∈ own := by
  obtain ⟨gate', here, same⟩ := List.mem_map.mp mapped
  exact apart gate' (listed gate' here) gate member same ▸ here

theorem labelSet_gates : labelSet gates = gates.map fun gate => gateLabel gate.1 gate.2 := by decide

theorem sortedTexts_eq_iff {xs ys : List Str} : sortedTexts xs = sortedTexts ys ↔ xs.Perm ys := by
  constructor
  · intro same
    exact (List.perm_insertionSort _ xs).symm.trans (by rw [show xs.insertionSort (· ≤ ·) = ys.insertionSort (· ≤ ·) from same]; exact List.perm_insertionSort _ ys)
  · intro perm
    exact (((List.perm_insertionSort _ xs).trans perm).trans (List.perm_insertionSort _ ys).symm).eq_of_sortedLE
      List.sortedLE_insertionSort List.sortedLE_insertionSort

/-- Decisions whose rows count nothing can be left out. -/
theorem pickedSum_filter {ds : List (Decision PairedRow)} {field : PairedRow → Int} {p : Decision PairedRow → Bool} (g : Str)
    (none : ∀ d ∈ ds, p d = false → ∀ r ∈ d.2, field r = 0) : pickedSum field g ds = pickedSum field g (ds.filter p) := by
  induction ds with
  | nil => rfl
  | cons d ds ih =>
    have rest := ih fun d' later => none d' (List.mem_cons_of_mem _ later)
    cases kept : p d with
    | true =>
      rw [List.filter_cons_of_pos kept, pickedSum_cons, pickedSum_cons, rest]
    | false =>
      rw [List.filter_cons_of_neg (by rw [kept]; exact Bool.false_ne_true), ← rest, pickedSum_cons]
      have zero : (match d.2.find? fun r => decide (r.label = g) with
          | some r => field r
          | .none => 0) = 0 := by
        cases picked : d.2.find? fun r => decide (r.label = g) with
        | none => rfl
        | some r => exact none d List.mem_cons_self kept r (List.mem_of_find?_eq_some picked)
      rw [zero, zero_add]

/-- In a complete and concordant decision all rows have the flags of the first. -/
theorem flags_of_head {rs : List PairedRow} {d : Decision PairedRow} (member : d ∈ (completeDecisions gates rs).filter PairedRow.concordant)
    {p : PairedRow → Bool} (failed : (d.2.head?.any p) = false) {r : PairedRow} (listed : r ∈ d.2) :
    ∃ first, p first = false ∧ r.obsolete = first.obsolete ∧ r.ambiguous = first.ambiguous := by
  obtain ⟨complete, concordant⟩ := List.mem_filter.mp member
  cases shape : d.2 with
  | nil => rw [shape] at listed; cases listed
  | cons first rest =>
    rw [shape] at failed
    obtain ⟨flags, _, only⟩ := dedup_length_eq_one.mp (of_decide_eq_true concordant)
    have here : ∀ x ∈ d.2, (x.obsolete, x.ambiguous) = flags := fun x inside => only _ (List.mem_map_of_mem inside)
    have same := (here r listed).trans (here first (by rw [shape]; exact List.mem_cons_self)).symm
    exact ⟨first, failed, (Prod.mk.inj same).1, (Prod.mk.inj same).2⟩

theorem mem_sortedLatencies {latencies : List PyFloat} {L : PyFloat} : L ∈ sortedLatencies latencies ↔ L ∈ latencies := by
  rw [sortedLatencies, List.mem_insertionSort, List.mem_dedup]

theorem sortedLatencies_nodup (latencies : List PyFloat) : (sortedLatencies latencies).Nodup :=
  (List.perm_insertionSort _ _).nodup_iff.mpr (List.nodup_dedup latencies)

theorem items_summarizePaired (gates : List Gate) (rows : List PairedRow) : (summarizePaired gates rows).items =
    (sortedLatencies (rows.map PairedRow.latencyMin)).map fun L =>
      (L, summaryCell gates (rows.filter fun r => r.latencyMin.eq L)) := by
  refine Dict.items_insertAll _ ?_
  rw [show (Dict.empty : Dict PyFloat SummaryCell).items = [] from rfl, List.nil_append, List.map_map]
  exact (List.map_id _).symm ▸ sortedLatencies_nodup _

/-- What the flags of a row say. -/
structure PairedRow.Sound (r : PairedRow) : Prop where
  gate : ∃ gate ∈ gates, r.label = gateLabel gate.1 gate.2 ∧ r.mode ++ '|' :: r.scope = barLabel gate
  obsolete : r.obsolete = 0 ∨ r.obsolete = 1
  ambiguous : r.ambiguous = 0 ∨ r.ambiguous = 1
  staleRelease : r.staleRelease = 0 ∨ r.staleRelease = 1
  falseRevocation : r.falseRevocation = 0 ∨ r.falseRevocation = 1
  valid : r.obsolete = 0 → r.staleRelease = 0
  other : ¬(r.obsolete = 0 ∧ r.ambiguous = 0) → r.falseRevocation = 0

theorem bit_cases (b : Bool) : bit b = 0 ∨ bit b = 1 := by cases b <;> decide

theorem PairedRow.Written.sound {r : PairedRow} (written : r.Written) : r.Sound := by
  obtain ⟨latencyMin, decisionId, gate, member, rel, done, started, rate, rfl⟩ := written
  refine ⟨⟨gate, member, gateLabel_scope gate member, rfl⟩, bit_cases _, bit_cases _, bit_cases _, bit_cases _, ?_, ?_⟩
  · change bit (decide (done ≠ .idle)) = 0 → bit (rel && decide (done ≠ .idle)) = 0
    cases decide (done ≠ .idle) <;> cases rel <;> decide
  · generalize ambiguous : decide (decide (done = .idle) ≠ decide (started = .idle)) = a
    change ¬(bit (decide (done ≠ .idle)) = 0 ∧ bit (decide (decide (done = .idle) ≠ decide (started = .idle))) = 0) →
      bit (!rel && !decide (done ≠ .idle) && !decide (decide (done = .idle) ≠ decide (started = .idle))) = 0
    rw [ambiguous]
    cases decide (done ≠ .idle) <;> cases a <;> cases rel <;> decide

theorem intText_bit {m n : Int} (hm : m = 0 ∨ m = 1) (hn : n = 0 ∨ n = 1) (same : intText m = intText n) : m = n := by
  rcases hm with rfl | rfl <;> rcases hn with rfl | rfl <;> first | rfl | exact absurd same (by decide)

section

variable [PyText]

/-- `int(str(n))` of a flag. -/
theorem toInt_bit {n : Int} (h : n = 0 ∨ n = 1) : toInt (.str (intText n)) = .ok n := by
  have digit : ∀ c : Char, ∀ d, c.toNat < 128 → c ≠ '-' → c ≠ '+' → PyText.isSpace c = false → PyText.decimal c = some d →
      parseInt [c] = some (natOfDigits [d]) := by
    intro c d small minus plus space value
    have alone : strip [c] = [c] := strip_eq_self (fun x head => by cases head; exact space) fun x last => by cases last; exact space
    have sign : takeSign [c] = (false, [c]) := by
      unfold takeSign
      split
      · rename_i same
        exact absurd (List.cons.inj same).1 minus
      · rename_i same
        exact absurd (List.cons.inj same).1 plus
      · rfl
    have digits : digitPart [c] = ([d], []) := by
      simp [digitPart, startsDigit, takeGrouped, value]
    rw [parseInt, alone, sign]
    simp only [digits]
    rfl
  have space : ∀ c : Char, c = '0' ∨ c = '1' → PyText.isSpace c = false := by
    rintro c (rfl | rfl) <;> rw [PyText.space_ascii _ (by decide)] <;> decide
  rcases h with rfl | rfl
  · rw [show intText 0 = ['0'] from by decide, toInt, digit '0' 0 (by decide) (by decide) (by decide) (space _ (Or.inl rfl))
      (by rw [PyText.decimal_ascii _ (by decide)]; decide)]
    rfl
  · rw [show intText 1 = ['1'] from by decide, toInt, digit '1' 1 (by decide) (by decide) (by decide) (space _ (Or.inr rfl))
      (by rw [PyText.decimal_ascii _ (by decide)]; decide)]
    rfl

/-- A row and what a file holds of it. -/
structure Paired (r : PairedRow) (c : CsvRow) : Prop where
  written : r.Written
  readBack : r.ReadBack c

namespace Paired

variable {r r' : PairedRow} {c c' : CsvRow}

/-- Both name one gate. -/
theorem gate (h : Paired r c) : ∃ gate ∈ gates, r.label = gateLabel gate.1 gate.2 ∧ c.gate = barLabel gate := by
  obtain ⟨gate, member, label, bar⟩ := h.written.sound.gate
  exact ⟨gate, member, label, by rw [CsvRow.gate, h.readBack.mode, h.readBack.scope, bar]⟩

theorem label_iff (h : Paired r c) {gate : Gate} (member : gate ∈ gates) :
    r.label = gateLabel gate.1 gate.2 ↔ c.gate = barLabel gate := by
  obtain ⟨own, listed, label, bar⟩ := h.gate
  rw [label, bar]
  constructor
  · intro same
    rw [(labels_apart own listed gate member).1 same]
  · intro same
    rw [(labels_apart own listed gate member).2 same]

theorem isObsolete (h : Paired r c) : r.isObsolete = c.isObsolete := by
  rw [PairedRow.isObsolete, CsvRow.isObsolete, h.readBack.obsolete]
  rcases h.written.sound.obsolete with flag | flag <;> rw [flag] <;> decide

theorem isValid (h : Paired r c) : r.isValid = c.isValid := by
  rw [PairedRow.isValid, CsvRow.isValid, h.readBack.obsolete, h.readBack.ambiguous]
  rcases h.written.sound.obsolete with flag | flag <;> rcases h.written.sound.ambiguous with flag' | flag' <;>
    rw [flag, flag'] <;> decide

theorem toInt_staleRelease (h : Paired r c) : toInt (.str c.staleRelease) = .ok r.staleRelease := by
  rw [h.readBack.staleRelease]
  exact toInt_bit h.written.sound.staleRelease

theorem toInt_falseRevocation (h : Paired r c) : toInt (.str c.falseRevocation) = .ok r.falseRevocation := by
  rw [h.readBack.falseRevocation]
  exact toInt_bit h.written.sound.falseRevocation

theorem flags_iff (h : Paired r c) (h' : Paired r' c') :
    (r.obsolete, r.ambiguous) = (r'.obsolete, r'.ambiguous) ↔ (c.obsolete, c.ambiguous) = (c'.obsolete, c'.ambiguous) := by
  rw [h.readBack.obsolete, h.readBack.ambiguous, h'.readBack.obsolete, h'.readBack.ambiguous, Prod.mk.injEq, Prod.mk.injEq]
  constructor
  · rintro ⟨obsolete, ambiguous⟩
    rw [obsolete, ambiguous]
    exact ⟨rfl, rfl⟩
  · rintro ⟨obsolete, ambiguous⟩
    exact ⟨intText_bit h.written.sound.obsolete h'.written.sound.obsolete obsolete,
      intText_bit h.written.sound.ambiguous h'.written.sound.ambiguous ambiguous⟩

end Paired

/-! ### One decision -/

variable {rs : List PairedRow} {cs : List CsvRow}

/-- The gates that the rows are of. -/
theorem exists_gates (h : List.Forall₂ Paired rs cs) : ∃ own : List Gate, (∀ gate ∈ own, gate ∈ gates) ∧
    rs.map PairedRow.label = own.map (fun gate => gateLabel gate.1 gate.2) ∧ cs.map CsvRow.gate = own.map barLabel := by
  induction h with
  | nil => exact ⟨[], fun _ member => absurd member List.not_mem_nil, rfl, rfl⟩
  | @cons r c rs cs pair _ ih =>
    obtain ⟨gate, member, label, bar⟩ := pair.gate
    obtain ⟨own, listed, labels, bars⟩ := ih
    exact ⟨gate :: own, List.forall_mem_cons.mpr ⟨member, listed⟩, by rw [List.map_cons, List.map_cons, label, labels],
      by rw [List.map_cons, List.map_cons, bar, bars]⟩

/-- The two tests of completeness agree. -/
theorem complete_iff (h : List.Forall₂ Paired rs cs) :
    (rs.length = (labelSet gates).length ∧ (∀ r ∈ rs, r.label ∈ labelSet gates) ∧ ∀ g ∈ labelSet gates, g ∈ rs.map PairedRow.label) ↔
      sortedTexts (cs.map CsvRow.gate) = sortedTexts (gates.map barLabel) := by
  obtain ⟨own, listed, labels, bars⟩ := exists_gates h
  have length : rs.length = own.length := by
    rw [← List.length_map (f := PairedRow.label), labels, List.length_map]
  rw [sortedTexts_eq_iff, labels, bars, length, labelSet_gates, List.length_map, List.forall_mem_map]
  constructor
  · rintro ⟨full, _, all⟩
    refine List.Perm.map _ (full_of_subset full fun gate member => ?_)
    exact mem_of_mem_map (fun g hg g' hg' => (labels_apart g hg g' hg').1) listed member (all gate member)
  · intro perm
    refine ⟨by rw [← List.length_map (f := barLabel), perm.length_eq, List.length_map], fun r member => ?_, fun gate member => ?_⟩
    · obtain ⟨gate, here, label⟩ := List.mem_map.mp (labels ▸ List.mem_map_of_mem (f := PairedRow.label) member)
      exact List.mem_map.mpr ⟨gate, listed gate here, label⟩
    · refine List.mem_map_of_mem (f := fun gate : Gate => gateLabel gate.1 gate.2) ?_
      exact mem_of_mem_map (fun g hg g' hg' => (labels_apart g hg g' hg').2) listed member
        (perm.symm.subset (List.mem_map_of_mem member))

theorem concordant_iff (h : List.Forall₂ Paired rs cs) :
    (rs.map fun r => (r.obsolete, r.ambiguous)).dedup.length = 1 ↔ (cs.map fun c => (c.obsolete, c.ambiguous)).dedup.length = 1 := by
  rw [dedup_length_eq_one, dedup_length_eq_one]
  simp only [List.mem_map, exists_exists_and_eq_and, forall_exists_index, and_imp, forall_apply_eq_imp_iff₂]
  constructor
  · rintro ⟨r, member, only⟩
    obtain ⟨c, listed, pair⟩ := forall₂_right h member
    refine ⟨c, listed, fun c' listed' => ?_⟩
    obtain ⟨r', member', pair'⟩ := forall₂_left h listed'
    exact (pair'.flags_iff pair).mp (only r' member')
  · rintro ⟨c, listed, only⟩
    obtain ⟨r, member, pair⟩ := forall₂_left h listed
    refine ⟨r, member, fun r' member' => ?_⟩
    obtain ⟨c', listed', pair'⟩ := forall₂_right h member'
    exact (pair'.flags_iff pair).mpr (only c' listed')

theorem head_any {p : PairedRow → Bool} {q : CsvRow → Bool} (same : ∀ r c, Paired r c → p r = q c) (h : List.Forall₂ Paired rs cs) :
    rs.head?.any p = cs.head?.any q := by
  cases h with
  | nil => rfl
  | cons pair _ => exact same _ _ pair

/-- The row of a gate, on both sides. -/
theorem find_gate (h : List.Forall₂ Paired rs cs) {gate : Gate} (member : gate ∈ gates) :
    Option.Rel Paired (rs.find? fun r => decide (r.label = gateLabel gate.1 gate.2)) (cs.find? fun c => decide (c.gate = barLabel gate)) := by
  induction h with
  | nil => exact .none
  | @cons r c rs cs pair _ ih =>
    by_cases here : r.label = gateLabel gate.1 gate.2
    · have there : c.gate = barLabel gate := (pair.label_iff member).mp here
      simp only [List.find?_cons, here, there, decide_true]
      exact .some pair
    · have other : c.gate ≠ barLabel gate := fun same => here ((pair.label_iff member).mpr same)
      simp only [List.find?_cons, here, other, decide_false]
      exact ih

/-- A decision, on both sides. -/
abbrev PairedDecision : Decision PairedRow → Decision CsvRow → Prop := Keyed (List.Forall₂ Paired)

variable {ds : List (Decision PairedRow)} {es : List (Decision CsvRow)}

theorem csvSum_eq {field : PairedRow → Int} {field' : CsvRow → Str} {gate : Gate} (member : gate ∈ gates)
    (read : ∀ r c, Paired r c → toInt (.str (field' c)) = .ok (field r)) (h : List.Forall₂ PairedDecision ds es)
    (complete : ∀ d ∈ ds, gateLabel gate.1 gate.2 ∈ d.2.map PairedRow.label) :
    csvSum field' (barLabel gate) es = .ok (pickedSum field (gateLabel gate.1 gate.2) ds) := by
  induction h with
  | nil => rfl
  | @cons d e ds es pair _ ih =>
    have found := find_gate pair.2 member
    have rest := ih fun d' later => complete d' (List.mem_cons_of_mem _ later)
    rw [csvSum, rest, pickedSum_cons]
    cases picked : d.2.find? fun r => decide (r.label = gateLabel gate.1 gate.2) with
    | none =>
      obtain ⟨r, listed, label⟩ := List.mem_map.mp (complete d List.mem_cons_self)
      exact absurd (decide_eq_true label) (List.find?_eq_none.mp picked r listed)
    | some r =>
      rw [picked] at found
      cases picked' : e.2.find? fun c => decide (c.gate = barLabel gate) with
      | none => rw [picked'] at found; cases found
      | some c =>
        rw [picked'] at found
        cases found with
        | some pair =>
          simp only [read r c pair]
          rfl

/-! ### One latency -/

theorem forall₂_complete (h : List.Forall₂ Paired rs cs) :
    List.Forall₂ PairedDecision (completeDecisions gates rs) (completeCsv (sortedTexts (gates.map barLabel)) cs) := by
  refine List.rel_filter (fun d e pair => ?_) (forall₂_groupBy (fun r c pair => pair.readBack.decisionId.symm) h)
  exact (decide_eq_true_iff.trans (complete_iff pair.2)).trans decide_eq_true_iff.symm

theorem forall₂_concordant (h : List.Forall₂ PairedDecision ds es) :
    List.Forall₂ PairedDecision (ds.filter PairedRow.concordant) (es.filter CsvRow.concordant) := by
  refine List.rel_filter (fun d e pair => ?_) h
  exact (decide_eq_true_iff.trans (concordant_iff pair.2)).trans decide_eq_true_iff.symm

theorem forall₂_withFirst {p : PairedRow → Bool} {q : CsvRow → Bool} (same : ∀ r c, Paired r c → p r = q c)
    (h : List.Forall₂ PairedDecision ds es) : List.Forall₂ PairedDecision (withFirst p ds) (withFirst q es) := by
  refine List.rel_filter (fun d e pair => ?_) h
  change d.2.head?.any p = true ↔ e.2.head?.any q = true
  rw [head_any same pair.2]

/-- The sum over the decisions of one kind is the sum over all, where no other one counts anything. -/
theorem csvSum_withFirst {field : PairedRow → Int} {field' : CsvRow → Str} {p : PairedRow → Bool} {q : CsvRow → Bool}
    (same : ∀ r c, Paired r c → p r = q c) (read : ∀ r c, Paired r c → toInt (.str (field' c)) = .ok (field r))
    (none : ∀ r first : PairedRow, r.Sound → p first = false → r.obsolete = first.obsolete → r.ambiguous = first.ambiguous → field r = 0)
    (h : List.Forall₂ Paired rs cs) {gate : Gate} (member : gate ∈ gates) :
    csvSum field' (barLabel gate) (withFirst q ((completeCsv (sortedTexts (gates.map barLabel)) cs).filter CsvRow.concordant)) =
      .ok (pickedSum field (gateLabel gate.1 gate.2) ((completeDecisions gates rs).filter PairedRow.concordant)) := by
  have concordant := forall₂_concordant (forall₂_complete h)
  rw [csvSum_eq member read (forall₂_withFirst same concordant) fun d listed => ?_]
  · refine congrArg _ (Eq.symm (pickedSum_filter _ fun d listed failed r inside => ?_))
    obtain ⟨e, _, pair⟩ := forall₂_right concordant listed
    obtain ⟨c, _, row⟩ := forall₂_right pair.2 inside
    obtain ⟨first, other, obsolete, ambiguous⟩ := flags_of_head listed failed inside
    exact none r first row.written.sound other obsolete ambiguous
  · have all := (of_decide_eq_true (List.mem_filter.mp (List.mem_filter.mp (List.mem_filter.mp listed).1).1).2).2.2
    exact all _ (by rw [labelSet_gates]; exact List.mem_map_of_mem member)

/-- What the rates of a gate count. -/
def RatesCount (decisions : List (Decision PairedRow)) (g : Str) (item : Str × GateRates) : Prop :=
  item.1 = g ∧ ∀ gate ∈ gates, barLabel gate = g →
    item.2.staleReleased.k = pickedSum PairedRow.staleRelease (gateLabel gate.1 gate.2) decisions ∧
      item.2.falseRevocations.k = pickedSum PairedRow.falseRevocation (gateLabel gate.1 gate.2) decisions

theorem gateRates_count (h : List.Forall₂ Paired rs cs) {g : Str} (member : g ∈ sortedTexts (gates.map barLabel)) :
    ∃ item, gateRates
      (withFirst CsvRow.isObsolete ((completeCsv (sortedTexts (gates.map barLabel)) cs).filter CsvRow.concordant))
      (withFirst CsvRow.isValid ((completeCsv (sortedTexts (gates.map barLabel)) cs).filter CsvRow.concordant)) g = .ok item ∧
      RatesCount ((completeDecisions gates rs).filter PairedRow.concordant) g item := by
  obtain ⟨gate, listed, rfl⟩ := List.mem_map.mp ((List.perm_insertionSort _ _).subset member)
  have stale := csvSum_withFirst (fun _ _ => Paired.isObsolete) (fun _ _ => Paired.toInt_staleRelease)
    (fun r first sound failed same _ => sound.valid (same.trans (by simpa [PairedRow.isObsolete] using failed))) h listed
  have falser := csvSum_withFirst (fun _ _ => Paired.isValid) (fun _ _ => Paired.toInt_falseRevocation)
    (fun r first sound failed same same' => sound.other (by rw [same, same']; exact of_decide_eq_false failed)) h listed
  rw [gateRates, stale, falser]
  refine ⟨_, rfl, rfl, fun gate' listed' same => ?_⟩
  obtain rfl := (labels_apart gate' listed' gate listed).2 same
  exact ⟨rfl, rfl⟩

/-- The two summaries of one latency. -/
theorem cells_agree (h : List.Forall₂ Paired rs cs) (rate : PyFloat) :
    ∃ cell, pairedCell (sortedTexts (gates.map barLabel)) rate cs = .ok cell ∧ CellsAgree (summaryCell gates rs) cell := by
  have complete := forall₂_complete h
  have concordant := forall₂_concordant complete
  have obsolete := forall₂_withFirst (fun _ _ => Paired.isObsolete) concordant
  have valid := forall₂_withFirst (fun _ _ => Paired.isValid) concordant
  obtain ⟨rates, computed, counts⟩ := exists_mapM fun g (member : g ∈ sortedTexts (gates.map barLabel)) => gateRates_count h member
  rw [pairedCell, computed]
  refine ⟨_, rfl, complete.length_eq, ?_, obsolete.length_eq, valid.length_eq, fun gate member => ?_⟩
  · have parts := List.length_eq_length_filter_add (l := completeDecisions gates rs) PairedRow.concordant
    change ((completeDecisions gates rs).filter fun d => !PairedRow.concordant d).length =
      (completeCsv (sortedTexts (gates.map barLabel)) cs).length -
        ((completeCsv (sortedTexts (gates.map barLabel)) cs).filter CsvRow.concordant).length
    rw [← complete.length_eq, ← concordant.length_eq]
    omega
  · have sorted : barLabel gate ∈ sortedTexts (gates.map barLabel) :=
      (List.perm_insertionSort _ _).symm.subset (List.mem_map_of_mem member)
    obtain ⟨item, listed, key, count⟩ := forall₂_right counts sorted
    have distinct : (rates.map Prod.fst).Nodup := by
      rw [keys_of_forall₂ (counts.imp fun _ _ count => count.1)]
      exact (List.perm_insertionSort _ _).nodup_iff.mpr (by decide)
    obtain ⟨stale, falser⟩ := count gate member rfl
    refine ⟨⟨_, _⟩, item.2, ?_, Dict.get_insertAll_of_mem _ distinct ?_, stale.symm, falser.symm⟩
    · refine (Dict.get_insertAll_map _ _ _ _).trans (if_pos ?_)
      refine (List.perm_insertionSort _ _).symm.subset ?_
      rw [labelSet_gates]
      exact List.mem_map_of_mem member
    · change (barLabel gate, item.2) ∈ rates
      rw [← key]
      exact listed

/-! ### The tables -/

/-- A gate of each kind has been read. -/
theorem sorted_bars (h : List.Forall₂ Paired rs cs)
    (every : ∀ gate ∈ gates, ∃ r ∈ rs, r.mode = gate.1 ∧ r.scope = gate.2.getD []) :
    sortedTexts (cs.map CsvRow.gate).dedup = sortedTexts (gates.map barLabel) := by
  rw [sortedTexts_eq_iff, List.perm_ext_iff_of_nodup (List.nodup_dedup _) (by decide)]
  intro bar
  rw [List.mem_dedup, List.mem_map, List.mem_map]
  constructor
  · rintro ⟨c, member, rfl⟩
    obtain ⟨r, _, pair⟩ := forall₂_left h member
    obtain ⟨gate, listed, _, same⟩ := pair.gate
    exact ⟨gate, listed, same.symm⟩
  · rintro ⟨gate, listed, rfl⟩
    obtain ⟨r, member, mode, scope⟩ := every gate listed
    obtain ⟨c, here, pair⟩ := forall₂_right h member
    exact ⟨c, here, by rw [CsvRow.gate, pair.readBack.mode, pair.readBack.scope, mode, scope, barLabel]⟩

theorem toFloat_of_parse {text : Str} {x : PyFloat} (parsed : parseFloat text = some x) : toFloat (.str text) = .ok x := by
  delta toFloat
  dsimp only
  rw [parsed]

theorem read_latencies (h : List.Forall₂ Paired rs cs) :
    (cs.mapM fun c => toFloat (.str c.latencyMin)) = .ok (rs.map PairedRow.latencyMin) := by
  induction h with
  | nil => rfl
  | cons pair _ ih =>
    rw [List.mapM_cons, toFloat_of_parse pair.readBack.latencyMin, ih]
    rfl

theorem read_rate (h : List.Forall₂ Paired rs cs) : ∃ rate, firstRate cs = .ok rate := by
  cases h with
  | nil => exact ⟨_, rfl⟩
  | cons pair _ =>
    rw [firstRate]
    split
    · exact ⟨_, rfl⟩
    · exact ⟨_, toFloat_of_parse pair.readBack.updateRateHz⟩

/-- The rows of one latency. -/
theorem forall₂_latency (h : List.Forall₂ Paired rs cs) (L : PyFloat) :
    List.Forall₂ Paired (rs.filter fun r => r.latencyMin.eq L)
      ((((rs.map PairedRow.latencyMin).zip cs).filter fun item => item.1.eq L).map Prod.snd) := by
  induction h with
  | nil => exact .nil
  | @cons r c rs cs pair _ ih =>
    rw [List.map_cons, List.zip_cons_cons]
    cases here : r.latencyMin.eq L with
    | true =>
      simp only [List.filter_cons, here, if_true, List.map_cons]
      exact .cons pair ih
    | false =>
      simp only [List.filter_cons, here, Bool.false_eq_true, if_false]
      exact ih

/-- The tables agree on the rows of a run exactly if no two latencies are written with the same six digits. -/
theorem tables_agree_iff {rows : List PairedRow} {csv : List CsvRow} (written : ∀ r ∈ rows, r.Written)
    (readBack : List.Forall₂ PairedRow.ReadBack rows csv)
    (every : ∀ gate ∈ gates, ∃ r ∈ rows, r.mode = gate.1 ∧ r.scope = gate.2.getD []) :
    ∃ table, e20Paired csv = .ok table ∧ (TablesAgree (summarizePaired gates rows) table ↔
      ∀ r ∈ rows, ∀ r' ∈ rows, generalText r.latencyMin = generalText r'.latencyMin → r.latencyMin = r'.latencyMin) := by
  have h : List.Forall₂ Paired rows csv := by
    clear every
    induction readBack with
    | nil => exact .nil
    | cons first _ ih =>
      exact .cons ⟨written _ List.mem_cons_self, first⟩ (ih fun r member => written r (List.mem_cons_of_mem _ member))
  obtain ⟨rate, first⟩ := read_rate h
  have each : ∀ L ∈ sortedLatencies (rows.map PairedRow.latencyMin), ∃ item : Str × PairedCell, latencyCell csv
      (sortedTexts (csv.map CsvRow.gate).dedup) (rows.map PairedRow.latencyMin) L = .ok item ∧ item.1 = generalText L ∧
        CellsAgree (summaryCell gates (rows.filter fun r => r.latencyMin.eq L)) item.2 := fun L _ => by
    obtain ⟨cell, computed, agree⟩ := cells_agree (forall₂_latency h L) rate
    refine ⟨(generalText L, cell), ?_, rfl, agree⟩
    rw [latencyCell, first, sorted_bars h every]
    simp only [bind, Except.bind, computed]
    rfl
  obtain ⟨cells, computed, counts⟩ := exists_mapM each
  have keys : cells.map Prod.fst = (sortedLatencies (rows.map PairedRow.latencyMin)).map generalText :=
    keys_of_forall₂ (List.forall₂_map_left_iff.mpr (counts.imp fun _ _ same => same.1))
  refine ⟨Dict.empty.insertAll cells, ?_, ?_⟩
  · rw [e20Paired, read_latencies h]
    simp only [bind, Except.bind, computed]
    rfl
  have listed : ∀ r ∈ rows, r.latencyMin ∈ sortedLatencies (rows.map PairedRow.latencyMin) := fun r member =>
    mem_sortedLatencies.mpr (List.mem_map_of_mem member)
  constructor
  · intro agree
    rw [TablesAgree, items_summarizePaired, List.forall₂_map_left_iff] at agree
    have texts := keys_of_forall₂ (List.forall₂_map_left_iff.mpr (agree.imp fun _ _ same => same.1))
    have distinct := (Dict.empty.insertAll cells).distinct
    rw [texts] at distinct
    intro r member r' member' same
    exact List.inj_on_of_nodup_map distinct (listed r member) (listed r' member') same
  · intro apart
    have distinct : (cells.map Prod.fst).Nodup := by
      rw [keys]
      refine (sortedLatencies_nodup _).map_on fun L member L' member' same => ?_
      obtain ⟨r, here, rfl⟩ := List.mem_map.mp (mem_sortedLatencies.mp member)
      obtain ⟨r', here', rfl⟩ := List.mem_map.mp (mem_sortedLatencies.mp member')
      exact apart r here r' here' same
    have items : (Dict.empty.insertAll cells).items = cells := Dict.items_insertAll _ distinct
    rw [TablesAgree, items_summarizePaired, items, List.forall₂_map_left_iff]
    exact counts

end

/-- A row as `csv.DictWriter` writes it, with this text for its latency. -/
def csvOf (latencyText : Str) (r : PairedRow) : CsvRow where
  latencyMin := latencyText
  decisionId := r.decisionId
  mode := r.mode
  scope := r.scope
  obsolete := intText r.obsolete
  ambiguous := intText r.ambiguous
  staleRelease := intText r.staleRelease
  falseRevocation := intText r.falseRevocation
  updateRateHz := "10.0".toList

/-- A released intent on a machine that is idle. -/
def validRow (latencyMin : PyFloat) (decisionId : Str) (gate : Gate) : PairedRow :=
  submitOne latencyMin decisionId gate true .idle .idle (.fin 10)

theorem validRow_written (latencyMin : PyFloat) (decisionId : Str) {gate : Gate} (member : gate ∈ gates) :
    (validRow latencyMin decisionId gate).Written :=
  ⟨latencyMin, decisionId, gate, member, true, .idle, .idle, .fin 10, rfl⟩

theorem readBack_validRow {text : Str} {latencyMin : PyFloat} (parsed : @parseFloat PyText.ascii text = some latencyMin)
    (decisionId : Str) (gate : Gate) :
    @PairedRow.ReadBack PyText.ascii (validRow latencyMin decisionId gate) (csvOf text (validRow latencyMin decisionId gate)) :=
  have rate : @parseFloat PyText.ascii "10.0".toList = some (.fin 10) := by decide +kernel
  @PairedRow.ReadBack.mk PyText.ascii _ _ parsed rfl rfl rfl rfl rfl rfl rfl rate

/-- One decision through every gate, half an hour later. -/
def halfHourRows : List PairedRow := gates.map (validRow (.fin 30) "a".toList)

theorem tables_agree_halfHour : ∃ table, @e20Paired PyText.ascii (halfHourRows.map (csvOf "30.0".toList)) = .ok table ∧
    TablesAgree (summarizePaired gates halfHourRows) table := by
  have parsed : @parseFloat PyText.ascii "30.0".toList = some (.fin 30) := by decide +kernel
  have latency : ∀ r ∈ halfHourRows, r.latencyMin = .fin 30 := by
    intro r member
    obtain ⟨gate, _, rfl⟩ := List.mem_map.mp member
    rfl
  obtain ⟨table, computed, agree⟩ := @tables_agree_iff PyText.ascii halfHourRows (halfHourRows.map (csvOf "30.0".toList))
    (fun r member => by
      obtain ⟨gate, listed, rfl⟩ := List.mem_map.mp member
      exact validRow_written _ _ listed)
    (by
      rw [List.forall₂_map_right_iff, List.forall₂_same]
      intro r member
      obtain ⟨gate, _, rfl⟩ := List.mem_map.mp member
      exact readBack_validRow parsed _ _)
    (fun gate listed => ⟨_, List.mem_map_of_mem listed, rfl, rfl⟩)
  refine ⟨table, computed, agree.mpr fun r member r' member' _ => ?_⟩
  rw [latency r member, latency r' member']

/-- The double of 30.00001 minutes. -/
def closeLatency : PyFloat := .fin (8444252116069447 / 281474976710656)

/-- The rows of two latencies that both read `30` with six digits. -/
def closeRows : List PairedRow := halfHourRows ++ [validRow closeLatency "b".toList ("direct".toList, none)]

def closeCsv : List CsvRow :=
  halfHourRows.map (csvOf "30.0".toList) ++ [csvOf "30.00001".toList (validRow closeLatency "b".toList ("direct".toList, none))]

/-- The cell of the second latency overwrites that of the first. -/
theorem tables_differ : ¬∀ (rows : List PairedRow) (csv : List CsvRow), (∀ r ∈ rows, r.Written) →
    List.Forall₂ (@PairedRow.ReadBack PyText.ascii) rows csv →
    (∀ gate ∈ gates, ∃ r ∈ rows, r.mode = gate.1 ∧ r.scope = gate.2.getD []) →
    ∃ table, @e20Paired PyText.ascii csv = .ok table ∧ TablesAgree (summarizePaired gates rows) table := by
  intro always
  have parsed : @parseFloat PyText.ascii "30.0".toList = some (.fin 30) := by decide +kernel
  have parsed' : @parseFloat PyText.ascii "30.00001".toList = some closeLatency := by decide +kernel
  obtain ⟨table, computed, agree⟩ := always closeRows closeCsv
    (fun r member => by
      rcases List.mem_append.mp member with first | last
      · obtain ⟨gate, listed, rfl⟩ := List.mem_map.mp first
        exact validRow_written _ _ listed
      · obtain rfl := List.mem_singleton.mp last
        exact validRow_written _ _ (by decide))
    (by
      refine List.rel_append ?_ (.cons (readBack_validRow parsed' _ _) .nil)
      rw [List.forall₂_map_right_iff, List.forall₂_same]
      intro r member
      obtain ⟨gate, _, rfl⟩ := List.mem_map.mp member
      exact readBack_validRow parsed _ _)
    (fun gate listed => ⟨_, List.mem_append_left _ (List.mem_map_of_mem listed), rfl, rfl⟩)
  have cells : (summarizePaired gates closeRows).items.length = 2 := by decide +kernel
  have one : (match @e20Paired PyText.ascii closeCsv with
      | .ok table => table.items.length
      | .error _ => 0) = 1 := by decide +kernel
  rw [computed] at one
  have same := agree.length_eq
  rw [cells] at same
  exact absurd (same.trans one) (by decide)

end Xair
