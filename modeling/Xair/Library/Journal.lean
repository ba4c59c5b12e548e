import Mathlib

/-!
# Journals of state machines

A journal has, newest first, the states that keyed machines were seen in. An entry that
repeats the last state of its key is no arrival.
-/

namespace Xair.Library

namespace Journal

variable {κ σ : Type} [DecidableEq κ] [DecidableEq σ]

/-- The state a key was last seen in. -/
def last : List (κ × σ) → κ → Option σ
  | [], _ => none
  | e :: older, k => if e.1 = k then some e.2 else last older k

/-- The arrivals of all keys, each with the weight of the state it arrives in. -/
def arrivals (weight : σ → Nat) : List (κ × σ) → Nat
  | [] => 0
  | e :: older => arrivals weight older + if last older e.1 = some e.2 then 0 else weight e.2

/-- Every entry repeats the last state of its key, starts its key again, or is one step further. -/
def Lawful (start : σ → Prop) (step : σ → σ → Prop) : List (κ × σ) → Prop
  | [] => True
  | e :: older => Lawful start step older ∧
      (last older e.1 = some e.2 ∨ start e.2 ∨ ∃ s, last older e.1 = some s ∧ step s e.2)

theorem arrivals_add (v w : σ → Nat) (journal : List (κ × σ)) :
    arrivals (fun s => v s + w s) journal = arrivals v journal + arrivals w journal := by
  induction journal with
  | nil => rfl
  | cons e older ih =>
    simp only [arrivals, ih]
    split <;> omega

/-! ### One part of the keys -/

omit [DecidableEq σ] in
theorem last_filter (p : κ → Bool) {k : κ} (kept : p k = true) (journal : List (κ × σ)) :
    last (journal.filter fun e => p e.1) k = last journal k := by
  induction journal with
  | nil => rfl
  | cons e older ih =>
    by_cases same : e.1 = k
    · simp [last, kept, same]
    · by_cases keeps : p e.1 = true
      · simp [last, keeps, same, ih]
      · simp [last, keeps, same, ih]

/-- The arrivals are those of the keys with `p` and those of the others. -/
theorem arrivals_filter (p : κ → Bool) (weight : σ → Nat) (journal : List (κ × σ)) :
    arrivals weight journal =
      arrivals weight (journal.filter fun e => p e.1) + arrivals weight (journal.filter fun e => !p e.1) := by
  induction journal with
  | nil => rfl
  | cons e older ih =>
    by_cases keeps : p e.1 = true
    · have seen := last_filter p keeps older
      simp [arrivals, keeps, seen]
      omega
    · have seen := last_filter (fun k => !p k) (k := e.1) (by simp [keeps]) older
      simp [arrivals, keeps, seen]
      omega

omit [DecidableEq σ] in
/-- With another key taken out the entries of a key are still there. -/
theorem filter_others {k k' : κ} (ne : k ≠ k') (journal : List (κ × σ)) :
    (journal.filter fun e => !decide (e.1 = k')).filter (fun e => decide (e.1 = k)) = journal.filter fun e => decide (e.1 = k) := by
  rw [List.filter_filter]
  apply List.filter_congr
  intro e _
  by_cases own : e.1 = k
  · simp [own, ne]
  · simp [own]

/-- What holds of the arrivals of each key holds of those of all. -/
theorem arrivals_le_of_keys {v w : σ → Nat} {journal : List (κ × σ)}
    (each : ∀ k, arrivals v (journal.filter fun e => decide (e.1 = k)) ≤ arrivals w (journal.filter fun e => decide (e.1 = k))) :
    arrivals v journal ≤ arrivals w journal := by
  -- by the number of entries: the key of the newest one is taken out with all of its entries
  induction size : journal.length using Nat.strong_induction_on generalizing journal with
  | _ n ih =>
    cases journal with
    | nil => exact Nat.le_refl _
    | cons e older =>
      have own := each e.1
      have others : arrivals v ((e :: older).filter fun e' => !decide (e'.1 = e.1)) ≤
          arrivals w ((e :: older).filter fun e' => !decide (e'.1 = e.1)) := by
        refine ih _ ?_ (fun k => ?_) rfl
        · have fewer := List.length_filter_le (fun e' : κ × σ => !decide (e'.1 = e.1)) older
          simp at size ⊢
          omega
        · by_cases same : k = e.1
          · subst same
            rw [List.filter_filter]
            simp [arrivals]
          · rw [filter_others same]
            exact each k
      have allV := arrivals_filter (fun k => decide (k = e.1)) v (e :: older)
      have allW := arrivals_filter (fun k => decide (k = e.1)) w (e :: older)
      omega

/-! ### Flows -/

/-- What flows out at a step has flown in before: a machine holds `level s` of it in the state `s`. -/
structure Flow (start : σ → Prop) (step : σ → σ → Prop) (into out level : σ → Nat) : Prop where
  start : ∀ s, start s → out s + level s ≤ into s
  step : ∀ s t, step s t → out t + level t ≤ into t + level s

variable {start : σ → Prop} {step : σ → σ → Prop} {into out level : σ → Nat}

theorem Flow.key (flow : Flow start step into out level) {journal : List (κ × σ)} (lawful : Lawful start step journal) (k : κ) :
    arrivals out (journal.filter fun e => decide (e.1 = k)) + (last journal k).elim 0 level ≤
      arrivals into (journal.filter fun e => decide (e.1 = k)) := by
  induction journal with
  | nil => simp [arrivals, last]
  | cons e older ih =>
    obtain ⟨before, entry⟩ := lawful
    have earlier := ih before
    by_cases own : e.1 = k
    · subst own
      have seen := last_filter (fun k => decide (k = e.1)) (k := e.1) (by simp) older
      simp only [List.filter_cons, decide_true, if_true, arrivals, seen, last, Option.elim_some]
      rcases entry with again | starts | ⟨s, was, steps⟩
      · rw [again, Option.elim_some] at earlier
        simp only [again, if_true]
        omega
      · have balance := flow.start e.2 starts
        split
        · rename_i again
          rw [again, Option.elim_some] at earlier
          omega
        · omega
      · have balance := flow.step s e.2 steps
        rw [was, Option.elim_some] at earlier
        split
        · rename_i again
          obtain rfl := Option.some.inj (was.symm.trans again)
          omega
        · omega
    · simpa [List.filter_cons, own, last] using earlier

/-- Over all keys no more flows out than in. -/
theorem Flow.arrivals_le (flow : Flow start step into out level) {journal : List (κ × σ)} (lawful : Lawful start step journal) :
    arrivals out journal ≤ arrivals into journal := by
  refine arrivals_le_of_keys fun k => ?_
  have own := flow.key lawful k
  omega

end Journal

end Xair.Library
