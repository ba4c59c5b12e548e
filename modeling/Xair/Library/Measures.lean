import Xair.Library.StepFunction
import Mathlib.MeasureTheory.Integral.Bochner.Set
import Mathlib.MeasureTheory.Measure.Count
import Mathlib.MeasureTheory.Measure.Lebesgue.Basic
import Mathlib.Probability.ConditionalProbability

/-!
# Measures of sets of times

The lengths of sets given by a step function, and the mean of draws from a part of a
finite number of lines.
-/

namespace Xair.Library

open MeasureTheory Set

/-! ### Lengths -/

/-- A set between an open interval and its closure has the interval's length. -/
theorem volume_between {A : Set ℝ} {lo hi : ℝ} (inner : Ioo lo hi ⊆ A) (outer : A ⊆ Icc lo hi) : volume.real A = max (hi - lo) 0 := by
  refine le_antisymm ?_ ?_
  · rw [← Real.volume_real_Icc]
    exact measureReal_mono outer measure_Icc_lt_top.ne
  · rw [← Real.volume_real_Ioo]
    exact measureReal_mono inner (measure_ne_top_of_subset outer measure_Icc_lt_top.ne)

/-- A bounded set splits at a time. -/
theorem volume_split {A : Set ℝ} {lo hi : ℝ} (bounded : A ⊆ Icc lo hi) {a u : ℝ} (le : a ≤ u) :
    volume.real (A ∩ Ici a) = volume.real (A ∩ Ico a u) + volume.real (A ∩ Ici u) := by
  have finite : volume (A ∩ Ici a) ≠ ⊤ := measure_ne_top_of_subset (inter_subset_left.trans bounded) measure_Icc_lt_top.ne
  rw [← measureReal_inter_add_sdiff measurableSet_Iio finite (t := Iio u)]
  congr 2
  · rw [inter_assoc, Ici_inter_Iio]
  · ext t
    simp only [mem_sdiff, mem_inter_iff, mem_Ici, mem_Iio, not_lt]
    exact ⟨fun h => ⟨h.1.1, h.2⟩, fun h => ⟨⟨h.1, le.trans h.2⟩, h.2⟩⟩

/-! ### Sets given by breakpoints -/

theorem measurableSet_valueAt {S : Type} (s : S) (bs : List (ℝ × S)) (value : S) : MeasurableSet {t | valueAt s bs t = value} := by
  induction bs generalizing s with
  | nil => exact MeasurableSet.const (s = value)
  | cons p rest ih =>
    have pieces : {t | valueAt s (p :: rest) t = value} = Ici p.1 ∩ {t | valueAt p.2 rest t = value} ∪ Iio p.1 ∩ {_t | s = value} := by
      ext t
      by_cases due : p.1 ≤ t
      · simp [valueAt, due]
      · simp [valueAt, due, lt_of_not_ge due]
    rw [pieces]
    exact (measurableSet_Ici.inter (ih p.2)).union (measurableSet_Iio.inter (MeasurableSet.const _))

theorem measurableSet_nextAfter (times : List ℝ) (latency : ℝ) :
    MeasurableSet {t | nextAfter times t ≤ ((t + latency : ℝ) : WithTop ℝ)} := by
  induction times with
  | nil => simp [nextAfter]
  | cons u rest ih =>
    have pieces : {t | nextAfter (u :: rest) t ≤ ((t + latency : ℝ) : WithTop ℝ)} =
        Iio u ∩ Ici (u - latency) ∪ Ici u ∩ {t | nextAfter rest t ≤ ((t + latency : ℝ) : WithTop ℝ)} := by
      ext t
      rw [mem_union, mem_inter_iff, mem_inter_iff]
      simp only [mem_ofPred_eq, mem_Iio, mem_Ici, nextAfter, List.findIdx_cons]
      by_cases early : t < u
      · simp only [early, decide_true, cond_true, List.getElem?_cons_zero, WithTop.coe_le_coe, true_and, not_le.mpr early, false_and, or_false]
        exact sub_le_iff_le_add.symm
      · simp only [early, decide_false, cond_false, List.getElem?_cons_succ, false_and, false_or, not_lt.mp early, true_and]
    rw [pieces]
    exact (measurableSet_Iio.inter measurableSet_Ici).union (measurableSet_Ici.inter ih)

/-! ### Draws -/

section

variable {n : Nat} {A : Fin n → Set ℝ}

theorem measurableSet_fibers (measurable : ∀ i, MeasurableSet (A i)) : MeasurableSet {x : Fin n × ℝ | x.2 ∈ A x.1} := by
  have union : {x : Fin n × ℝ | x.2 ∈ A x.1} = ⋃ i, {i} ×ˢ A i := by
    ext x
    simp
  rw [union]
  exact MeasurableSet.iUnion fun i => (measurableSet_singleton i).prod (measurable i)

/-- A set of times on each of `n` lines measures the sum of their lengths. -/
theorem count_prod_fibers (measurable : ∀ i, MeasurableSet (A i)) :
    (Measure.count.prod volume) {x : Fin n × ℝ | x.2 ∈ A x.1} = ∑ i, volume (A i) := by
  have union : {x : Fin n × ℝ | x.2 ∈ A x.1} = ⋃ i, {i} ×ˢ A i := by
    ext x
    simp
  have disjoint : Pairwise (Function.onFun Disjoint fun i => ({i} : Set (Fin n)) ×ˢ A i) := fun i j different =>
    Set.disjoint_left.mpr fun x one other => different (one.1.symm.trans other.1)
  rw [union, measure_iUnion disjoint fun i => (measurableSet_singleton i).prod (measurable i), tsum_fintype]
  simp [Measure.prod_prod]

/-- How likely a point of one part is in another one. -/
theorem cond_fibers {B : Fin n → Set ℝ} (measurable : ∀ i, MeasurableSet (A i)) (measurable' : ∀ i, MeasurableSet (B i))
    (finite : ∀ i, volume (A i) ≠ ⊤) :
    (ProbabilityTheory.cond (Measure.count.prod volume) {x : Fin n × ℝ | x.2 ∈ A x.1}).real {x | x.2 ∈ B x.1} =
      (∑ i, volume.real (A i ∩ B i)) / ∑ i, volume.real (A i) := by
  have both : {x : Fin n × ℝ | x.2 ∈ A x.1} ∩ {x | x.2 ∈ B x.1} = {x | x.2 ∈ A x.1 ∩ B x.1} := rfl
  rw [Measure.real, ProbabilityTheory.cond_apply (measurableSet_fibers measurable), both, count_prod_fibers measurable,
    count_prod_fibers (A := fun i => A i ∩ B i) fun i => (measurable i).inter (measurable' i), ENNReal.toReal_mul, ENNReal.toReal_inv,
    ENNReal.toReal_sum fun i _ => finite i, ENNReal.toReal_sum fun i _ => measure_ne_top_of_subset inter_subset_left (finite i)]
  exact inv_mul_eq_div _ _

end

/-- The mean share of draws in a set is its probability. -/
theorem integral_share {α Ω : Type} [MeasurableSpace α] [MeasurableSpace Ω] {law : Measure α} [IsFiniteMeasure law] {P : Measure Ω}
    {n : Nat} (drawn : n ≠ 0) {X : Fin n → Ω → α} (measurable : ∀ k, AEMeasurable (X k) P) (draws : ∀ k, P.map (X k) = law) {B : Set α}
    (measurableB : MeasurableSet B) : ∫ ω, (∑ k, B.indicator 1 (X k ω)) / (n : ℝ) ∂P = law.real B := by
  have one : ∀ k, ∫ ω, B.indicator (1 : α → ℝ) (X k ω) ∂P = law.real B := by
    intro k
    rw [← integral_map (f := B.indicator (1 : α → ℝ)) (measurable k) (measurable_one.indicator measurableB).aestronglyMeasurable, draws k,
      integral_indicator_one measurableB]
  have integrable : ∀ k, Integrable (fun ω => B.indicator (1 : α → ℝ) (X k ω)) P := by
    intro k
    have score : Integrable (B.indicator (1 : α → ℝ)) (P.map (X k)) := by
      rw [draws k]
      exact (integrable_const (1 : ℝ)).indicator measurableB
    exact score.comp_aemeasurable (measurable k)
  rw [integral_div, integral_finsetSum _ fun k _ => integrable k, Finset.sum_congr rfl fun k _ => one k, Finset.sum_const, Finset.card_univ,
    Fintype.card_fin, nsmul_eq_mul, mul_div_cancel_left₀ _ (Nat.cast_ne_zero.mpr drawn)]

end Xair.Library
