/-
  QwNet.Lib.Trimming

  Samples without their outliers.

  Of a list of samples the one that is farthest from the mean is removed, again and
  again, until the samples deviate little enough.  The mean is truncated; it still lies
  between two of the samples, and a single sample does not deviate from it.
-/
import Mathlib.Algebra.Order.BigOperators.Group.List
import Mathlib.Analysis.Real.Sqrt
import Mathlib.Data.Nat.Dist

namespace Trimming

/-! ## The mean -/

/-- The truncated mean. -/
def mean (xs : List Nat) : Nat := xs.sum / xs.length

@[simp] theorem mean_singleton (x : Nat) : mean [x] = x := by
  simp [mean]

theorem exists_le_mean {xs : List Nat} (hne : xs ≠ []) : ∃ x ∈ xs, x ≤ mean xs := by
  by_contra hall
  push Not at hall
  -- otherwise the sum would exceed the mean by one for every sample
  have hsum := List.card_nsmul_le_sum xs (mean xs + 1) fun x hx => hall x hx
  have hlt : xs.sum < xs.length * (mean xs + 1) :=
    Nat.lt_mul_div_succ xs.sum (List.length_pos_iff.mpr hne)
  rw [smul_eq_mul] at hsum
  omega

theorem exists_mean_le {xs : List Nat} (hne : xs ≠ []) : ∃ x ∈ xs, mean xs ≤ x := by
  by_contra hall
  push Not at hall
  have hsum : xs.sum < (xs.map fun _ => mean xs).sum := by
    have hlt := List.sum_lt_sum_of_ne_nil hne id (fun _ => mean xs) hall
    rwa [List.map_id] at hlt
  have hle : mean xs * xs.length ≤ xs.sum := Nat.div_mul_le_self ..
  rw [List.map_const', List.sum_replicate, smul_eq_mul, Nat.mul_comm] at hsum
  omega

/-! ## The deviation -/

/-- The standard deviation of samples from `m`. -/
noncomputable def deviation (m : ℝ) (xs : List ℝ) : ℝ :=
  √((xs.map fun x => (x - m) ^ 2).sum / xs.length)

/-- The sum of the squared differences from `m`. -/
def squares (m : Int) (xs : List Int) : Int := (xs.map fun x => (x - m) ^ 2).sum

theorem squares_self (m : Int) : squares m [m] = 0 := by
  simp [squares]

theorem cast_squares (m : Int) (xs : List Int) :
    (squares m xs : ℝ) = ((xs.map (Int.cast : Int → ℝ)).map fun x => (x - (m : ℝ)) ^ 2).sum := by
  rw [squares, Int.cast_list_sum, List.map_map, List.map_map]
  congr 2
  funext x
  simp

/-- Whether samples deviate by more than a hundredth of `m` can be told with integers. -/
theorem hundredth_lt_deviation_iff {m : Int} (hm : 0 ≤ m) {xs : List Int} (hne : xs ≠ []) :
    (m : ℝ) * 0.01 < deviation m (xs.map (Int.cast : Int → ℝ)) ↔
      m ^ 2 * xs.length < 10000 * squares m xs := by
  have hlength : (0 : ℝ) < xs.length := Nat.cast_pos.mpr (List.length_pos_iff.mpr hne)
  have hm' : (0 : ℝ) ≤ m := Int.cast_nonneg hm
  rw [deviation, ← cast_squares, List.length_map, Real.lt_sqrt (by positivity), lt_div_iff₀ hlength]
  have hcast : (m ^ 2 * xs.length < 10000 * squares m xs) ↔
      ((m : ℝ) ^ 2 * xs.length < 10000 * squares m xs) := by
    exact_mod_cast Iff.rfl
  rw [hcast]
  constructor
  · intro h
    linarith
  · intro h
    linarith

/-! ## Removing the farthest sample -/

/-- `ys` is `xs` without one sample, and no sample is farther from the mean than that one. -/
def Trims (xs ys : List Nat) : Prop :=
  ∃ i, ∃ h : i < xs.length,
    (∀ x ∈ xs, Nat.dist (mean xs) x ≤ Nat.dist (mean xs) xs[i]) ∧ ys = xs.eraseIdx i

theorem Trims.length_eq {xs ys : List Nat} (h : Trims xs ys) : ys.length + 1 = xs.length := by
  obtain ⟨i, hi, -, rfl⟩ := h
  rw [List.length_eraseIdx_of_lt hi]
  omega

theorem Trims.sublist {xs ys : List Nat} (h : Trims xs ys) : ys.Sublist xs := by
  obtain ⟨i, -, -, rfl⟩ := h
  exact List.eraseIdx_sublist xs i

end Trimming
