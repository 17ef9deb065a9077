/-
  QwNet.Sleep

  The calibration of the sleep: `get_sleep_granularity`.

  Fifty sleep times are measured, and the loop removes the one farthest from their mean
  until they deviate by no more than a hundredth of it.  The loop does not look at the
  number of samples that are left: it ends in time because a single sample does not
  deviate.  The test of the deviation is the exact one (`unsteady_iff`).
-/
import QwNet.Lib.Loop
import QwNet.Lib.Trimming

namespace QwNet

/-- `NUMSAMPLES`. -/
def numSamples : Nat := 50

/-- `abs(sleeptime[i]-avg)`, which is compared with an `unsigned int`. -/
def distance (avg : BitVec 32) (time : BitVec 64) : BitVec 32 :=
  ((time - avg.setWidth 64).setWidth 32).abs

/-- The variables `sleeptime`, `samples` and `avg`. -/
structure Calibration where
  sleeptime : Nat → BitVec 64
  samples : BitVec 32
  avg : BitVec 32

namespace Calibration

/-- The samples that are left. -/
def times (s : Calibration) : List (BitVec 64) := (List.range s.samples.toNat).map s.sleeptime

/-- `accum`. -/
def accum (s : Calibration) : BitVec 64 := s.times.foldl (· + ·) 0#64

/-- `avg = accum/samples`. -/
def setAvg (s : Calibration) : Calibration :=
  { s with avg := (s.accum / s.samples.setWidth 64).setWidth 32 }

/-- `maxdist`. -/
def maxdist (s : Calibration) : BitVec 32 :=
  s.times.foldl (fun m time => if m < distance s.avg time then distance s.avg time else m) 0#32

/-- `stddev > (((double)avg)*0.01)`, with both sides squared and `samples` multiplied out. -/
def Unsteady (s : Calibration) : Prop :=
  (s.avg.toNat : Int) ^ 2 * s.times.length
    < 10000 * Trimming.squares s.avg.toNat (s.times.map fun time => (time.toNat : Int))

instance (s : Calibration) : Decidable s.Unsteady := inferInstanceAs (Decidable (_ < _))

/-- The `memmove` over sample `i`, and `samples--`. -/
def remove (i : Nat) (s : Calibration) : Calibration :=
  let count := (s.samples - BitVec.ofNat 32 i - 1#32).toNat
  { s with
    sleeptime := fun j => if i ≤ j ∧ j < i + count then s.sleeptime (j + 1) else s.sleeptime j
    samples := s.samples - 1#32 }

/-- The loop that looks for a sample at the maximal distance. -/
def removeFarthest (s : Calibration) : Calibration :=
  match (List.range s.samples.toNat).find? fun i => distance s.avg (s.sleeptime i) = s.maxdist with
  | some i => s.remove i
  | none => s

/-- One pass of the loop; a division by zero does not come back. -/
def pass : RunM Calibration (Option Unit) := fun s =>
  if s.samples = 0#32 then (none, s)
  else
    let s := s.setAvg
    (some (if s.Unsteady ∧ 500#32 < s.avg then none else some ()), s.removeFarthest)

/-- The loop. -/
def outliers : RunM.Body Calibration Unit where
  run _ := pass
  mono _ := RunM.Extends.refl pass

/-- The variables when the loop begins; `avg` is not initialised. -/
def start (sleeptime : Nat → BitVec 64) (avg : BitVec 32) : Calibration :=
  ⟨sleeptime, BitVec.ofNat 32 numSamples, avg⟩

/-- The test is the one of the exact standard deviation. -/
theorem unsteady_iff {s : Calibration} (h : s.times ≠ []) : s.Unsteady ↔
    (s.avg.toNat : ℝ) * 0.01
      < Trimming.deviation s.avg.toNat (s.times.map fun time => (time.toNat : ℝ)) := by
  have hne : (s.times.map fun time => (time.toNat : Int)) ≠ [] := fun hnil =>
    h (List.map_eq_nil_iff.mp hnil)
  have hiff := Trimming.hundredth_lt_deviation_iff (Int.natCast_nonneg s.avg.toNat) hne
  rw [List.length_map, List.map_map] at hiff
  exact hiff.symm

/-! ## The numbers behind the machine words -/

/-- The samples that are left, as numbers. -/
def values (s : Calibration) : List Nat := s.times.map BitVec.toNat

/-- Not more samples than were measured are left, and each is below `2 ^ 31`. -/
structure Small (s : Calibration) : Prop where
  few : s.samples.toNat ≤ numSamples
  small : ∀ x ∈ s.values, x < 2 ^ 31

@[simp] theorem length_times (s : Calibration) : s.times.length = s.samples.toNat := by
  simp [times]

@[simp] theorem length_values (s : Calibration) : s.values.length = s.samples.toNat := by
  simp [values]

theorem samples_pos {s : Calibration} (h : s.samples ≠ 0#32) : 0 < s.samples.toNat :=
  Nat.pos_of_ne_zero fun hzero => h (BitVec.eq_of_toNat_eq hzero)

theorem times_ne_nil {s : Calibration} (h : s.samples ≠ 0#32) : s.times ≠ [] := by
  apply List.ne_nil_of_length_pos
  rw [length_times]
  exact samples_pos h

theorem values_ne_nil {s : Calibration} (h : s.samples ≠ 0#32) : s.values ≠ [] :=
  fun hnil => times_ne_nil h (List.map_eq_nil_iff.mp hnil)

theorem toNat_foldl_add (ts : List (BitVec 64)) (a : BitVec 64) :
    (ts.foldl (· + ·) a).toNat = (a.toNat + (ts.map BitVec.toNat).sum) % 2 ^ 64 := by
  induction ts generalizing a with
  | nil => simp [Nat.mod_eq_of_lt a.isLt]
  | cons t ts ih =>
    rw [List.foldl_cons, ih, BitVec.toNat_add, List.map_cons, List.sum_cons, Nat.mod_add_mod,
      Nat.add_assoc]

/-- The sum of the samples does not wrap. -/
theorem Small.toNat_accum {s : Calibration} (h : s.Small) : s.accum.toNat = s.values.sum := by
  have hsum : s.values.sum ≤ s.values.length • 2 ^ 31 :=
    List.sum_le_card_nsmul _ _ fun x hx => Nat.le_of_lt (h.small x hx)
  have hbound : s.values.length * 2 ^ 31 ≤ numSamples * 2 ^ 31 := by
    rw [length_values]
    exact Nat.mul_le_mul_right _ h.few
  rw [smul_eq_mul] at hsum
  rw [accum, toNat_foldl_add, BitVec.toNat_zero, Nat.zero_add]
  refine Nat.mod_eq_of_lt (hsum.trans_lt (hbound.trans_lt ?_))
  decide

theorem Small.mean_lt {s : Calibration} (h : s.Small) (hne : s.samples ≠ 0#32) :
    Trimming.mean s.values < 2 ^ 31 := by
  obtain ⟨x, hx, hle⟩ := Trimming.exists_mean_le (values_ne_nil hne)
  exact hle.trans_lt (h.small x hx)

/-- `avg` is the truncated mean. -/
theorem Small.toNat_setAvg {s : Calibration} (h : s.Small) (hne : s.samples ≠ 0#32) :
    s.setAvg.avg.toNat = Trimming.mean s.values := by
  have hlt := h.mean_lt hne
  have hdiv : (s.accum / s.samples.setWidth 64).toNat = Trimming.mean s.values := by
    rw [BitVec.toNat_udiv, h.toNat_accum, BitVec.toNat_setWidth_of_le (by decide), ← length_values]
    rfl
  rw [setAvg, BitVec.toNat_setWidth, hdiv]
  exact Nat.mod_eq_of_lt (by omega)

/-- The truncated difference has the right absolute value. -/
theorem toNat_distance {avg : BitVec 32} {time : BitVec 64} (havg : avg.toNat < 2 ^ 31)
    (htime : time.toNat < 2 ^ 31) : (distance avg time).toNat = Nat.dist avg.toNat time.toNat := by
  have hdiff : ((time - avg.setWidth 64).setWidth 32).toNat
      = (2 ^ 32 + time.toNat - avg.toNat) % 2 ^ 32 := by
    rw [BitVec.toNat_setWidth, BitVec.toNat_sub, BitVec.toNat_setWidth_of_le (by decide)]
    omega
  rw [distance, BitVec.toNat_abs, BitVec.msb_eq_decide, hdiff, Nat.dist]
  -- a negative difference has wrapped into the upper half
  by_cases hle : avg.toNat ≤ time.toNat
  · have hmod : (2 ^ 32 + time.toNat - avg.toNat) % 2 ^ 32 = time.toNat - avg.toNat := by omega
    rw [hmod, if_neg (by rw [decide_eq_true_eq]; omega)]
    omega
  · have hmod : (2 ^ 32 + time.toNat - avg.toNat) % 2 ^ 32 = 2 ^ 32 + time.toNat - avg.toNat :=
      Nat.mod_eq_of_lt (by omega)
    rw [hmod, if_pos (by rw [decide_eq_true_eq]; omega)]
    omega

/-! ## One sample is removed -/

theorem toNat_foldl_max (f : BitVec 64 → BitVec 32) (ts : List (BitVec 64)) (m : BitVec 32) :
    (ts.foldl (fun m t => if m < f t then f t else m) m).toNat
      = (ts.map fun t => (f t).toNat).foldl max m.toNat := by
  induction ts generalizing m with
  | nil => rfl
  | cons t ts ih =>
    have hmax : (if m < f t then f t else m).toNat = max m.toNat (f t).toNat := by
      split
      next hlt => rw [Nat.max_eq_right (Nat.le_of_lt (BitVec.lt_def.mp hlt))]
      next hge => rw [Nat.max_eq_left (Nat.le_of_not_lt fun h => hge (BitVec.lt_def.mpr h))]
    rw [List.foldl_cons, ih, hmax, List.map_cons, List.foldl_cons]

/-- `maxdist` is the distance of one of the samples, and no distance is larger. -/
theorem maxdist_spec {s : Calibration} (hne : s.samples ≠ 0#32) :
    (∃ i < s.samples.toNat, distance s.avg (s.sleeptime i) = s.maxdist) ∧
      ∀ time ∈ s.times, (distance s.avg time).toNat ≤ s.maxdist.toNat := by
  have hnonempty : (s.times.map fun time => (distance s.avg time).toNat) ≠ [] :=
    fun hnil => times_ne_nil hne (List.map_eq_nil_iff.mp hnil)
  obtain ⟨m, hm⟩ := Option.isSome_iff_exists.mp (List.isSome_max?_of_ne_nil hnonempty)
  have hmax : s.maxdist.toNat = m := by
    rw [maxdist, toNat_foldl_max, List.foldl_max, hm]
    exact Nat.max_eq_right (Nat.zero_le m)
  obtain ⟨hmem, hle⟩ := List.max?_eq_some_iff.mp hm
  constructor
  · obtain ⟨time, htime, hdist⟩ := List.mem_map.mp hmem
    obtain ⟨i, hi, rfl⟩ := List.mem_map.mp htime
    exact ⟨i, List.mem_range.mp hi, BitVec.eq_of_toNat_eq (hdist.trans hmax.symm)⟩
  · intro time htime
    rw [hmax]
    exact hle _ (List.mem_map.mpr ⟨time, htime, rfl⟩)

theorem toNat_samples_remove {s : Calibration} (hne : s.samples ≠ 0#32) (i : Nat) :
    (s.remove i).samples.toNat = s.samples.toNat - 1 := by
  have hpos := samples_pos hne
  rw [remove, BitVec.toNat_sub, BitVec.toNat_ofNat]
  omega

/-- The `memmove` closes the gap. -/
theorem times_remove {s : Calibration} {i : Nat} (hi : i < s.samples.toNat) :
    (s.remove i).times = s.times.eraseIdx i := by
  have hne : s.samples ≠ 0#32 := fun h => by simp [h] at hi
  have hcount : (s.samples - BitVec.ofNat 32 i - 1#32).toNat = s.samples.toNat - i - 1 := by
    have hlt := s.samples.isLt
    rw [BitVec.toNat_sub, BitVec.toNat_sub, BitVec.toNat_ofNat, BitVec.toNat_ofNat]
    omega
  apply List.ext_getElem
  · rw [length_times, toNat_samples_remove hne, List.length_eraseIdx_of_lt (by simpa using hi),
      length_times]
  · intro j hj hj'
    rw [length_times, toNat_samples_remove hne] at hj
    rw [List.getElem_eraseIdx]
    simp only [times, remove, List.getElem_map, List.getElem_range, hcount]
    by_cases hlt : j < i
    · rw [if_neg (by omega), dif_pos hlt]
    · rw [if_pos (by omega), dif_neg hlt]

/-- The search finds a sample, and removes it. -/
theorem removeFarthest_eq {s : Calibration} (hne : s.samples ≠ 0#32) :
    ∃ i < s.samples.toNat, distance s.avg (s.sleeptime i) = s.maxdist ∧
      s.removeFarthest = s.remove i := by
  obtain ⟨⟨i, hi, hdist⟩, -⟩ := maxdist_spec hne
  unfold removeFarthest
  split
  · rename_i j hfound
    obtain ⟨hj, hrange, -⟩ := List.find?_range_eq_some.mp hfound
    exact ⟨j, List.mem_range.mp hrange, of_decide_eq_true hj, rfl⟩
  · rename_i hnone
    have hmiss := List.find?_range_eq_none.mp hnone i hi
    simp [hdist] at hmiss

/-! ## Passes -/

@[simp] theorem times_setAvg (s : Calibration) : s.setAvg.times = s.times := rfl

@[simp] theorem avg_removeFarthest (s : Calibration) : s.removeFarthest.avg = s.avg := by
  unfold removeFarthest
  split <;> rfl

theorem pass_eq {s : Calibration} (hne : s.samples ≠ 0#32) : pass s =
    (some (if s.setAvg.Unsteady ∧ 500#32 < s.setAvg.avg then none else some ()),
      s.setAvg.removeFarthest) := if_neg hne

/-- A pass removes one sample, which is as far from the truncated mean as any. -/
theorem Small.trims {s : Calibration} (h : s.Small) (hne : s.samples ≠ 0#32) :
    Trimming.Trims s.values s.setAvg.removeFarthest.values := by
  obtain ⟨i, hi, hdist, heq⟩ := removeFarthest_eq (s := s.setAvg) hne
  obtain ⟨-, hle⟩ := maxdist_spec (s := s.setAvg) hne
  have havg := h.toNat_setAvg hne
  have hsmall : s.setAvg.avg.toNat < 2 ^ 31 := havg.trans_lt (h.mean_lt hne)
  have hdistance : ∀ time ∈ s.times,
      (distance s.setAvg.avg time).toNat = Nat.dist (Trimming.mean s.values) time.toNat := by
    intro time htime
    rw [toNat_distance hsmall (h.small _ (List.mem_map_of_mem htime)), havg]
  have hi' : i < s.values.length := by rwa [length_values]
  have hget : s.values[i] = (s.sleeptime i).toNat := by simp [values, times]
  refine ⟨i, hi', ?_, ?_⟩
  · -- its distance is `maxdist`, which no distance exceeds
    intro x hx
    obtain ⟨time, htime, rfl⟩ := List.mem_map.mp hx
    have hfar : s.sleeptime i ∈ s.times := List.mem_map_of_mem (List.mem_range.mpr hi)
    rw [hget, ← hdistance _ hfar, ← hdistance _ htime]
    exact (hle time htime).trans_eq (congrArg BitVec.toNat hdist.symm)
  · rw [heq, values, times_remove hi, ← List.eraseIdx_map]
    rfl

/-- A single sample does not deviate from the mean. -/
theorem Small.two_le_of_unsteady {s : Calibration} (h : s.Small) (hne : s.samples ≠ 0#32)
    (hunsteady : s.setAvg.Unsteady) : 2 ≤ s.samples.toNat := by
  have hpos := samples_pos hne
  by_contra hone
  obtain ⟨time, htime⟩ := List.length_eq_one_iff.mp
    (show s.times.length = 1 by rw [length_times]; omega)
  have havg : s.setAvg.avg.toNat = time.toNat := by
    rw [h.toNat_setAvg hne, values, htime]
    exact Trimming.mean_singleton time.toNat
  rw [Unsteady, times_setAvg, havg, htime, List.map_singleton, Trimming.squares_self] at hunsteady
  have hsquare : (0 : Int) ≤ (time.toNat : Int) ^ 2 * ([time].length : Int) := by positivity
  omega

/-- Of the measured samples some are left. -/
structure Left (measured : List Nat) (s : Calibration) : Prop where
  small : s.Small
  nonempty : s.samples ≠ 0#32
  sublist : s.values.Sublist measured

/-- A pass that goes on leaves some. -/
theorem Left.next {measured : List Nat} {s s' : Calibration} (h : Left measured s)
    (hpass : pass s = (some none, s')) :
    Left measured s' ∧ s'.samples.toNat + 1 = s.samples.toNat := by
  rw [pass_eq h.nonempty, Prod.mk.injEq] at hpass
  obtain ⟨hgo, rfl⟩ := hpass
  have htrims := h.small.trims h.nonempty
  have hlength := htrims.length_eq
  rw [length_values, length_values] at hlength
  -- the loop goes on with samples that deviate, so there was more than one
  have hunsteady : s.setAvg.Unsteady := by
    by_contra hsteady
    rw [if_neg fun hboth => hsteady hboth.1] at hgo
    exact absurd hgo (by simp)
  have htwo := h.small.two_le_of_unsteady h.nonempty hunsteady
  refine ⟨⟨⟨?_, fun x hx => h.small.small x (htrims.sublist.subset hx)⟩, fun hzero => ?_,
    htrims.sublist.trans h.sublist⟩, hlength⟩
  · have hfew := h.small.few
    omega
  · rw [hzero] at hlength
    simp at hlength
    omega

theorem Left.passes {measured : List Nat} {k : Nat} {s s' : Calibration} (h : Left measured s)
    (hpasses : outliers.Passes k s s') :
    Left measured s' ∧ s'.samples.toNat + k = s.samples.toNat := by
  induction hpasses with
  | zero s => exact ⟨h, rfl⟩
  | succ hpass _ ih =>
    obtain ⟨hnext, hsamples⟩ := h.next hpass
    obtain ⟨hleft, hrest⟩ := ih hnext
    exact ⟨hleft, by omega⟩

/-- A number lies between two of the measured samples. -/
def Within (measured : List Nat) (n : Nat) : Prop := (∃ x ∈ measured, x ≤ n) ∧ ∃ x ∈ measured, n ≤ x

/-- The mean of samples that are left lies between two that were measured. -/
theorem Left.within {measured : List Nat} {s : Calibration} (h : Left measured s) :
    Within measured s.setAvg.avg.toNat := by
  rw [h.small.toNat_setAvg h.nonempty]
  obtain ⟨x, hx, hle⟩ := Trimming.exists_le_mean (values_ne_nil h.nonempty)
  obtain ⟨y, hy, hge⟩ := Trimming.exists_mean_le (values_ne_nil h.nonempty)
  exact ⟨⟨x, h.sublist.subset hx, hle⟩, y, h.sublist.subset hy, hge⟩

/-- The loop ends, and the last mean lies between two of the measured samples. -/
theorem Left.ends {measured : List Nat} {s : Calibration} (h : Left measured s) {fuel : Nat}
    (hfuel : s.samples.toNat ≤ fuel) : ∃ s', outliers.while fuel s = (some (), s') ∧
      Within measured s'.avg.toNat := by
  have hpass : ∀ s, Left measured s →
      (∃ b s', pass s = (some (some b), s') ∧ Within measured s'.avg.toNat) ∨
      ∃ s', pass s = (some none, s') ∧ Left measured s' ∧
        s'.samples.toNat - 1 < s.samples.toNat - 1 := by
    intro s hs
    have heq := pass_eq hs.nonempty
    split at heq
    · obtain ⟨hnext, hsamples⟩ := hs.next heq
      have hpos := samples_pos hnext.nonempty
      exact .inr ⟨_, heq, hnext, by omega⟩
    · refine .inl ⟨(), _, heq, ?_⟩
      rw [avg_removeFarthest]
      exact hs.within
  have hpos := samples_pos h.nonempty
  obtain ⟨u, s', hloop, hwithin⟩ := RunM.loop_of_measure hpass h
    (show s.samples.toNat - 1 < fuel by omega)
  exact ⟨s', hloop, hwithin⟩

end Calibration

/-- `get_sleep_granularity` with the sleep times that it measures, if its loop ends within `fuel`
    passes. -/
def getSleepGranularity (fuel : Nat) (sleeptime : Nat → BitVec 64) (avg : BitVec 32) :
    Option (BitVec 32) :=
  let r := Calibration.outliers.while fuel (.start sleeptime avg)
  r.1.map fun _ => if r.2.samples < BitVec.ofNat 32 (numSamples / 5) then 8000#32 else r.2.avg

namespace Calibration

theorem values_start {sleeptime : Nat → BitVec 64} {avg : BitVec 32} :
    (start sleeptime avg).values = (List.range numSamples).map fun i => (sleeptime i).toNat := by
  rw [values, times, List.map_map]
  rfl

theorem left_start {sleeptime : Nat → BitVec 64} (avg : BitVec 32)
    (hsmall : ∀ i < numSamples, (sleeptime i).toNat < 2 ^ 31) :
    Left (start sleeptime avg).values (start sleeptime avg) := by
  refine ⟨⟨Nat.le_refl numSamples, fun x hx => ?_⟩, (by decide : 50#32 ≠ 0#32), List.Sublist.refl _⟩
  rw [values_start] at hx
  obtain ⟨i, hi, rfl⟩ := List.mem_map.mp hx
  exact hsmall i (List.mem_range.mp hi)

end Calibration

open Calibration

/-- The calibration ends within `NUMSAMPLES` passes.  It returns 8000 or a time between two that
    were measured, and each pass that it begins finds samples, and removes one that is as far from
    their truncated mean as any. -/
theorem getSleepGranularity_safe {sleeptime : Nat → BitVec 64} (avg : BitVec 32)
    (hsmall : ∀ i < numSamples, (sleeptime i).toNat < 2 ^ 31) :
    (∃ v, getSleepGranularity numSamples sleeptime avg = some v ∧
      (v = 8000#32 ∨ (∃ i < numSamples, ((sleeptime i).toNat : Int) ≤ v.toInt) ∧
        ∃ i < numSamples, v.toInt ≤ (sleeptime i).toNat)) ∧
    ∀ k s, outliers.Passes k (start sleeptime avg) s → k < numSamples ∧ s.samples ≠ 0#32 ∧
      ∃ r s', pass s = (some r, s') ∧ Trimming.Trims s.values s'.values := by
  have hstart := left_start avg hsmall
  constructor
  · obtain ⟨s', hloop, hwithin⟩ := hstart.ends (Nat.le_refl numSamples)
    rw [getSleepGranularity, hloop]
    refine ⟨_, rfl, ?_⟩
    split
    · exact .inl rfl
    · -- below `2 ^ 31` the mean is the same number as an `int`
      obtain ⟨⟨x, hx, hle⟩, y, hy, hge⟩ := hwithin
      rw [values_start] at hx hy
      obtain ⟨i, hi, rfl⟩ := List.mem_map.mp hx
      obtain ⟨j, hj, rfl⟩ := List.mem_map.mp hy
      have hlt := hsmall j (List.mem_range.mp hj)
      have hint : s'.avg.toInt = s'.avg.toNat := BitVec.toInt_eq_toNat_of_lt (by omega)
      right
      rw [hint]
      exact ⟨⟨i, List.mem_range.mp hi, by omega⟩, j, List.mem_range.mp hj, by omega⟩
  · intro k s hpasses
    obtain ⟨hleft, hsamples⟩ := hstart.passes hpasses
    have hpos := samples_pos hleft.nonempty
    have hfifty : (start sleeptime avg).samples.toNat = numSamples := rfl
    exact ⟨by omega, hleft.nonempty, _, _, pass_eq hleft.nonempty, hleft.small.trims hleft.nonempty⟩

/-- Times that increase by one microsecond each. -/
theorem getSleepGranularity_safe_increasing :
    ∃ v, getSleepGranularity numSamples (fun i => BitVec.ofNat 64 (1000 + i)) 0 = some v ∧
      (v = 8000#32 ∨ (∃ i < numSamples, ((BitVec.ofNat 64 (1000 + i)).toNat : Int) ≤ v.toInt) ∧
        ∃ i < numSamples, v.toInt ≤ (BitVec.ofNat 64 (1000 + i)).toNat) :=
  (getSleepGranularity_safe 0 fun i hi => by
    rw [BitVec.toNat_ofNat]
    have hi' : i < 50 := hi
    omega).1

end QwNet
